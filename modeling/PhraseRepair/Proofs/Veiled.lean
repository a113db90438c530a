import Mathlib.Data.List.Basic
import PhraseRepair.Placeholder
import PhraseRepair.Proofs.Spacing

/-!
# Veiled phrases

A masked phrase is a text in which keys stand for fragments. To reason about it, it is read as a
list of *symbols*: characters in sight, and fragments out of sight. What a hidden fragment is known
by is left open. It may be its place in the order of hiding, or the text that it will be restored
to. `fill` writes a veiled phrase out as a text, given the text to write for each hidden fragment:
the key, for the masked phrase itself, and the restored text, for the phrase in the end.

Every function below is defined symbol by symbol, so that whatever is computed from a veiled phrase
without looking at its hidden fragments is the same for every way of filling it.
-/

namespace PhraseRepair

/-- A symbol of a veiled phrase: a character in sight, or a fragment out of sight. -/
inductive Symbol (α : Type)
  | plain (c : Char)
  | hidden (a : α)
  deriving DecidableEq, Repr

namespace Symbol

variable {α β : Type}

/-- The text of a symbol, given the text to write for a hidden fragment. -/
def write (f : α → Text) : Symbol α → Text
  | plain c => [c]
  | hidden a => f a

/-- The symbol with another name for a hidden fragment. -/
def map (f : α → β) : Symbol α → Symbol β
  | plain c => plain c
  | hidden a => hidden (f a)

/-- Whether a symbol is a space in sight. -/
def isSpace : Symbol α → Bool
  | plain c => c = ' '
  | hidden _ => false

/-- The character that a symbol is seen as. All hidden fragments look alike. -/
def shape : Symbol α → Char
  | plain c => c
  | hidden _ => Placeholder.opening

theorem eq_plain_of_isSpace {a : Symbol α} (h : a.isSpace = true) : a = .plain ' ' := by
  cases a with
  | plain c => exact congrArg plain (of_decide_eq_true h)
  | hidden a => exact absurd h Bool.false_ne_true

end Symbol

/-- A phrase some of whose fragments are out of sight. -/
abbrev Veiled (α : Type) := List (Symbol α)

namespace Veiled

variable {α β : Type}

/-- A text all of which is in sight. -/
def ofText (t : Text) : Veiled α := t.map .plain

/-- The text of a veiled phrase, given the text to write for each hidden fragment. -/
def fill (f : α → Text) (s : Veiled α) : Text := s.flatMap (Symbol.write f)

/-- What a veiled phrase looks like, with one character for every hidden fragment. -/
def shape (s : Veiled α) : Text := s.map Symbol.shape

/-- The veiled phrase with another name for each hidden fragment. -/
def rename (f : α → β) (s : Veiled α) : Veiled β := s.map (Symbol.map f)

/-- The veiled phrase with `g a` in place of each hidden fragment `a`. -/
def expand (g : α → Veiled β) (s : Veiled α) : Veiled β :=
  s.flatMap fun
    | .plain c => [.plain c]
    | .hidden a => g a

/-- No character in sight is a sentinel. -/
def Clean (s : Veiled α) : Prop := ∀ c, .plain c ∈ s → Placeholder.isSentinel c = false

theorem clean_iff {s : Veiled α} :
    s.Clean ↔ s.all (fun
      | .plain c => !Placeholder.isSentinel c
      | .hidden _ => true) = true := by
  rw [List.all_eq_true]
  refine ⟨fun h a ha ↦ ?_, fun h c hc ↦ ?_⟩
  · cases a with
    | plain c => simpa using h c ha
    | hidden a => rfl
  · simpa using h _ hc

instance (s : Veiled α) : Decidable s.Clean := decidable_of_iff _ clean_iff.symm

/-! ## Filling -/

@[simp] theorem fill_nil (f : α → Text) : fill f [] = [] := rfl

@[simp] theorem fill_plain (f : α → Text) (c : Char) (s : Veiled α) :
    fill f (.plain c :: s) = c :: fill f s := rfl

@[simp] theorem fill_hidden (f : α → Text) (a : α) (s : Veiled α) :
    fill f (.hidden a :: s) = f a ++ fill f s := rfl

theorem fill_cons (f : α → Text) (a : Symbol α) (s : Veiled α) :
    fill f (a :: s) = a.write f ++ fill f s := rfl

@[simp] theorem fill_append (f : α → Text) (s t : Veiled α) :
    fill f (s ++ t) = fill f s ++ fill f t := List.flatMap_append

@[simp] theorem fill_ofText (f : α → Text) (t : Text) : fill f (ofText t) = t := by
  induction t with
  | nil => rfl
  | cons c t ih => rw [ofText, List.map_cons, fill_plain, ← ofText, ih]

theorem fill_congr {f g : α → Text} {s : Veiled α} (h : ∀ a, .hidden a ∈ s → f a = g a) :
    fill f s = fill g s := by
  refine List.flatMap_congr fun x hx ↦ ?_
  cases x with
  | plain c => rfl
  | hidden a => exact h a hx

theorem fill_rename (f : β → Text) (g : α → β) (s : Veiled α) :
    fill f (rename g s) = fill (fun a ↦ f (g a)) s := by
  rw [fill, rename, List.flatMap_map]
  refine List.flatMap_congr fun x _ ↦ ?_
  cases x <;> rfl

theorem fill_expand (f : β → Text) (g : α → Veiled β) (s : Veiled α) :
    fill f (expand g s) = fill (fun a ↦ fill f (g a)) s := by
  rw [fill, expand, List.flatMap_assoc, fill]
  refine List.flatMap_congr fun x _ ↦ ?_
  cases x with
  | plain c => rfl
  | hidden a => rfl

/-- Without hidden fragments, all ways of filling agree. -/
theorem fill_of_forall_not_hidden {s : Veiled α} (h : ∀ a, .hidden a ∉ s) (f g : α → Text) :
    fill f s = fill g s := fill_congr fun a ha ↦ absurd ha (h a)

/-! ## Renaming -/

theorem rename_append (f : α → β) (s t : Veiled α) :
    rename f (s ++ t) = rename f s ++ rename f t := List.map_append

@[simp] theorem rename_nil (f : α → β) : rename f [] = [] := rfl

@[simp] theorem rename_plain (f : α → β) (c : Char) (s : Veiled α) :
    rename f (.plain c :: s) = .plain c :: rename f s := rfl

@[simp] theorem rename_hidden (f : α → β) (a : α) (s : Veiled α) :
    rename f (.hidden a :: s) = .hidden (f a) :: rename f s := rfl

theorem rename_congr {f g : α → β} {s : Veiled α} (h : ∀ a, .hidden a ∈ s → f a = g a) :
    rename f s = rename g s := by
  refine List.map_congr_left fun x hx ↦ ?_
  rcases x with c | a
  · rfl
  · exact congrArg Symbol.hidden (h a hx)

theorem rename_rename {γ : Type} (f : β → γ) (g : α → β) (s : Veiled α) :
    rename f (rename g s) = rename (fun a ↦ f (g a)) s := by
  rw [rename, rename, List.map_map]
  refine List.map_congr_left fun x _ ↦ ?_
  cases x <;> rfl

@[simp] theorem rename_ofText (f : α → β) (t : Text) : rename f (ofText t) = ofText t := by
  rw [rename, ofText, List.map_map]
  rfl

/-! ## Shape

The shape is the text that is seen when all hidden fragments look alike. It has one character for
every symbol, so places in the shape are places in the phrase. -/

@[simp] theorem shape_nil : shape ([] : Veiled α) = [] := rfl

@[simp] theorem shape_cons (a : Symbol α) (s : Veiled α) :
    shape (a :: s) = a.shape :: shape s := rfl

@[simp] theorem shape_append (s t : Veiled α) : shape (s ++ t) = shape s ++ shape t :=
  List.map_append

@[simp] theorem length_shape (s : Veiled α) : (shape s).length = s.length := List.length_map _

@[simp] theorem shape_ofText (t : Text) : shape (ofText t : Veiled α) = t := by
  rw [shape, ofText, List.map_map]
  exact List.map_id t

@[simp] theorem shape_rename (f : α → β) (s : Veiled α) : shape (rename f s) = shape s := by
  rw [shape, rename, List.map_map]
  refine List.map_congr_left fun x _ ↦ ?_
  cases x <;> rfl

theorem shape_eq_fill (s : Veiled α) : shape s = fill (fun _ ↦ [Placeholder.opening]) s := by
  induction s with
  | nil => rfl
  | cons x s ih => cases x <;> simp [ih, Symbol.shape]

/-! ## Cutting at spaces

A fragment may hold spaces, but its key does not, so a phrase filled with keys is cut as the phrase
itself is. -/

/-- What lies between the spaces in sight, empty pieces included. -/
def pieces (s : Veiled α) : List (Veiled α) := s.splitOnP Symbol.isSpace

theorem pieces_rename (f : α → β) (s : Veiled α) :
    pieces (rename f s) = (pieces s).map (rename f) := by
  induction s with
  | nil => rfl
  | cons a s ih =>
    rw [pieces, rename, List.map_cons, List.splitOnP_cons_eq_if_modifyHead, ← rename, ← pieces, ih,
      pieces, pieces, List.splitOnP_cons_eq_if_modifyHead,
      show (a.map f).isSpace = a.isSpace by cases a <;> rfl]
    split
    · rfl
    · cases s.splitOnP Symbol.isSpace <;> rfl

/-- Cutting commutes with filling where no space is out of sight. -/
theorem pieces_fill {f : α → Text} {s : Veiled α} (h : ∀ a, .hidden a ∈ s → ' ' ∉ f a) :
    Text.pieces (fill f s) = (pieces s).map (fill f) := by
  refine Text.splitOnP_flatMap (fun x _ hx ↦ ?_) fun x hx hspace c hc ↦ ?_
  · exact ⟨' ', by rw [Symbol.eq_plain_of_isSpace hx]; rfl, rfl⟩
  · cases x with
    | plain d =>
      rw [List.mem_singleton.mp hc]
      simpa [Symbol.isSpace] using hspace
    | hidden a =>
      rw [beq_eq_false_iff_ne]
      rintro rfl
      exact h a hx hc

theorem flatMap_ite_isSpace (f : α → Text) (s : Veiled α) :
    (s.flatMap fun a ↦ if a.isSpace then [' '] else a.write f) = fill f s := by
  refine List.flatMap_congr fun a _ ↦ ?_
  split
  · next hspace => rw [Symbol.eq_plain_of_isSpace hspace, Symbol.write]
  · rfl

theorem joinWith_pieces (f : α → Text) (s : Veiled α) :
    Text.joinWith [' '] ((pieces s).map (fill f)) = fill f s :=
  (Text.intercalate_map_splitOnP Symbol.isSpace [' '] (Symbol.write f) s).trans
    (flatMap_ite_isSpace f s)

end Veiled

end PhraseRepair
