import Mathlib.Algebra.GroupWithZero.Nat
import PhraseRepair.Text.Words

/-!
# Blanks inside and around a text

What trimming leaves, joining and normalizing look like from inside a text: a blank survives
trimming exactly when something else stands before and behind it.

Normal spacing is put together from pieces. A text is cut at its blanks, empty pieces are dropped,
and the others are joined by single spaces. Whether a text has normal spacing already is told by a
function that reads it once from the left (`separated`), and not by comparing it with its normal
form. So it can be followed through everything that is done to the text.
-/

namespace PhraseRepair.Text

/-! ## Trimming

Trimming at the end is trimming at the beginning of the reversed text, and that is how it is
defined. A blank in the result can be located only by going through both directions. Once this has
been done, nothing else needs to know how trimming works. -/

private theorem exists_of_dropWhile_eq {p : Char → Bool} {t x y : Text} {c : Char} (hc : p c = true)
    (h : t.dropWhile p = x ++ c :: y) :
    t = t.takeWhile p ++ x ++ c :: y ∧ ∃ d ∈ x, p d = false := by
  refine ⟨?_, ?_⟩
  · rw [List.append_assoc, ← h, List.takeWhile_append_dropWhile]
  · cases x with
    | nil =>
      have hne : t.dropWhile p ≠ [] := by simp [h]
      have hhead := List.head_dropWhile_not p hne
      simp [h, hc] at hhead
    | cons d x =>
      have hne : t.dropWhile p ≠ [] := by simp [h]
      have hhead := List.head_dropWhile_not p hne
      simp only [h, List.cons_append, List.head_cons] at hhead
      exact ⟨d, List.mem_cons_self, hhead⟩

private theorem dropWhile_append_of_exists {p : Char → Bool} {x : Text}
    (hx : ∃ d ∈ x, p d = false) (y : Text) :
    (x ++ y).dropWhile p = x.dropWhile p ++ y := by
  induction x with
  | nil => simp at hx
  | cons e x ih =>
    by_cases he : p e = true
    · obtain ⟨d, hd, hpd⟩ := hx
      have hd : d ∈ x := (List.mem_cons.mp hd).resolve_left fun h ↦ by simp [h, he] at hpd
      rw [List.cons_append, List.dropWhile_cons_of_pos he, List.dropWhile_cons_of_pos he,
        ih ⟨d, hd, hpd⟩]
    · rw [List.cons_append, List.dropWhile_cons_of_neg he, List.dropWhile_cons_of_neg he,
        List.cons_append]

/-- A blank survives trimming where other characters stand before and behind it. -/
theorem mem_trim_iff {t : Text} {c : Char} (hc : isBlank c = true) :
    c ∈ trim t ↔ ∃ x y, t = x ++ c :: y ∧ (∃ d ∈ x, isBlank d = false) ∧
      ∃ d ∈ y, isBlank d = false := by
  rw [trim, List.mem_reverse]
  constructor
  · intro h
    obtain ⟨x, y, hxy⟩ := List.append_of_mem h
    obtain ⟨hrev, d, hd, hblank⟩ := exists_of_dropWhile_eq hc hxy
    -- Read backwards, the text without its leading blanks starts with the blanks at its end.
    have hdrop : t.dropWhile isBlank = y.reverse ++ c :: (x.reverse
        ++ ((t.dropWhile isBlank).reverse.takeWhile isBlank).reverse) := by
      have := congrArg List.reverse hrev
      simpa using this
    obtain ⟨ht, e, he, heblank⟩ := exists_of_dropWhile_eq hc hdrop
    refine ⟨_, _, ht, ⟨e, List.mem_append_right _ he, heblank⟩, d, ?_, hblank⟩
    exact List.mem_append_left _ (List.mem_reverse.mpr hd)
  · rintro ⟨x, y, rfl, hx, d, hd, hblank⟩
    rw [dropWhile_append_of_exists hx, List.reverse_append, List.reverse_cons, List.append_assoc,
      dropWhile_append_of_exists ⟨d, List.mem_reverse.mpr hd, hblank⟩]
    simp

theorem exists_first (p : Char → Bool) (t : Text) : (∀ c ∈ t, p c = false) ∨
    ∃ x c y, t = x ++ c :: y ∧ (∀ d ∈ x, p d = false) ∧ p c = true := by
  cases hfind : t.find? p with
  | none => exact Or.inl fun c hc ↦ Bool.eq_false_iff.mpr (List.find?_eq_none.mp hfind c hc)
  | some c =>
    obtain ⟨hc, x, y, rfl, hx⟩ := List.find?_eq_some_iff_append.mp hfind
    exact Or.inr ⟨x, c, y, rfl, fun d hd ↦ by simpa using hx d hd, hc⟩

/-! ## Joining -/

@[simp] theorem joinWith_nil (separator : Text) : joinWith separator [] = [] := rfl

theorem mem_of_mem_intercalate {α : Type} {separator : List α} {ts : List (List α)} {a : α}
    (h : a ∈ separator.intercalate ts) : a ∈ separator ∨ ∃ t ∈ ts, a ∈ t := by
  induction ts with
  | nil => exact absurd h List.not_mem_nil
  | cons t ts ih =>
    cases ts with
    | nil =>
      rw [List.intercalate_singleton] at h
      exact Or.inr ⟨t, List.mem_cons_self, h⟩
    | cons u ts =>
      rw [List.intercalate_cons_cons, List.mem_append, List.mem_append] at h
      rcases h with (h | h) | h
      · exact Or.inr ⟨t, List.mem_cons_self, h⟩
      · exact Or.inl h
      · rcases ih h with h | ⟨v, hv, ha⟩
        · exact Or.inl h
        · exact Or.inr ⟨v, List.mem_cons_of_mem _ hv, ha⟩

/-! ## Cutting

Joining undoes cutting, with any list written in place of the separators and any rewriting of what
lies between them (`intercalate_map_splitOnP`). This equation stands behind everything that is said
about tokens, words and operands. The lemmas are about lists, as symbols and parts of a phrase are
cut in the same way as characters.

A *solid* text is one behind which a piece goes on, wherever the text stands. Being solid is kept by
putting texts one behind the other, whereas having normal spacing is not. So the normal spacing of a
text that is written is proved through its solid parts. -/

/-- What ends before the first `c` of a text ends before any `c` of it. -/
theorem exists_of_append_eq_append_cons {x y u v : Text} {c : Char} (hc : c ∉ x)
    (h : x ++ y = u ++ c :: v) : ∃ w, u = x ++ w ∧ y = w ++ c :: v := by
  rcases List.append_eq_append_iff.mp h with ⟨w, hu, hy⟩ | ⟨w, hx, hv⟩
  · exact ⟨w, hu, hy⟩
  · cases w with
    | nil => exact ⟨[], by rw [hx, List.append_nil, List.append_nil], hv.symm⟩
    | cons d w =>
      obtain ⟨rfl, -⟩ := List.cons.inj hv
      exact absurd (hx ▸ List.mem_append_right u List.mem_cons_self) hc

theorem mem_of_mem_splitOnP {α : Type} {p : α → Bool} {s u : List α} (hu : u ∈ s.splitOnP p)
    {a : α} (ha : a ∈ u) : a ∈ s := by
  induction s generalizing u with
  | nil =>
    rw [List.splitOnP_nil, List.mem_singleton] at hu
    exact hu ▸ ha
  | cons b s ih =>
    rw [List.splitOnP_cons_eq_if_modifyHead] at hu
    split at hu
    · rcases List.mem_cons.mp hu with rfl | hu
      · exact absurd ha List.not_mem_nil
      · exact List.mem_cons_of_mem _ (ih hu ha)
    · cases hs : s.splitOnP p with
      | nil => exact absurd hs (List.splitOnP_ne_nil p s)
      | cons v vs =>
        rw [hs] at ih hu
        rw [List.modifyHead_cons, List.mem_cons] at hu
        rcases hu with rfl | hu
        · rcases List.mem_cons.mp ha with rfl | ha
          · exact List.mem_cons_self
          · exact List.mem_cons_of_mem _ (ih List.mem_cons_self ha)
        · exact List.mem_cons_of_mem _ (ih (List.mem_cons_of_mem _ hu) ha)

theorem eq_false_of_mem_of_mem_splitOnP {α : Type} {p : α → Bool} {s u : List α}
    (hu : u ∈ s.splitOnP p) {a : α} (ha : a ∈ u) : p a = false := by
  induction s generalizing u with
  | nil =>
    rw [List.splitOnP_nil, List.mem_singleton] at hu
    exact absurd (hu ▸ ha) List.not_mem_nil
  | cons b s ih =>
    rw [List.splitOnP_cons_eq_if_modifyHead] at hu
    split at hu
    · rcases List.mem_cons.mp hu with rfl | hu
      · exact absurd ha List.not_mem_nil
      · exact ih hu ha
    · next hb =>
      cases hs : s.splitOnP p with
      | nil => exact absurd hs (List.splitOnP_ne_nil p s)
      | cons v vs =>
        rw [hs] at ih hu
        rw [List.modifyHead_cons, List.mem_cons] at hu
        rcases hu with rfl | hu
        · rcases List.mem_cons.mp ha with rfl | ha
          · exact Bool.eq_false_iff.mpr hb
          · exact ih List.mem_cons_self ha
        · exact ih (List.mem_cons_of_mem _ hu) ha

theorem splitOnP_congr {α : Type} {p q : α → Bool} {s : List α} (h : ∀ a ∈ s, p a = q a) :
    s.splitOnP p = s.splitOnP q := by
  induction s with
  | nil => rfl
  | cons a s ih =>
    rw [List.splitOnP_cons_eq_if_modifyHead, List.splitOnP_cons_eq_if_modifyHead,
      h a List.mem_cons_self, ih fun b hb ↦ h b (List.mem_cons_of_mem _ hb)]

/-- Joining what lies between separators writes the joining list in place of each separator. -/
theorem intercalate_map_splitOnP {α β : Type} (p : α → Bool) (separator : List β) (g : α → List β)
    (s : List α) : separator.intercalate ((s.splitOnP p).map fun u ↦ u.flatMap g)
      = s.flatMap fun a ↦ if p a then separator else g a := by
  induction s with
  | nil => rfl
  | cons a s ih =>
    rw [List.splitOnP_cons_eq_if_modifyHead, List.flatMap_cons, ← ih]
    have hne := List.splitOnP_ne_nil p s
    by_cases ha : p a = true
    · rw [if_pos ha, if_pos ha, List.map_cons, List.intercalate_cons_of_ne_nil (by simp)]
      rfl
    · rw [if_neg ha, if_neg ha]
      obtain ⟨v, vs, hs⟩ := List.exists_cons_of_ne_nil hne
      rw [hs, List.modifyHead_cons, List.map_cons, List.map_cons, List.flatMap_cons]
      cases vs with
      | nil => simp
      | cons w ws =>
        rw [List.map_cons, List.intercalate_cons_cons, List.intercalate_cons_cons,
          List.append_assoc, List.append_assoc, List.append_assoc]

/-- What holds no separator is part of the first piece of what follows it. -/
theorem splitOnP_append {α : Type} {p : α → Bool} {x : List α} (hx : ∀ a ∈ x, p a = false)
    (s : List α) : (x ++ s).splitOnP p = (s.splitOnP p).modifyHead (x ++ ·) := by
  induction x with
  | nil =>
    rw [List.nil_append]
    cases s.splitOnP p <;> rfl
  | cons a x ih =>
    rw [List.cons_append, List.splitOnP_cons_eq_if_modifyHead,
      if_neg (by simp [hx a List.mem_cons_self]), ih fun b hb ↦ hx b (List.mem_cons_of_mem _ hb),
      List.modifyHead_modifyHead]
    rfl

/-- Cutting commutes with rewriting each member, if separators are rewritten to one separator and
nothing else becomes one. -/
theorem splitOnP_flatMap {α β : Type} {p : α → Bool} {q : β → Bool} {g : α → List β} {s : List α}
    (hpos : ∀ a ∈ s, p a = true → ∃ b, g a = [b] ∧ q b = true)
    (hneg : ∀ a ∈ s, p a = false → ∀ b ∈ g a, q b = false) :
    (s.flatMap g).splitOnP q = (s.splitOnP p).map fun u ↦ u.flatMap g := by
  induction s with
  | nil => rfl
  | cons a s ih =>
    have ih := ih (fun b hb ↦ hpos b (List.mem_cons_of_mem _ hb))
      fun b hb ↦ hneg b (List.mem_cons_of_mem _ hb)
    rw [List.flatMap_cons, List.splitOnP_cons_eq_if_modifyHead]
    by_cases ha : p a = true
    · obtain ⟨b, hb, hq⟩ := hpos a List.mem_cons_self ha
      rw [hb, List.singleton_append, List.splitOnP_cons_eq_if_modifyHead, if_pos hq, if_pos ha, ih]
      rfl
    · rw [if_neg ha, splitOnP_append (hneg a List.mem_cons_self (Bool.eq_false_iff.mpr ha)), ih]
      cases s.splitOnP p <;> rfl

theorem nil_intercalate {α : Type} (us : List (List α)) : [].intercalate us = us.flatten := by
  induction us with
  | nil => rfl
  | cons u us ih =>
    cases us with
    | nil => rw [List.intercalate_singleton, List.flatten_singleton]
    | cons v us => rw [List.intercalate_cons_cons, ih, List.append_nil, ← List.flatten_cons]

theorem flatten_map_flatMap {α β : Type} (g : α → List β) (us : List (List α)) :
    (us.map fun u ↦ u.flatMap g).flatten = us.flatten.flatMap g := by
  rw [← List.flatMap_def, List.flatten_eq_flatMap, List.flatMap_assoc]
  rfl

theorem flatMap_intercalate {α β : Type} (g : α → List β) (x : List α) (us : List (List α)) :
    (x.intercalate us).flatMap g = (x.flatMap g).intercalate (us.map fun u ↦ u.flatMap g) := by
  induction us with
  | nil => rfl
  | cons u us ih =>
    cases us with
    | nil => rw [List.intercalate_singleton, List.map_singleton, List.intercalate_singleton]
    | cons v us =>
      rw [List.intercalate_cons_cons, List.map_cons, List.map_cons, List.intercalate_cons_cons,
        ← List.map_cons, ← ih, List.flatMap_append, List.flatMap_append]

/-- Whether no piece between separators is empty. The flag tells whether a piece begins here, and so
must not end here. -/
def separated {α : Type} (p : α → Bool) : Bool → List α → Bool
  | fresh, [] => !fresh
  | fresh, a :: s => if p a then !fresh && separated p true s else separated p false s

private theorem separated_iff {α : Type} {p : α → Bool} {s : List α} :
    (separated p true s = true ↔ [] ∉ s.splitOnP p) ∧
      (separated p false s = true ↔ [] ∉ (s.splitOnP p).tail) := by
  induction s with
  | nil => simp [separated, List.splitOnP_nil]
  | cons a s ih =>
    rw [separated, separated, List.splitOnP_cons_eq_if_modifyHead]
    by_cases ha : p a = true
    · simp [ha, ih.1]
    · rw [if_neg ha, if_neg ha, if_neg ha, ih.2]
      cases s.splitOnP p with
      | nil => simp
      | cons u us => simp

theorem separated_true_iff {α : Type} {p : α → Bool} {s : List α} :
    separated p true s = true ↔ [] ∉ s.splitOnP p := separated_iff.1

/-- Behind a list that does not end with a separator, a piece goes on. -/
theorem separated_of_append {α : Type} {p : α → Bool} {s t : List α} {a : α} (ha : p a = false)
    {fresh : Bool} (h : separated p fresh (s ++ a :: t) = true) : separated p false t = true := by
  induction s generalizing fresh with
  | nil => simpa [separated, ha] using h
  | cons b s ih =>
    rw [List.cons_append, separated] at h
    split at h
    · exact ih (Bool.and_eq_true_iff.mp h).2
    · exact ih h

theorem not_infix_of_separated {t : Text} {fresh : Bool}
    (h : separated (· == ' ') fresh t = true) : ¬ [' ', ' '] <:+: t := by
  induction t generalizing fresh with
  | nil => simp
  | cons c t ih =>
    rw [separated] at h
    rw [List.infix_cons_iff, not_or]
    split at h
    · rw [Bool.and_eq_true] at h
      refine ⟨fun hpre ↦ ?_, ih h.2⟩
      obtain ⟨t, rfl⟩ := (List.cons_prefix_cons.mp hpre).2
      exact absurd h.2 (by simp [separated])
    · next hc =>
      refine ⟨fun hpre ↦ hc ?_, ih h⟩
      rw [← (List.cons_prefix_cons.mp hpre).1]
      rfl

/-- A text that, at the beginning of a piece or inside one, is part of the piece and does not end
it. -/
def Solid (x : Text) : Prop :=
  ∀ fresh t, separated (· == ' ') fresh (x ++ t) = separated (· == ' ') false t

theorem Solid.ne_nil {x : Text} (hx : Solid x) : x ≠ [] := by
  rintro rfl
  exact absurd (hx true []) (by decide)

theorem separated_cons_of_ne {c : Char} (hc : c ≠ ' ') (fresh : Bool) (t : Text) :
    separated (· == ' ') fresh (c :: t) = separated (· == ' ') false t := by
  rw [separated, if_neg (by simpa using hc)]

theorem Solid.append {x y : Text} (hx : Solid x) (hy : Solid y) : Solid (x ++ y) := by
  intro fresh t
  rw [List.append_assoc, hx, hy]

theorem solid_flatMap {α : Type} {g : α → Text} {s : List α} (hne : s ≠ [])
    (hs : ∀ a ∈ s, Solid (g a)) : Solid (s.flatMap g) := by
  induction s with
  | nil => exact absurd rfl hne
  | cons a s ih =>
    rw [List.flatMap_cons]
    by_cases hnil : s = []
    · rw [hnil, List.flatMap_nil, List.append_nil]
      exact hs a List.mem_cons_self
    · exact (hs a List.mem_cons_self).append (ih hnil fun b hb ↦ hs b (List.mem_cons_of_mem _ hb))

theorem Solid.space {x y : Text} (hx : Solid x) (hy : Solid y) : Solid (x ++ ' ' :: y) := by
  intro fresh t
  rw [List.append_assoc, hx, List.cons_append, separated, if_pos (by decide), hy]
  rfl

theorem solid_of_forall_ne {x : Text} (hne : x ≠ []) (hx : ∀ c ∈ x, c ≠ ' ') : Solid x := by
  induction x with
  | nil => exact absurd rfl hne
  | cons c x ih =>
    intro fresh t
    rw [List.cons_append, separated_cons_of_ne (hx c List.mem_cons_self)]
    by_cases hnil : x = []
    · rw [hnil, List.nil_append]
    · exact ih hnil (fun d hd ↦ hx d (List.mem_cons_of_mem _ hd)) false t

theorem solid_joinWith {separator : Text}
    (hseparator : ∀ {x y}, Solid x → Solid y → Solid (x ++ separator ++ y)) {ts : List Text}
    (hne : ts ≠ []) (hts : ∀ t ∈ ts, Solid t) : Solid (joinWith separator ts) := by
  induction ts with
  | nil => exact absurd rfl hne
  | cons t ts ih =>
    have ht := hts t List.mem_cons_self
    cases ts with
    | nil => rwa [joinWith, List.intercalate_singleton]
    | cons u ts =>
      rw [joinWith, List.intercalate_cons_cons]
      exact hseparator ht (ih (by simp) fun v hv ↦ hts v (List.mem_cons_of_mem _ hv))

theorem separated_append_of_single {body : Text} (hbody : ¬ [' ', ' '] <:+: body) {c : Char}
    (hc : c ≠ ' ') {fresh : Bool} (hfresh : fresh = true → body.head? ≠ some ' ') (t : Text) :
    separated (· == ' ') fresh (body ++ c :: t) = separated (· == ' ') false t := by
  induction body generalizing fresh with
  | nil => exact separated_cons_of_ne hc fresh t
  | cons d body ih =>
    have hrest : ¬ [' ', ' '] <:+: body :=
      fun h ↦ hbody (h.trans (List.suffix_cons d body).isInfix)
    by_cases hd : d = ' '
    · -- Another space cannot follow.
      subst hd
      have hflag : fresh = false := Bool.eq_false_iff.mpr fun h ↦ hfresh h rfl
      rw [List.cons_append, separated, if_pos (by decide), hflag, ih hrest]
      · rfl
      · rintro - hhead
        obtain ⟨body, rfl⟩ := List.head?_eq_some_iff.mp hhead
        exact hbody ⟨[], body, rfl⟩
    · rw [List.cons_append, separated_cons_of_ne hd]
      exact ih hrest (by simp)

/-- Between delimiters, single spaces may stand anywhere. -/
theorem solid_of_single {o c : Char} (ho : o ≠ ' ') (hc : c ≠ ' ') {body : Text}
    (hbody : ¬ [' ', ' '] <:+: body) : Solid (o :: body ++ [c]) := by
  intro fresh t
  rw [List.append_assoc, List.singleton_append, List.cons_append, separated_cons_of_ne ho]
  exact separated_append_of_single hbody hc (by simp) t

theorem Solid.enclose {o c : Char} (ho : o ≠ ' ') (hc : c ≠ ' ') {x : Text} (hx : Solid x) :
    Solid (o :: x ++ [c]) := by
  intro fresh t
  rw [List.append_assoc, List.cons_append, separated_cons_of_ne ho, hx, List.singleton_append,
    separated_cons_of_ne hc]

/-! ## Normal spacing

The empty text has normal spacing, and it is the only text of which this is not told by its pieces:
it has one, and that is empty. It is an exception that all lemmas about phrases have to make. -/

theorem mem_of_mem_normalizeSpace {t : Text} {c : Char} (h : c ∈ normalizeSpace t) :
    c = ' ' ∨ c ∈ t := by
  rcases mem_of_mem_intercalate h with h | ⟨w, hw, hc⟩
  · exact Or.inl (List.mem_singleton.mp h)
  · exact Or.inr (mem_of_mem_splitOnP (List.mem_filter.mp hw).1 hc)

/-- A text with single spaces between its words and no other blanks. -/
def Spaced (t : Text) : Prop :=
  (∀ c ∈ t, isBlank c = true → c = ' ') ∧ (t = [] ∨ separated (· == ' ') true t = true)

theorem Solid.spaced {x : Text} (hx : Solid x) (hblank : ∀ c ∈ x, isBlank c = true → c = ' ') :
    Spaced x := by
  have h := hx true []
  rw [List.append_nil] at h
  exact ⟨hblank, Or.inr h⟩

theorem Spaced.not_infix {t : Text} (ht : Spaced t) : ¬ [' ', ' '] <:+: t := by
  rcases ht.2 with rfl | hseparated
  · exact fun hdouble ↦ absurd (List.infix_nil.mp hdouble) (by simp)
  · exact not_infix_of_separated hseparated

theorem spaced_normalizeSpace (t : Text) : Spaced (normalizeSpace t) := by
  have hword : ∀ w ∈ words t, ∀ c ∈ w, isBlank c = false := by
    intro w hw c hc
    exact eq_false_of_mem_of_mem_splitOnP (List.mem_filter.mp hw).1 hc
  refine ⟨fun c hc hblank ↦ ?_, ?_⟩
  · rcases mem_of_mem_intercalate hc with hc | ⟨w, hw, hc⟩
    · exact List.mem_singleton.mp hc
    · rw [hword w hw c hc] at hblank
      exact absurd hblank (by decide)
  · by_cases hwords : words t = []
    · left
      rw [normalizeSpace, hwords, joinWith_nil]
    · right
      have hspace : ∀ w ∈ words t, ' ' ∉ w := by
        intro w hw hmem
        exact absurd (hword w hw ' ' hmem) (by decide)
      rw [separated_true_iff, ← List.splitOn_eq_splitOnP, normalizeSpace, joinWith,
        List.splitOn_intercalate ' ' hspace hwords]
      exact fun hmem ↦ ne_nil_of_mem_words hmem rfl

private theorem sum_length_splitOnP {α : Type} (p : α → Bool) (s : List α) :
    ((s.splitOnP p).map (·.length + 1)).sum = s.length + 1 := by
  induction s with
  | nil => rfl
  | cons a s ih =>
    rw [List.splitOnP_cons_eq_if_modifyHead]
    split
    · rw [List.map_cons, List.sum_cons, ih, List.length_nil, List.length_cons, Nat.zero_add,
        Nat.add_comm]
    · obtain ⟨v, vs, hs⟩ := List.exists_cons_of_ne_nil (List.splitOnP_ne_nil p s)
      rw [hs] at ih ⊢
      simp only [List.modifyHead_cons, List.map_cons, List.sum_cons, List.length_cons] at ih ⊢
      omega

private theorem length_joinWith_le (c : Char) (ts : List Text) :
    (joinWith [c] ts).length ≤ (ts.map (·.length + 1)).sum - 1 := by
  induction ts with
  | nil => exact Nat.le_refl 0
  | cons t ts ih =>
    cases ts with
    | nil => simp [joinWith]
    | cons u ts =>
      rw [joinWith, List.intercalate_cons_cons, List.length_append, List.length_append, ← joinWith]
      simp only [List.map_cons, List.sum_cons, List.length_singleton] at ih ⊢
      omega

theorem length_normalizeSpace_le (t : Text) : (normalizeSpace t).length ≤ t.length := by
  have hwords : ((words t).map (·.length + 1)).sum
      ≤ ((t.splitOnP isBlank).map (·.length + 1)).sum := by
    rw [words]
    generalize t.splitOnP isBlank = us
    induction us with
    | nil => exact Nat.le_refl 0
    | cons u us ih =>
      rw [List.filter_cons]
      split
      · simpa using ih
      · rw [List.map_cons, List.sum_cons]
        omega
  have hjoin := length_joinWith_le ' ' (words t)
  rw [sum_length_splitOnP] at hwords
  rw [normalizeSpace]
  omega

theorem normalizeSpace_of_spaced {t : Text} (ht : Spaced t) : normalizeSpace t = t := by
  have hsplit : t.splitOnP isBlank = pieces t := by
    rw [pieces, List.splitOn_eq_splitOnP]
    refine splitOnP_congr fun c hc ↦ ?_
    by_cases hspace : c = ' '
    · rw [hspace]
      decide
    · rw [Bool.eq_iff_iff, beq_iff_eq]
      exact ⟨ht.1 c hc, fun h ↦ absurd h hspace⟩
  rw [normalizeSpace, words, hsplit]
  rcases ht.2 with rfl | hpieces
  · rfl
  · rw [separated_true_iff, ← List.splitOn_eq_splitOnP] at hpieces
    rw [List.filter_eq_self.mpr, joinWith_pieces]
    intro u hu
    cases u with
    | nil => exact absurd hu hpieces
    | cons c u => rfl

/-! ## Words behind spaces

A list of words with a space before each of them is easier to go through than one with spaces in
between, since all words are treated alike. The two differ by the first space only. -/

/-- Each word with a space before it. -/
def padded (ws : List Text) : Text := ws.flatMap (' ' :: ·)

theorem joinWith_cons (w : Text) (ws : List Text) :
    joinWith [' '] (w :: ws) = w ++ padded ws := by
  induction ws generalizing w with
  | nil =>
    rw [joinWith, List.intercalate_singleton]
    exact (List.append_nil w).symm
  | cons v ws ih =>
    rw [joinWith, List.intercalate_cons_cons, ← joinWith, ih, padded, padded, List.flatMap_cons,
      List.append_assoc]
    rfl

theorem padded_append_cons (us : List Text) (v : Text) (vs : List Text) :
    padded (us ++ v :: vs) = padded us ++ ' ' :: (v ++ padded vs) := by
  rw [padded, List.flatMap_append, List.flatMap_cons]
  rfl

/-- The words of a text with normal spacing, each with a space before it, are the text with a space
before it. -/
theorem padded_words {t : Text} (ht : Spaced t) (hne : t ≠ []) : padded (words t) = ' ' :: t := by
  have hjoin := normalizeSpace_of_spaced ht
  rw [normalizeSpace] at hjoin
  rcases hwords : words t with _ | ⟨w, ws⟩
  · rw [hwords] at hjoin
    exact absurd hjoin.symm hne
  · rw [hwords, joinWith_cons] at hjoin
    rw [padded, List.flatMap_cons, ← padded, List.cons_append, hjoin]

theorem separated_append_space (fresh : Bool) (x : Text) :
    separated (· == ' ') fresh (x ++ [' ']) = false := by
  induction x generalizing fresh with
  | nil => simp [separated]
  | cons c x ih =>
    rw [List.cons_append, separated]
    split
    · rw [ih, Bool.and_false]
    · exact ih false

theorem Spaced.isBlank_of_head? {t : Text} (ht : Spaced t) {c : Char} (h : t.head? = some c) :
    isBlank c = false := by
  obtain ⟨t, rfl⟩ := List.head?_eq_some_iff.mp h
  refine Bool.eq_false_iff.mpr fun hblank ↦ ?_
  have hseparated := ht.2.resolve_left (List.cons_ne_nil c t)
  rw [ht.1 c List.mem_cons_self hblank] at hseparated
  exact absurd hseparated (by simp [separated])

theorem Spaced.isBlank_of_getLast? {t : Text} (ht : Spaced t) {c : Char}
    (h : t.getLast? = some c) : isBlank c = false := by
  obtain ⟨s, rfl⟩ := List.getLast?_eq_some_iff.mp h
  refine Bool.eq_false_iff.mpr fun hblank ↦ ?_
  have hseparated := ht.2.resolve_left (List.concat_ne_nil c s)
  rw [ht.1 c List.mem_concat_self hblank, separated_append_space] at hseparated
  exact absurd hseparated (by decide)

theorem words_append_ends {a u b : Text} (ha : a = [] ∨ a = [' ']) (hb : b = [] ∨ b = [' ']) :
    words (a ++ u ++ b) = words u := by
  have hfront : words (a ++ u) = words u := by
    rcases ha with rfl | rfl
    · rfl
    · exact words_append_cons (by decide) [] u
  rcases hb with rfl | rfl
  · rw [List.append_nil, hfront]
  · rw [words_append_cons (by decide), hfront]
    exact List.append_nil _

private theorem spaced_of_single {x : Text} {c : Char}
    (hblank : ∀ d ∈ x ++ [c], isBlank d = true → d = ' ')
    (hdouble : ¬ [' ', ' '] <:+: x ++ [c]) (hc : c ≠ ' ') (hhead : (x ++ [c]).head? ≠ some ' ') :
    Spaced (x ++ [c]) := by
  refine ⟨hblank, Or.inr ?_⟩
  rw [separated_append_of_single (fun h ↦ hdouble (h.trans (List.prefix_append x [c]).isInfix)) hc]
  · rfl
  · rintro - hx
    obtain ⟨x, rfl⟩ := List.head?_eq_some_iff.mp hx
    exact hhead rfl

/-- A text with single spaces has normal spacing, but for a space at each end. -/
theorem exists_spaced_of_single {t : Text} (hblank : ∀ c ∈ t, isBlank c = true → c = ' ')
    (hdouble : ¬ [' ', ' '] <:+: t) : ∃ a u b, t = a ++ u ++ b ∧ (a = [] ∨ a = [' ']) ∧
      (b = [] ∨ b = [' ']) ∧ Spaced u := by
  obtain ⟨a, v, rfl, ha, hv⟩ : ∃ a v, t = a ++ v ∧ (a = [] ∨ a = [' ']) ∧ v.head? ≠ some ' ' := by
    rcases t with _ | ⟨c, t⟩
    · exact ⟨[], [], rfl, Or.inl rfl, by simp⟩
    · by_cases hc : c = ' '
      · refine ⟨[' '], t, by rw [hc]; rfl, Or.inr rfl, fun hhead ↦ ?_⟩
        obtain ⟨t, rfl⟩ := List.head?_eq_some_iff.mp hhead
        exact hdouble ⟨[], t, by rw [hc]; rfl⟩
      · exact ⟨[], c :: t, rfl, Or.inl rfl, by simpa using hc⟩
  have hsuffix : v <:+: a ++ v := (List.suffix_append a v).isInfix
  rcases List.eq_nil_or_concat v with rfl | ⟨w, c, rfl⟩
  · exact ⟨a, [], [], by simp, ha, Or.inl rfl, by simp, Or.inl rfl⟩
  · rw [List.concat_eq_append] at hv hsuffix hdouble hblank ⊢
    by_cases hc : c = ' '
    · -- The character before the space at the end is no space.
      rcases List.eq_nil_or_concat w with rfl | ⟨x, d, rfl⟩
      · exact absurd (by rw [hc]; rfl) hv
      · rw [List.concat_eq_append] at hv hsuffix hdouble hblank ⊢
        have hd : d ≠ ' ' := by
          rintro rfl
          exact hdouble (List.IsInfix.trans ⟨x, [], by rw [hc]; simp⟩ hsuffix)
        have hx : x ++ [d] <:+: x ++ [d] ++ [c] := (List.prefix_append _ _).isInfix
        refine ⟨a, x ++ [d], [c], by simp, ha, Or.inr (by rw [hc]), spaced_of_single ?_ ?_ hd ?_⟩
        · exact fun e he ↦ hblank e (hsuffix.subset (hx.subset he))
        · exact fun h ↦ hdouble ((h.trans hx).trans hsuffix)
        · rcases x with _ | ⟨e, x⟩ <;> exact hv
    · refine ⟨a, w ++ [c], [], by simp, ha, Or.inl rfl, spaced_of_single ?_ ?_ hc hv⟩
      · exact fun e he ↦ hblank e (hsuffix.subset he)
      · exact fun h ↦ hdouble (h.trans hsuffix)

end PhraseRepair.Text
