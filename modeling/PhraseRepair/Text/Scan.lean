import PhraseRepair.Text.Basic

/-!
# Scanning a text for matches

A recogniser looks at the head of a text and says which of its first characters belong to a match.
Scanning tries it at every position from left to right: a match is taken whole and scanning goes on
behind it, and where nothing matches a single character is passed over. So matches never overlap,
and the earliest one wins.

## Items

The result is a list of *items*, plain characters and matches, that together spell the text
(`flatMap_text_scan`). Everything else is a view of that list: the matches with their byte offsets
(`spans`), the text between them (`segments`), or the text with something else in place of each
match (`substitute`).

## The shape of the recursion

The number of characters of a match still to be passed over is carried along as a counter, which
makes scanning a structural recursion on the text. The counter is not needed to reason about a scan:
`scan_of_read` and `scan_of_read_none` say what it does at a match and elsewhere, and
`flatMap_text_scan` shows the induction on the length of the text that goes with them.
-/

namespace PhraseRepair

/-- A match at some place of a text. -/
structure Match where
  /-- The matched characters. -/
  text : Text
  /-- The part of them that carries the meaning. -/
  value : Text
  deriving DecidableEq, Repr

/-- A way to read one match at the head of a text. A match is never empty. -/
structure Recognizer where
  /-- The match at the head of a text, if there is one. -/
  read : Text → Option Match
  /-- A match has at least one character. -/
  ne_nil : ∀ {t m}, read t = some m → m.text ≠ []
  /-- A match is found where the text starts with it. -/
  isPrefix : ∀ {t m}, read t = some m → m.text <+: t

/-- One step of a scan: a character that belongs to no match, or a match. -/
inductive Item
  | plain (c : Char)
  | hit (m : Match)
  deriving DecidableEq, Repr

namespace Item

/-- The characters that an item covers. -/
def text : Item → Text
  | plain c => [c]
  | hit m => m.text

/-- Whether an item is a match. -/
def isHit : Item → Bool
  | plain _ => false
  | hit _ => true

end Item

/-- A match with its place in the scanned text. -/
structure Span where
  /-- The byte offset at which the match starts. -/
  start : Nat
  /-- The byte offset behind its last character. -/
  stop : Nat
  /-- The match. -/
  found : Match
  deriving DecidableEq, Repr

namespace Recognizer

variable (r : Recognizer)

/-! ## The scan -/

/-- Scanning after `n` further characters, which belong to the match before them. -/
def scanAfter : Nat → Text → List Item
  | _, [] => []
  | n + 1, _ :: t => scanAfter n t
  | 0, c :: t => match r.read (c :: t) with
    | none => .plain c :: scanAfter 0 t
    | some m => .hit m :: scanAfter (m.text.length - 1) t

/-- The items of a text from left to right. -/
def scan (t : Text) : List Item := r.scanAfter 0 t

theorem scanAfter_eq (n : Nat) (t : Text) : r.scanAfter n t = r.scan (t.drop n) := by
  induction t generalizing n with
  | nil => cases n <;> simp [scan, scanAfter]
  | cons c t ih =>
    cases n with
    | zero => rfl
    | succ n => rw [scanAfter, ih, List.drop_succ_cons]

@[simp] theorem scan_nil : r.scan [] = [] := rfl

/-- Where nothing matches, one character is passed over. -/
theorem scan_of_read_none {c : Char} {t : Text} (h : r.read (c :: t) = none) :
    r.scan (c :: t) = .plain c :: r.scan t := by
  simp [scan, scanAfter, h]

/-- A match is taken whole, and scanning goes on behind it. -/
theorem scan_of_read {t : Text} {m : Match} (h : r.read t = some m) :
    r.scan t = .hit m :: r.scan (t.drop m.text.length) := by
  cases t with
  | nil => exact absurd (List.prefix_nil.mp (r.isPrefix h)) (r.ne_nil h)
  | cons c t =>
    obtain ⟨n, hn⟩ : ∃ n, m.text.length = n + 1 :=
      Nat.exists_eq_succ_of_ne_zero (mt List.length_eq_zero_iff.mp (r.ne_nil h))
    rw [scan, scanAfter, h]
    simp [scanAfter_eq, hn]

/-- The items of a text spell the text. -/
theorem flatMap_text_scan (t : Text) : (r.scan t).flatMap Item.text = t := by
  suffices h : ∀ n, ∀ t : Text, t.length ≤ n → (r.scan t).flatMap Item.text = t from
    h t.length t (Nat.le_refl _)
  intro n
  induction n with
  | zero =>
    intro t ht
    rw [List.length_eq_zero_iff.mp (Nat.le_zero.mp ht)]
    rfl
  | succ n ih =>
    intro t ht
    cases t with
    | nil => rfl
    | cons c t =>
      cases h : r.read (c :: t) with
      | none =>
        rw [scan_of_read_none r h, List.flatMap_cons, ih t (by simpa using ht)]
        rfl
      | some m =>
        obtain ⟨rest, hrest⟩ := r.isPrefix h
        have hpos := List.length_pos_iff.mpr (r.ne_nil h)
        have hlen := congrArg List.length hrest
        rw [scan_of_read r h, List.flatMap_cons, ← hrest, List.drop_left, ih rest]
        · rfl
        · simp only [List.length_append, List.length_cons] at hlen ht
          omega

/-! ## Views of a scan -/

/-- Whether a text holds a match. -/
def matchesIn (t : Text) : Bool := (r.scan t).any Item.isHit

/-- The text with `f m` in place of each match `m`. -/
def substitute (f : Match → Text) (t : Text) : Text :=
  (r.scan t).flatMap fun
    | .plain c => [c]
    | .hit m => f m

/-- The spans of the matches among items that start at byte `offset`. -/
def spansFrom (offset : Nat) : List Item → List Span
  | [] => []
  | .plain c :: items => spansFrom (offset + c.utf8Size) items
  | .hit m :: items =>
    let stop := offset + Text.utf8Size m.text
    ⟨offset, stop, m⟩ :: spansFrom stop items

/-- The matches of a text with their byte offsets. -/
def spans (t : Text) : List Span := spansFrom 0 (r.scan t)

/-- The texts between the matches among items, one more than there are matches. -/
def between : List Item → List Text
  | [] => [[]]
  | .plain c :: items => (between items).modifyHead (c :: ·)
  | .hit _ :: items => [] :: between items

/-- The texts before, between and behind the matches of a text. -/
def segments (t : Text) : List Text := between (r.scan t)

theorem length_between (items : List Item) :
    (between items).length = items.countP Item.isHit + 1 := by
  induction items with
  | nil => rfl
  | cons item items ih => cases item <;> simp [between, Item.isHit, List.countP_cons, ih]

end Recognizer

end PhraseRepair
