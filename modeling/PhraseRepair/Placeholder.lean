import PhraseRepair.Text.Basic

/-!
# Placeholders

While a phrase is repaired, fragments that must not be touched are hidden behind placeholders: some
letters and a number between two sentinels, which are private-use characters that a normalized
phrase never holds. The closing sentinel ends the digits, so no placeholder is the beginning of a
longer one.

The numbers come from a supply that wraps around behind the largest 64-bit number.
-/

namespace PhraseRepair

namespace Placeholder

/-- The sentinel that opens a placeholder. -/
def opening : Char := '\ue000'

/-- The sentinel that closes a placeholder. -/
def closing : Char := '\ue001'

/-- Whether a character is one of the two sentinels. -/
def isSentinel (c : Char) : Bool := c = opening || c = closing

/-- Whether a text holds a sentinel. -/
def hasSentinel (t : Text) : Bool := t.any isSentinel

/-- The placeholder with the given letters and number. -/
def text (letters : Text) (number : UInt64) : Text :=
  opening :: letters ++ Nat.toDigits 10 number.toNat ++ [closing]

theorem hasSentinel_eq_false_iff {t : Text} :
    hasSentinel t = false ↔ ∀ c ∈ t, isSentinel c = false := by
  simp [hasSentinel]

theorem text_ne_nil (letters : Text) (number : UInt64) : text letters number ≠ [] := by
  simp [text]

end Placeholder

/-- The numbers still to be given out. -/
structure KeySupply where
  /-- The number that is given out next. -/
  next : UInt64 := 10
  deriving DecidableEq, Repr

namespace KeySupply

/-- The supply once `n` numbers have been given out. -/
def advance (s : KeySupply) (n : Nat) : KeySupply := ⟨s.next + UInt64.ofNat n⟩

/-- The next `n` numbers in the order in which they are given out. -/
def take (s : KeySupply) (n : Nat) : List UInt64 :=
  (List.range n).map fun i ↦ (s.advance i).next

@[simp] theorem advance_zero (s : KeySupply) : s.advance 0 = s := by
  simp [advance]

theorem advance_advance (s : KeySupply) (m n : Nat) :
    (s.advance m).advance n = s.advance (m + n) := by
  simp [advance, UInt64.ofNat_add, UInt64.add_assoc]

end KeySupply

end PhraseRepair
