/-!
# Ranges of code points

A property of characters is given as a list of inclusive ranges of code points. Membership is a
plain search through the list, so that it can be evaluated inside a proof as well as run.
-/

namespace PhraseRepair.Unicode

/-- An inclusive range of code points: its first and its last one. -/
abbrev CodeRange := Nat × Nat

/-- Whether the code point of a character lies in one of the ranges. -/
def inRanges (ranges : List CodeRange) (c : Char) : Bool :=
  ranges.any fun r ↦ decide (r.1 ≤ c.toNat) && decide (c.toNat ≤ r.2)

theorem inRanges_iff {ranges : List CodeRange} {c : Char} :
    inRanges ranges c = true ↔ ∃ r ∈ ranges, r.1 ≤ c.toNat ∧ c.toNat ≤ r.2 := by
  simp [inRanges]

/-! ## The ASCII classes as ranges -/

private theorem val_between_iff (lo hi : UInt32) (c : Char) :
    lo ≤ c.val ∧ c.val ≤ hi ↔ lo.toNat ≤ c.toNat ∧ c.toNat ≤ hi.toNat := by
  rw [UInt32.le_iff_toNat_le, UInt32.le_iff_toNat_le]
  exact Iff.rfl

theorem isDigit_iff {c : Char} : c.isDigit = true ↔ 0x30 ≤ c.toNat ∧ c.toNat ≤ 0x39 := by
  change (decide (0x30 ≤ c.val) && decide (c.val ≤ 0x39)) = true ↔ _
  rw [Bool.and_eq_true, decide_eq_true_iff, decide_eq_true_iff]
  exact val_between_iff 0x30 0x39 c

theorem isAlpha_iff {c : Char} :
    c.isAlpha = true ↔ (0x41 ≤ c.toNat ∧ c.toNat ≤ 0x5A) ∨ (0x61 ≤ c.toNat ∧ c.toNat ≤ 0x7A) := by
  change (decide (0x41 ≤ c.val ∧ c.val ≤ 0x5A) || (decide (0x61 ≤ c.val) && decide (c.val ≤ 0x7A)))
    = true ↔ _
  rw [Bool.or_eq_true, Bool.and_eq_true, decide_eq_true_iff, decide_eq_true_iff,
    decide_eq_true_iff]
  exact or_congr (val_between_iff 0x41 0x5A c) (val_between_iff 0x61 0x7A c)

end PhraseRepair.Unicode
