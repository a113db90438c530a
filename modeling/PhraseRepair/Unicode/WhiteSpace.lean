import PhraseRepair.Unicode.CodeRange

/-!
# White space

The code points with the Unicode property `White_Space`. The table follows version 17.0 of the
standard.
-/

namespace PhraseRepair.Unicode

/-- The code points with the property `White_Space`, in increasing order. -/
def whiteSpaceRanges : List CodeRange :=
  [(0x0009, 0x000D), (0x0020, 0x0020), (0x0085, 0x0085), (0x00A0, 0x00A0), (0x1680, 0x1680),
   (0x2000, 0x200A), (0x2028, 0x2029), (0x202F, 0x202F), (0x205F, 0x205F), (0x3000, 0x3000)]

/-- Whether a character has the property `White_Space`. -/
def isWhiteSpace (c : Char) : Bool := inRanges whiteSpaceRanges c

/-- Every blank of ASCII is white space. -/
theorem isWhiteSpace_of_isWhitespace {c : Char} (h : c.isWhitespace = true) :
    isWhiteSpace c = true := by
  simp only [Char.isWhitespace, Bool.or_eq_true, decide_eq_true_eq] at h
  rcases h with ((rfl | rfl) | rfl) | rfl <;> decide

end PhraseRepair.Unicode
