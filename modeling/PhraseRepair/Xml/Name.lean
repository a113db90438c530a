import PhraseRepair.Text.Basic
import PhraseRepair.Unicode.Alphabetic
import PhraseRepair.Unicode.Numeric

/-!
# Element names

The names that elements and namespace prefixes may have: a letter or underscore, followed by
letters, numbers, underscores, hyphens, full stops and colons, where letters and numbers are those
of the whole of Unicode.
-/

namespace PhraseRepair.Xml

/-- Whether a name may start with the character. -/
def isNameStart (c : Char) : Bool := Unicode.isAlphabetic c || c = '_'

/-- Whether a name may go on with the character. -/
def isNamePart (c : Char) : Bool :=
  Unicode.isAlphabetic c || Unicode.isNumeric c || c = '_' || c = '-' || c = '.' || c = ':'

/-- Whether a text is a name. -/
def isName : Text → Bool
  | [] => false
  | c :: t => isNameStart c && t.all isNamePart

theorem ne_nil_of_isName {t : Text} (h : isName t = true) : t ≠ [] := by
  rintro rfl
  simp [isName] at h

end PhraseRepair.Xml
