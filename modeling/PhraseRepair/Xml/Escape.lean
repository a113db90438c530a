import PhraseRepair.Text.Basic

/-!
# Escaping text for XML

The five characters that have a meaning in markup are written as references. An ampersand that
already starts something of the form of a reference is kept, so that text which was escaped before
is not escaped again. Only the form counts: the reference reaches to the first semicolon behind the
ampersand, and whether it names anything is not looked at.
-/

namespace PhraseRepair.Xml

/-- The characters that escaping has to look at. -/
def isMarkup (c : Char) : Bool := c = '&' || c = '<' || c = '>' || c = '"' || c = '\''

/-- A hexadecimal digit in either case. -/
def isHexDigit (c : Char) : Bool :=
  c.isDigit || ('a' ≤ c && c ≤ 'f') || ('A' ≤ c && c ≤ 'F')

/-- Whether a text has the form of what stands between the ampersand and the semicolon of a
reference: a hexadecimal or decimal number, or a name of ASCII letters and digits. -/
def isReferenceBody : Text → Bool
  | '#' :: 'x' :: digits => !digits.isEmpty && digits.all isHexDigit
  | '#' :: 'X' :: digits => !digits.isEmpty && digits.all isHexDigit
  | '#' :: digits => !digits.isEmpty && digits.all Char.isDigit
  | name => !name.isEmpty && name.all Char.isAlphanum

/-- Whether the text behind an ampersand completes a reference. -/
def completesReference (t : Text) : Bool :=
  t.contains ';' && isReferenceBody (t.takeWhile (· ≠ ';'))

/-- What is written for a character that the text `rest` follows. -/
def escapeChar (c : Char) (rest : Text) : Text :=
  if c = '&' then if completesReference rest then ['&'] else "&amp;".toList
  else if c = '<' then "&lt;".toList
  else if c = '>' then "&gt;".toList
  else if c = '"' then "&quot;".toList
  else if c = '\'' then "&#039;".toList
  else [c]

/-- The text as it is written in an element or in an attribute value. -/
def escape : Text → Text
  | [] => []
  | c :: t => escapeChar c t ++ escape t

/-- Whether escaping has nothing to look at in a text. -/
def isPlain (t : Text) : Bool := !t.any isMarkup

/-- Text without markup characters is written as it is, whatever follows it. -/
theorem escape_append_of_isPlain {s : Text} (h : isPlain s = true) (t : Text) :
    escape (s ++ t) = s ++ escape t := by
  induction s with
  | nil => rfl
  | cons c s ih =>
    simp only [isPlain, isMarkup, List.any_cons, Bool.not_eq_true', Bool.or_eq_false_iff,
      decide_eq_false_iff_not] at h ih
    simp [escape, escapeChar, h, ih h.2]

theorem escape_of_isPlain {t : Text} (h : isPlain t = true) : escape t = t := by
  simpa [escape] using escape_append_of_isPlain h []

end PhraseRepair.Xml
