import PhraseRepair.Text.Basic
import PhraseRepair.Unicode.DefaultIgnorable
import PhraseRepair.Unicode.GraphemeExtend
import PhraseRepair.Unicode.Printable

/-!
# Character literals

A character in a message is shown between single quotes. What cannot be read there is escaped: the
quote and the backslash, the common control characters by their letters, and every other character
that has no shape of its own (`hasOwnShape`) by its code point.
-/

namespace PhraseRepair.Text

/-- The two halfwidth sound marks of katakana. They extend the letter before them, yet each is a
letter that takes a cell of its own. -/
def isHalfwidthSoundMark (c : Char) : Bool := c = '\uff9e' || c = '\uff9f'

/-- Whether a character can be told from others when it stands between quotes: it is printable, is
not ignored when it is shown, and is not drawn on the quote before it. -/
def hasOwnShape (c : Char) : Bool :=
  Unicode.isPrintable c && !Unicode.isDefaultIgnorable c
    && (!Unicode.isGraphemeExtend c || isHalfwidthSoundMark c)

/-- A character as it is shown between single quotes. -/
def escapeChar (c : Char) : Text :=
  if c = '\x00' then "\\0".toList
  else if c = '\t' then "\\t".toList
  else if c = '\x0d' then "\\r".toList
  else if c = '\n' then "\\n".toList
  else if c = '\'' then "\\'".toList
  else if c = '\\' then "\\\\".toList
  else if hasOwnShape c then [c]
  else "\\u\x7b".toList ++ Nat.toDigits 16 c.toNat ++ "\x7d".toList

/-- The literal of a character, quotes included. -/
def charLiteral (c : Char) : Text := '\'' :: escapeChar c ++ ['\'']

end PhraseRepair.Text
