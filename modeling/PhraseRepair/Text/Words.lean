import PhraseRepair.Text.Basic

/-!
# Words

Blanks are the five ASCII ones: space, tab, line feed, form feed and carriage return. The vertical
tab and the wider blanks of Unicode are ordinary characters here, as search engines treat them.
`words` cuts a text at its blanks, `normalizeSpace` writes the words back with single spaces
between them, and `pieces` cuts at spaces alone and keeps the empty pieces.
-/

namespace PhraseRepair

namespace Text

/-- Space, tab, line feed, form feed or carriage return. -/
def isBlank (c : Char) : Bool :=
  c = ' ' || c = '\t' || c = '\n' || c = '\x0c' || c = '\x0d'

/-- The text without the blanks at its two ends. -/
def trim (t : Text) : Text :=
  ((t.dropWhile isBlank).reverse.dropWhile isBlank).reverse

/-- The maximal runs of characters that are not blanks. -/
def words (t : Text) : List Text :=
  (t.splitOnP isBlank).filter (! ·.isEmpty)

/-- The texts of a list with `separator` between neighbours. -/
def joinWith (separator : Text) (ts : List Text) : Text := separator.intercalate ts

/-- The words of a text with one space between neighbours. -/
def normalizeSpace (t : Text) : Text := joinWith [' '] (words t)

/-- What lies between the spaces of a text, empty pieces included. -/
def pieces (t : Text) : List Text := t.splitOn ' '

/-- Joining the pieces of a text with spaces gives the text back. -/
theorem joinWith_pieces (t : Text) : joinWith [' '] (pieces t) = t :=
  List.intercalate_splitOn ' '

theorem ne_nil_of_mem_words {t w : Text} (h : w ∈ words t) : w ≠ [] := by
  simpa using (List.mem_filter.mp h).2

/-- A blank separates the words before it from the words behind it. -/
theorem words_append_cons {c : Char} (hc : isBlank c = true) (s t : Text) :
    words (s ++ c :: t) = words s ++ words t := by
  rw [words, List.splitOnP_append_cons s t hc, List.filter_append]
  rfl

end Text

end PhraseRepair
