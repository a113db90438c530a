import PhraseRepair.Text.Scan

/-!
# Operators

The operators that hold a CQL query together: the boolean and relation keywords between two spaces,
in any mixture of upper and lower case, the equals sign and the parentheses. A keyword without its
spaces is an ordinary word, so two keywords can compete for the one space between them; the scan
gives it to the first.
-/

namespace PhraseRepair.Cql

/-- The operators in lower case. No two of them can start at the same place of a text. -/
def operators : List Text :=
  [" and ".toList, " any ".toList, " all ".toList, " adj ".toList, " or ".toList, " not ".toList,
   ['='], ['('], [')']]

/-- The head of a text that spells `word`, given in lower case, up to the case of ASCII letters. -/
def spelling? (word t : Text) : Option Text :=
  let head := t.take word.length
  if head.map Char.toLower = word then some head else none

theorem spelling?_eq_some {word t head : Text} :
    spelling? word t = some head ↔ head = t.take word.length ∧ head.map Char.toLower = word := by
  simp only [spelling?, Option.ite_none_right_eq_some, Option.some.injEq]
  constructor
  · rintro ⟨h, rfl⟩
    exact ⟨rfl, h⟩
  · rintro ⟨rfl, h⟩
    exact ⟨h, rfl⟩

/-- The operator at the head of a text, as it is written there. -/
def operator? (t : Text) : Option Text := operators.findSome? (spelling? · t)

theorem operator?_eq_some {t head : Text} (h : operator? t = some head) :
    ∃ word ∈ operators, head = t.take word.length ∧ head.map Char.toLower = word := by
  obtain ⟨word, hword, h⟩ := List.exists_of_findSome?_eq_some h
  exact ⟨word, hword, spelling?_eq_some.mp h⟩

private theorem length_pos_of_mem_operators : ∀ word ∈ operators, 0 < word.length := by decide

/-- Recognises an operator. -/
def operator : Recognizer where
  read t := (operator? t).map fun head ↦ ⟨head, head⟩
  ne_nil {t m} h := by
    obtain ⟨head, hhead, rfl⟩ := Option.map_eq_some_iff.mp h
    obtain ⟨word, hword, -, hlower⟩ := operator?_eq_some hhead
    have hpos := length_pos_of_mem_operators word hword
    rintro rfl
    simp [← hlower] at hpos
  isPrefix {t m} h := by
    obtain ⟨head, hhead, rfl⟩ := Option.map_eq_some_iff.mp h
    obtain ⟨word, -, rfl, -⟩ := operator?_eq_some hhead
    exact List.take_prefix _ _

/-- Whether an operator occurs in a text. -/
def containsOperator (t : Text) : Bool := operator.matchesIn t

end PhraseRepair.Cql
