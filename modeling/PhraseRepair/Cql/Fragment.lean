import PhraseRepair.Text.Enclosed

/-!
# Quoted runs and groups

The two kinds of fragment that a phrase may hold: a run between two double quotes, and a pair of
parentheses with no parenthesis between them, which is the innermost level of a nested group.
-/

namespace PhraseRepair.Cql

open Text

/-- Recognises a run from one double quote to the next. Its value is the run with its quotes. -/
def quotedRun : Recognizer where
  read t := (enclosed? '"' '"' (· ≠ '"') t).map fun body ↦
    ⟨enclose '"' '"' body, enclose '"' '"' body⟩
  ne_nil {t m} h := by
    obtain ⟨body, -, rfl⟩ := Option.map_eq_some_iff.mp h
    exact enclose_ne_nil _ _ _
  isPrefix {t m} h := by
    obtain ⟨body, hbody, rfl⟩ := Option.map_eq_some_iff.mp h
    exact enclose_isPrefix hbody

/-- Recognises a pair of parentheses with none between them. Its value is what they enclose. -/
def innermostGroup : Recognizer where
  read t := (enclosed? '(' ')' (fun c ↦ c ≠ '(' && c ≠ ')') t).map fun body ↦
    ⟨enclose '(' ')' body, body⟩
  ne_nil {t m} h := by
    obtain ⟨body, -, rfl⟩ := Option.map_eq_some_iff.mp h
    exact enclose_ne_nil _ _ _
  isPrefix {t m} h := by
    obtain ⟨body, hbody, rfl⟩ := Option.map_eq_some_iff.mp h
    exact enclose_isPrefix hbody

end PhraseRepair.Cql
