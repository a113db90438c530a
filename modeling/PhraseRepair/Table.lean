import PhraseRepair.Text.Replace

/-!
# Substitution tables

A table lists keys and the texts that stand for them, in the order in which they were added. The
order matters: `apply` goes through the table once from front to back, so a key that a later
replacement brings in stays, and `firstMatch?` names the earliest entry whose key is left.
-/

namespace PhraseRepair

/-- A key and the text that it stands for. -/
structure Entry where
  /-- The text to look for. -/
  key : Text
  /-- The text to put in its place. -/
  replacement : Text
  deriving DecidableEq, Repr

/-- The text with the replacement in place of every occurrence of the key. -/
def Entry.apply (e : Entry) (t : Text) : Text := Text.replaceAll e.key e.replacement t

/-- A list of substitutions. -/
structure Table where
  /-- The entries in the order in which they were added. -/
  entries : List Entry := []
  deriving DecidableEq, Repr

namespace Table

/-- The table with one more entry at its end. -/
def push (table : Table) (e : Entry) : Table := ⟨table.entries ++ [e]⟩

/-- The number of entries. -/
def size (table : Table) : Nat := table.entries.length

/-- The text after each entry has been applied once, from the first to the last. -/
def apply (table : Table) (t : Text) : Text := table.entries.foldl (fun t e ↦ e.apply t) t

/-- The earliest entry whose key occurs in the text. -/
def firstMatch? (table : Table) (t : Text) : Option Entry :=
  table.entries.find? fun e ↦ Text.occursIn e.key t

@[simp] theorem size_push (table : Table) (e : Entry) : (table.push e).size = table.size + 1 := by
  simp [size, push]

@[simp] theorem apply_push (table : Table) (e : Entry) (t : Text) :
    (table.push e).apply t = e.apply (table.apply t) := by
  simp [apply, push]

/-- Nothing matches exactly when no key of the table occurs in the text. -/
theorem firstMatch?_eq_none_iff {table : Table} {t : Text} :
    table.firstMatch? t = none ↔ ∀ e ∈ table.entries, ¬ e.key <:+: t := by
  simp [firstMatch?, Text.occursIn_iff]

end Table

end PhraseRepair
