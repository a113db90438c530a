import PhraseRepair.Table
import PhraseRepair.Text.Words

/-!
# Bringing hidden fragments back

A masked phrase is cut into tokens at its spaces. Each token has the table applied to it once, and
is then resolved: as long as some key of the table occurs in it, the earliest such entry is applied.
A replacement can bring in keys of other entries, so one round is not enough.

Resolving is bounded by a number of steps. Where the keys are placeholders and no entry leads back
to itself through its replacements, an entry is applied at most once for the token itself and once
for every time that another entry brings its key in, so a table of `n` entries needs fewer than
`2 ^ n` steps. Replacements that hold broken keys can piece new ones together without end, and then
no bound is safe; the one chosen leaves another `64` doublings for them, more than can be run.
-/

namespace PhraseRepair

namespace Table

/-- The token after at most `steps` times the earliest entry whose key is left has been applied. -/
def resolveIn (table : Table) : Nat → Text → Text
  | 0, token => token
  | steps + 1, token => match table.firstMatch? token with
    | none => token
    | some e => table.resolveIn steps (e.apply token)

/-- The entries that are applied on the way, in order. -/
def resolutionsIn (table : Table) : Nat → Text → List Entry
  | 0, _ => []
  | steps + 1, token => match table.firstMatch? token with
    | none => []
    | some e => e :: table.resolutionsIn steps (e.apply token)

/-- Applying the entries one after the other resolves the token. -/
theorem foldl_resolutionsIn (table : Table) (steps : Nat) (token : Text) :
    (table.resolutionsIn steps token).foldl (fun t e ↦ e.apply t) token
      = table.resolveIn steps token := by
  induction steps generalizing token with
  | zero => rfl
  | succ steps ih =>
    rw [resolutionsIn, resolveIn]
    cases table.firstMatch? token with
    | none => rfl
    | some e => exact ih (e.apply token)

/-- The number of steps after which resolving a token is given up. -/
def stepBound (table : Table) : Nat := Nat.pow 2 (table.size + 64)

/-- The token once its keys have been resolved. -/
def resolve (table : Table) (token : Text) : Text := table.resolveIn table.stepBound token

/-- The entries applied while a token is resolved, in order. -/
def resolutions (table : Table) (token : Text) : List Entry :=
  table.resolutionsIn table.stepBound token

/-- The tokens of a masked phrase, each with the table applied to it once. -/
def looseTokens (table : Table) (phrase : Text) : List Text :=
  (Text.pieces phrase).map table.apply

/-- The resolved tokens of a masked phrase that are not empty. -/
def restore (table : Table) (phrase : Text) : List Text :=
  ((table.looseTokens phrase).map table.resolve).filter (! ·.isEmpty)

/-- A token in which no key occurs needs no resolving. -/
theorem resolve_of_firstMatch?_eq_none {table : Table} {token : Text}
    (h : table.firstMatch? token = none) : table.resolve token = token := by
  obtain ⟨n, hn⟩ : ∃ n, table.stepBound = n + 1 :=
    Nat.exists_eq_succ_of_ne_zero (Nat.pos_iff_ne_zero.mp Nat.one_le_two_pow)
  rw [resolve, hn, resolveIn, h]

theorem ne_nil_of_mem_restore {table : Table} {phrase token : Text}
    (h : token ∈ table.restore phrase) : token ≠ [] := by
  simpa using (List.mem_filter.mp h).2

end Table

/-- One text from the tokens of a phrase: a query keeps its spaces, and the words of any other
phrase are joined by the operator that asks for all of them. -/
def joinTokens (isQuery : Bool) (tokens : List Text) : Text :=
  if isQuery then Text.joinWith [' '] tokens else Text.joinWith " and ".toList tokens

end PhraseRepair
