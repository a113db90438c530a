import PhraseRepair.Cql.Fragment
import PhraseRepair.Cql.Validity
import PhraseRepair.Placeholder
import PhraseRepair.Table

/-!
# Hiding fragments behind placeholders

A masked phrase is a phrase in which some fragments have been replaced by placeholders, with the
list of what was hidden, in the order in which it was hidden, and the supply that the next number
will come from. Fragments can nest: a group may be hidden while it holds the placeholders of quoted
runs, and then its replacement holds them too.

Quoted runs and groups are hidden by the same walk over the items of a scan (`hideItems`). They
differ only in their recogniser and in the treatment that each match is given.
-/

namespace PhraseRepair

/-- A fragment of a phrase that has been hidden. -/
structure Fragment where
  /-- What was taken out of the phrase. -/
  content : Text
  /-- The placeholder in its place. -/
  key : Text
  /-- What will stand for the placeholder in the end. -/
  replacement : Text
  deriving DecidableEq, Repr

/-- The table entry of a hidden fragment. -/
def Fragment.entry (f : Fragment) : Entry := ⟨f.key, f.replacement⟩

/-- What is done to a match: it is left as it is, or `content` is hidden, with `before` and `after`
written around the placeholder. -/
inductive Treatment
  | leave
  | hide (before content replacement after : Text)
  deriving DecidableEq, Repr

/-- The text of the items with each match treated, and the fragments hidden in it. -/
def hideItems (letters : Text) (treat : Match → Treatment) :
    KeySupply → List Item → Text × List Fragment
  | _, [] => ([], [])
  | supply, .plain c :: items =>
    let rest := hideItems letters treat supply items
    (c :: rest.1, rest.2)
  | supply, .hit m :: items => match treat m with
    | .leave =>
      let rest := hideItems letters treat supply items
      (m.text ++ rest.1, rest.2)
    | .hide before content replacement after =>
      let key := Placeholder.text letters supply.next
      let rest := hideItems letters treat (supply.advance 1) items
      (before ++ key ++ after ++ rest.1, ⟨content, key, replacement⟩ :: rest.2)

/-! ## Treatments -/

/-- A quoted run is hidden as it is. -/
def treatQuotedRun (run : Match) : Treatment := .hide [] run.text run.text []

/-- Whether the parentheses of a group with the given body are kept as CQL grouping. With
`quoteBare` a group without hidden runs has to hold an operator for that; otherwise it is enough
that its body can stand as CQL. -/
def keepsGrouping (quoteBare : Bool) (body : Text) : Bool :=
  if quoteBare && !Placeholder.hasSentinel body then Cql.containsOperator body
  else Cql.isCql body

/-- A group that keeps its grouping has its body hidden between its parentheses, or is left alone if
it is empty. Any other group is hidden with its parentheses and comes back between quotes. -/
def treatGroup (quoteBare : Bool) (group : Match) : Treatment :=
  if !keepsGrouping quoteBare group.value then
    .hide [] group.text (Text.enclose '"' '"' group.text) []
  else if group.value.isEmpty then .leave
  else .hide ['('] group.value group.value [')']

/-! ## Masked phrases -/

/-- A phrase with hidden fragments. -/
structure MaskedPhrase where
  /-- The letters of its placeholders. -/
  letters : Text
  /-- The phrase with placeholders in it. -/
  phrase : Text
  /-- The fragments in the order in which they were hidden. -/
  fragments : List Fragment
  /-- The numbers for further placeholders. -/
  supply : KeySupply
  deriving DecidableEq, Repr

namespace MaskedPhrase

/-- A phrase with nothing hidden yet. -/
def start (letters : Text) (supply : KeySupply) (phrase : Text) : MaskedPhrase :=
  ⟨letters, phrase, [], supply⟩

/-- Treats every match of a recogniser. -/
def hideMatches (m : MaskedPhrase) (r : Recognizer) (treat : Match → Treatment) : MaskedPhrase :=
  let hidden := hideItems m.letters treat m.supply (r.scan m.phrase)
  { m with
    phrase := hidden.1
    fragments := m.fragments ++ hidden.2
    supply := m.supply.advance hidden.2.length }

/-- Hides the quoted runs. -/
def hideQuotedRuns (m : MaskedPhrase) : MaskedPhrase :=
  m.hideMatches Cql.quotedRun treatQuotedRun

/-- Hides the innermost groups. -/
def hideGroups (quoteBare : Bool) (m : MaskedPhrase) : MaskedPhrase :=
  m.hideMatches Cql.innermostGroup (treatGroup quoteBare)

/-- The text with each occurrence of `c` quoted and set apart by spaces. -/
def isolate (c : Char) (t : Text) : Text :=
  t.flatMap fun d ↦ if d = c then [' ', '"', c, '"', ' '] else [d]

/-- Isolates the reserved characters, one after the other, in what is not hidden. -/
def isolateReserved (reserved : List Char) (m : MaskedPhrase) : MaskedPhrase :=
  { m with phrase := reserved.foldl (fun t c ↦ isolate c t) m.phrase }

/-- One step of masking a phrase. -/
inductive Step
  | quotedRuns
  | groups (quoteBare : Bool)
  | reserved (characters : List Char)
  deriving DecidableEq, Repr

/-- Takes one step. -/
def step (m : MaskedPhrase) : Step → MaskedPhrase
  | .quotedRuns => m.hideQuotedRuns
  | .groups quoteBare => m.hideGroups quoteBare
  | .reserved characters => m.isolateReserved characters

/-- Takes the steps in order. -/
def run (m : MaskedPhrase) (steps : List Step) : MaskedPhrase := steps.foldl step m

/-- The substitutions that bring the hidden fragments back. -/
def table (m : MaskedPhrase) : Table := ⟨m.fragments.map Fragment.entry⟩

@[simp] theorem size_table (m : MaskedPhrase) : m.table.size = m.fragments.length := by
  simp [table, Table.size]

/-- The supply moves on by one number for every fragment that a step hides. -/
theorem supply_step (m : MaskedPhrase) (s : Step) :
    ∃ hidden, (m.step s).fragments = m.fragments ++ hidden ∧
      (m.step s).supply = m.supply.advance hidden.length := by
  cases s with
  | quotedRuns => exact ⟨_, rfl, rfl⟩
  | groups quoteBare => exact ⟨_, rfl, rfl⟩
  | reserved characters => exact ⟨[], by simp [step, isolateReserved]⟩

end MaskedPhrase

end PhraseRepair
