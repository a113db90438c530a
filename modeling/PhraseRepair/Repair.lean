import PhraseRepair.Masking
import PhraseRepair.Restoration
import PhraseRepair.Settings

/-!
# Repairing a phrase

A phrase as people type it is turned into a CQL query. It is normalized; its quoted runs and
innermost groups are hidden and its reserved characters isolated; what is left decides whether the
phrase already is a query; and the hidden fragments are brought back into its tokens, which keep
their spaces if it is and are joined by `and` if it is not.

A `Report` holds the phrase at its first stages. The later stages are functions of it.
-/

namespace PhraseRepair

/-- The phrase without sentinels and with single spaces between its words. -/
def normalize (input : Text) : Text :=
  Text.normalizeSpace (input.filter (! Placeholder.isSentinel ·))

/-- What a repair found out about a phrase. -/
structure Report where
  /-- The phrase as it came. -/
  input : Text
  /-- The phrase without sentinels and with single spaces between its words. -/
  normalized : Text
  /-- The normalized phrase with its fragments hidden. -/
  masked : MaskedPhrase
  deriving DecidableEq, Repr

namespace Report

/-- Whether the phrase already is a query, judged with its fragments hidden. -/
def valid (r : Report) : Bool := Cql.phraseIsCql r.masked.phrase

/-- The tokens of the phrase with its fragments brought back. -/
def tokens (r : Report) : List Text := r.masked.table.restore r.masked.phrase

/-- The repaired phrase. -/
def output (r : Report) : Text := joinTokens r.valid r.tokens

end Report

/-- A way to repair phrases: settings that can be worked with. -/
structure Repairer where
  /-- How phrases are repaired. -/
  settings : Settings := {}
  /-- The settings have no fault. -/
  valid : settings.Valid := by exact Settings.valid_default

namespace Repairer

/-- A repairer with the given settings, or the fault that they have. -/
def ofSettings (settings : Settings) : Except SettingsError Repairer :=
  match h : settings.fault? with
  | none => .ok ⟨settings, Settings.fault?_eq_none_iff.mp h⟩
  | some e => .error e

/-- The normalized phrase with its fragments hidden and its reserved characters isolated. -/
def mask (r : Repairer) (supply : KeySupply) (normalized : Text) : MaskedPhrase :=
  (MaskedPhrase.start r.settings.keyLetters supply normalized).run
    [.quotedRuns, .groups r.settings.quoteBareGroups, .reserved r.settings.reserved]

/-- Repairs a phrase, with placeholder numbers from the given supply. -/
def repair (r : Repairer) (supply : KeySupply) (input : Text) : Report where
  input := input
  normalized := normalize input
  masked := r.mask supply (normalize input)

end Repairer

end PhraseRepair
