import PhraseRepair.Placeholder
import PhraseRepair.Text.CharLiteral
import PhraseRepair.Unicode.Alphabetic
import PhraseRepair.Unicode.Numeric
import PhraseRepair.Unicode.WhiteSpace

/-!
# Settings of a repair

The letters of the placeholders, the characters that are reserved in search terms, and whether a
group without operators is quoted. Settings can be written down freely and are checked before use:
the first fault found is reported, with the placeholder letters looked at before the characters.
-/

namespace PhraseRepair

/-- How phrases are repaired. -/
structure Settings where
  /-- The letters that placeholders are written with. -/
  keyLetters : Text := "zxcv".toList
  /-- The characters that are quoted wherever they stand outside fragments. -/
  reserved : List Char := ['/']
  /-- Whether a group without quoted runs and without operators is quoted. -/
  quoteBareGroups : Bool := true
  deriving DecidableEq, Repr

/-- Why settings are refused. -/
inductive SettingsError
  | noKeyLetters
  | badKeyLetters (letters : Text)
  | badReserved (c : Char)
  deriving DecidableEq, Repr

/-- The wording of a refusal. -/
def SettingsError.message : SettingsError → Text
  | noKeyLetters => "placeholder key prefix must not be empty".toList
  | badKeyLetters letters =>
    "invalid placeholder key prefix '".toList ++ letters
      ++ "': only ASCII letters are allowed".toList
  | badReserved c =>
    "character ".toList ++ Text.charLiteral c ++ " cannot be used as a reserved character".toList

namespace Settings

/-- A character that may be reserved: it is no blank, letter or number, so reserving it cannot break
words apart, and neither a quote nor a sentinel, so isolating it keeps fragments and placeholders
whole. -/
def reservable (c : Char) : Bool :=
  !(Unicode.isWhiteSpace c || Unicode.isAlphabetic c || Unicode.isNumeric c || c = '"'
    || Placeholder.isSentinel c)

/-- Settings that a repair can work with. -/
def Valid (s : Settings) : Prop :=
  s.keyLetters ≠ [] ∧ (∀ c ∈ s.keyLetters, c.isAlpha) ∧ ∀ c ∈ s.reserved, reservable c

/-- The first fault of the settings, if they have one. -/
def fault? (s : Settings) : Option SettingsError :=
  if s.keyLetters.isEmpty then some .noKeyLetters
  else if s.keyLetters.all Char.isAlpha then
    (s.reserved.find? (! reservable ·)).map .badReserved
  else some (.badKeyLetters s.keyLetters)

/-- Settings without a fault are the valid ones. -/
theorem fault?_eq_none_iff {s : Settings} : s.fault? = none ↔ s.Valid := by
  unfold fault? Valid
  by_cases hnil : s.keyLetters = []
  · simp [hnil]
  · by_cases hletters : s.keyLetters.all Char.isAlpha
    · simpa [hnil, hletters] using fun _ ↦ List.all_eq_true.mp hletters
    · simpa [hnil, hletters] using fun h ↦ absurd (List.all_eq_true.mpr h) hletters

/-! ## Choosing settings -/

/-- One choice that departs from the default settings. -/
inductive Choice
  | keyLetters (letters : Text)
  | reserved (characters : List Char)
  | quoteBareGroups (enabled : Bool)
  deriving DecidableEq, Repr

/-- Settings with one more choice made. -/
def choose (s : Settings) : Choice → Settings
  | .keyLetters letters => { s with keyLetters := letters }
  | .reserved characters => { s with reserved := characters }
  | .quoteBareGroups enabled => { s with quoteBareGroups := enabled }

/-- The default settings with the choices made one after the other. -/
def ofChoices (choices : List Choice) : Settings := choices.foldl choose {}

theorem valid_default : ({} : Settings).Valid := by
  rw [← fault?_eq_none_iff]
  decide +kernel

end Settings

end PhraseRepair
