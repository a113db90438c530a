import PhraseRepair.Text.Scan

/-!
# Replacing every occurrence of a key

`replaceAll key new t` has `new` in place of each occurrence of `key` in `t`, taken from left to
right and without overlaps. It is the scan for the key with the new text substituted. An empty key
occurs nowhere.
-/

namespace PhraseRepair

/-- Recognises the one text `key`. -/
def Recognizer.literal (key : Text) : Recognizer where
  read t := if !key.isEmpty && key.isPrefixOf t then some ⟨key, key⟩ else none
  ne_nil {t m} h := by
    obtain ⟨⟨hkey, -⟩, rfl⟩ : (key ≠ [] ∧ key <+: t) ∧ ⟨key, key⟩ = m := by simpa using h
    exact hkey
  isPrefix {t m} h := by
    obtain ⟨⟨-, hpre⟩, rfl⟩ : (key ≠ [] ∧ key <+: t) ∧ ⟨key, key⟩ = m := by simpa using h
    exact hpre

namespace Text

/-- The text with `new` in place of every occurrence of `key`. -/
def replaceAll (key new : Text) (t : Text) : Text :=
  (Recognizer.literal key).substitute (fun _ ↦ new) t

@[simp] theorem replaceAll_nil (key new : Text) : replaceAll key new [] = [] := rfl

/-- At an occurrence of the key, the new text is written and scanning goes on behind the key. -/
theorem replaceAll_append {key : Text} (hkey : key ≠ []) (new t : Text) :
    replaceAll key new (key ++ t) = new ++ replaceAll key new t := by
  have h : (Recognizer.literal key).read (key ++ t) = some ⟨key, key⟩ := by
    simp [Recognizer.literal, hkey]
  simp [replaceAll, Recognizer.substitute, Recognizer.scan_of_read _ h]

/-- Where the key does not start, the character is copied. -/
theorem replaceAll_cons {key : Text} {c : Char} {t : Text} (h : ¬ key <+: c :: t) (new : Text) :
    replaceAll key new (c :: t) = c :: replaceAll key new t := by
  have h : (Recognizer.literal key).read (c :: t) = none := by
    simp [Recognizer.literal, h]
  simp [replaceAll, Recognizer.substitute, Recognizer.scan_of_read_none _ h]

end Text

end PhraseRepair
