import Mathlib.Data.List.Nodup
import PhraseRepair.Proofs.Resolving
import PhraseRepair.Repair

/-!
# Masking is sound

However fragments are hidden and characters isolated, in whatever order and as often as one likes,
what comes out can be restored: every sentinel belongs to a whole key, and a replacement is written
with the keys of earlier fragments only. So resolving ends, although the loop has no bound of its
own, and leaves no sentinel.

All of this is read off the outline behind a masked phrase, which every step keeps well formed.
-/

namespace PhraseRepair

open Placeholder (hasSentinel isSentinel)

/-! ## Whole keys

That sentinels belong to whole keys is said by building a text from keys and other characters, and
not by forbidding something. A layered table is all that restoring needs of a table. It says nothing
of where the table comes from: the numbers in its keys need not be consecutive, nor in any order. -/

/-- A text whose sentinels all belong to whole keys from a list. -/
inductive Spelt (keys : List Text) : Text → Prop
  | nil : Spelt keys []
  | plain {c : Char} {t : Text} (hc : isSentinel c = false) (ht : Spelt keys t) :
      Spelt keys (c :: t)
  | key {k t : Text} (hk : k ∈ keys) (ht : Spelt keys t) : Spelt keys (k ++ t)

theorem Outline.spelt_fill {keys : List Text} {f : Nat → Text} {n : Nat}
    (hf : ∀ i < n, f i ∈ keys) {s : Veiled Nat} (hs : ∀ a ∈ s, Within n a) :
    Spelt keys (Veiled.fill f s) := by
  induction s with
  | nil => exact .nil
  | cons a s ih =>
    have ih := ih fun b hb ↦ hs b (List.mem_cons_of_mem _ hb)
    have ha := hs a List.mem_cons_self
    cases a with
    | plain c => exact .plain ha ih
    | hidden i => exact .key (hf i ha) ih

namespace Table

/-- The keys of a table in order. -/
def keys (table : Table) : List Text := table.entries.map Entry.key

/-- A table whose keys are different placeholders with the same letters, and whose replacements are
written with the keys of earlier entries. -/
structure Layered (letters : Text) (table : Table) : Prop where
  /-- The letters are ASCII letters. -/
  isAlpha : ∀ c ∈ letters, c.isAlpha = true
  /-- The keys are placeholders. -/
  key : ∀ k ∈ table.keys, ∃ n, k = Placeholder.text letters n
  /-- No key stands for two entries. -/
  nodup : table.keys.Nodup
  /-- The sentinels of a replacement belong to keys of earlier entries. -/
  replacement : ∀ i e, table.entries[i]? = some e → Spelt (table.keys.take i) e.replacement

end Table

namespace Outline

theorem keys_numberedTable (letters : Text) (ν : Nat → UInt64) (fs : List Hidden) :
    (numberedTable letters ν fs).keys = (List.range fs.length).map (numbered letters ν) := by
  refine List.ext_getElem? fun i ↦ ?_
  rw [Table.keys, List.getElem?_map, getElem?_entries_numberedTable, List.getElem?_map,
    Option.map_map]
  by_cases hi : i < fs.length
  · rw [List.getElem?_eq_getElem hi, List.getElem?_range hi]
    rfl
  · rw [List.getElem?_eq_none (Nat.le_of_not_lt hi), List.getElem?_eq_none (by simpa using hi)]
    rfl

theorem spelt_numbered {letters : Text} {ν : Nat → UInt64} {fs : List Hidden} {s : Veiled Nat}
    (hs : ∀ a ∈ s, Within fs.length a) :
    Spelt (numberedTable letters ν fs).keys (Veiled.fill (numbered letters ν) s) := by
  rw [keys_numberedTable]
  exact spelt_fill (fun i hi ↦ List.mem_map_of_mem (List.mem_range.mpr hi)) hs

theorem layered_numberedTable {letters : Text} (hletters : ∀ c ∈ letters, c.isAlpha = true)
    {ν : Nat → UInt64} {fs : List Hidden} (hν : Set.InjOn ν {i | i < fs.length})
    (hfs : Layered fs) : (numberedTable letters ν fs).Layered letters := by
  refine ⟨hletters, fun k hk ↦ ?_, ?_, fun i e hi ↦ ?_⟩
  · rw [keys_numberedTable] at hk
    obtain ⟨i, -, rfl⟩ := List.mem_map.mp hk
    exact ⟨ν i, rfl⟩
  · rw [keys_numberedTable]
    refine List.Nodup.map_on (fun i hi j hj hij ↦ ?_) List.nodup_range
    exact hν (List.mem_range.mp hi) (List.mem_range.mp hj) (Placeholder.text_injective hij)
  · rw [getElem?_entries_numberedTable, Option.map_eq_some_iff] at hi
    obtain ⟨f, hf, rfl⟩ := hi
    have hlt := (List.getElem?_eq_some_iff.mp hf).1
    rw [keys_numberedTable, ← List.map_take, List.take_range, Nat.min_eq_left (Nat.le_of_lt hlt)]
    exact spelt_fill (fun j hj ↦ List.mem_map_of_mem (List.mem_range.mpr hj)) (hfs i f hf)

end Outline

namespace MaskedPhrase

/-! ## Sound and restorable phrases

Soundness asks that keys differ, and that is lost once the supply has wrapped around. Restoring goes
on working then, if not always with the intended result. So these are two properties, one for as
long as numbers last and the other without a bound. -/

/-- The keys of a masked phrase in the order in which they were given out. -/
def keys (m : MaskedPhrase) : List Text := m.fragments.map Fragment.key

theorem keys_table (m : MaskedPhrase) : m.table.keys = m.keys := List.map_map

/-- What makes a masked phrase safe to restore. -/
structure Sound (m : MaskedPhrase) : Prop where
  /-- No key stands for two fragments. -/
  nodup : m.keys.Nodup
  /-- No fragment is restored to nothing. -/
  ne_nil : ∀ f ∈ m.fragments, f.replacement ≠ []
  /-- The sentinels of a replacement belong to keys of earlier fragments. -/
  replacement : ∀ (i : Nat) (f : Fragment), m.fragments[i]? = some f →
    Spelt (m.keys.take i) f.replacement
  /-- A replacement does not hold its own key or a later one. -/
  earlier : ∀ (i : Nat) (f : Fragment), m.fragments[i]? = some f → ∀ (j : Nat) (k : Text),
    m.keys[j]? = some k → k <:+: f.replacement → j < i
  /-- The sentinels of the phrase belong to keys. -/
  phrase : Spelt m.keys m.phrase

/-- Restoring a masked phrase ends: resolving comes to its end for every token that the table has
been applied to, and no token that is returned holds a sentinel. -/
def Restorable (m : MaskedPhrase) : Prop :=
  (∀ token ∈ m.table.looseTokens m.phrase, m.table.ResolvesTo token (m.table.resolve token)) ∧
    ∀ token ∈ m.table.restore m.phrase, hasSentinel token = false

end MaskedPhrase

namespace Outline

open MaskedPhrase (Sound)

variable {letters : Text} {supply : KeySupply} {o : Outline}

theorem keys_spell : (o.spell letters supply).keys
    = (List.range o.hidden.length).map (key letters supply) := by
  rw [← MaskedPhrase.keys_table]
  exact keys_numberedTable letters (number supply) o.hidden

/-- A spelt outline is sound, as long as no number has been given out twice. -/
theorem sound_spell (hletters : ∀ c ∈ letters, c.isAlpha = true) (ho : o.WellFormed)
    (hlen : o.hidden.length ≤ 2 ^ 64) : (o.spell letters supply).Sound := by
  have hlayered := layered_numberedTable hletters (injOn_number supply hlen) ho.layered
  rw [← table_spell] at hlayered
  have hfragment : ∀ {i : Nat} {f : Fragment}, (o.spell letters supply).fragments[i]? = some f →
      ∃ h, o.hidden[i]? = some h ∧
        f.replacement = Veiled.fill (key letters supply) h.replacement := by
    intro i f hi
    rw [spell, getElem?_spellHidden, Option.map_eq_some_iff] at hi
    obtain ⟨h, hh, rfl⟩ := hi
    exact ⟨h, hh, rfl⟩
  refine ⟨?_, fun f hf ↦ ?_, fun i f hi ↦ ?_, fun i f hi j k hj hk ↦ ?_, ?_⟩
  · rw [← MaskedPhrase.keys_table]
    exact hlayered.nodup
  · obtain ⟨i, hi⟩ := List.mem_iff_getElem?.mp hf
    obtain ⟨h, hh, hreplacement⟩ := hfragment hi
    rw [hreplacement]
    exact fun hnil ↦ (ho.replacement i h hh).1
      (Veiled.eq_nil_of_fill_eq_nil (fun j ↦ (isVeil_key hletters j).ne_nil) hnil)
  · rw [← MaskedPhrase.keys_table]
    exact hlayered.replacement i f.entry (by rw [MaskedPhrase.table, List.getElem?_map, hi]; rfl)
  · -- A key in a replacement is the key of a symbol of it, and these come earlier.
    obtain ⟨h, hh, hreplacement⟩ := hfragment hi
    have hlt := (List.getElem?_eq_some_iff.mp hh).1
    have hwithin := (ho.replacement i h hh).2
    rw [keys_spell, List.getElem?_map, Option.map_eq_some_iff] at hj
    obtain ⟨j', hj', rfl⟩ := hj
    obtain ⟨hjlt, hj'⟩ := List.getElem?_eq_some_iff.mp hj'
    rw [List.getElem_range] at hj'
    subst hj'
    rw [List.length_range] at hjlt
    rw [hreplacement, key_infix_fill_iff hletters hlen
      (fun a ha ↦ (hwithin a ha).mono (Nat.le_of_lt hlt)) hjlt] at hk
    exact hwithin _ hk
  · rw [← MaskedPhrase.keys_table]
    exact spelt_numbered ho.symbols

/-- A spelt outline can be restored, even if numbers have been given out more than once. -/
theorem restorable_spell (hletters : ∀ c ∈ letters, c.isAlpha = true) (ho : o.WellFormed) :
    (o.spell letters supply).Restorable := by
  -- Every piece of the phrase is still written with whole keys after one round of the table.
  have hloose : ∀ token ∈ (o.spell letters supply).table.looseTokens
      (o.spell letters supply).phrase, ∃ s : Veiled Nat,
        token = Veiled.fill (key letters supply) s ∧ ∀ a ∈ s, Within o.hidden.length a := by
    intro token htoken
    obtain ⟨piece, hpiece, rfl⟩ := List.mem_map.mp htoken
    rw [spell, Veiled.pieces_fill fun i _ ↦ (isVeil_key hletters i).notMem (by decide)] at hpiece
    obtain ⟨p, hp, rfl⟩ := List.mem_map.mp hpiece
    obtain ⟨s, happly, hs, -⟩ := readsAs_apply_table hletters ho.layered
      fun a ha ↦ ho.symbols a (Text.mem_of_mem_splitOnP hp ha)
    exact ⟨s, happly, hs⟩
  refine ⟨fun token htoken ↦ ?_, fun token htoken ↦ ?_⟩
  · obtain ⟨s, rfl, hs⟩ := hloose token htoken
    exact (resolvesTo_resolve hletters ho hs).1
  · obtain ⟨loose, hmem, rfl⟩ := List.mem_map.mp (List.mem_filter.mp htoken).1
    obtain ⟨s, rfl, hs⟩ := hloose loose hmem
    exact (resolvesTo_resolve hletters ho hs).2

end Outline

/-! ## Every run of steps -/

/-- A masked phrase is a spelt outline that is well formed. -/
theorem MaskedPhrase.exists_outline {letters : Text} (hletters : ∀ c ∈ letters, c.isAlpha = true)
    (supply : KeySupply) {t : Text} (ht : hasSentinel t = false) {steps : List Step}
    (hsteps : ∀ cs, .reserved cs ∈ steps → ∀ c ∈ cs, Settings.reservable c = true) :
    ∃ o : Outline, o.WellFormed ∧ (start letters supply t).run steps = o.spell letters supply := by
  refine ⟨(Outline.start t).run steps,
    Outline.wellFormed_run (Outline.wellFormed_start ht) hsteps, ?_⟩
  rw [Outline.spell_run hletters _ hsteps, Outline.spell_start]

theorem hasSentinel_normalize (input : Text) : hasSentinel (normalize input) = false := by
  rw [Placeholder.hasSentinel_eq_false_iff]
  intro c hc
  rcases Text.mem_of_mem_normalizeSpace hc with rfl | hc
  · decide
  · simpa using (List.mem_filter.mp hc).2

theorem hasSentinel_joinTokens {isQuery : Bool} {tokens : List Text}
    (h : ∀ token ∈ tokens, hasSentinel token = false) :
    hasSentinel (joinTokens isQuery tokens) = false := by
  have hjoin : ∀ separator : Text, hasSentinel separator = false →
      hasSentinel (Text.joinWith separator tokens) = false := by
    intro separator hseparator
    rw [Placeholder.hasSentinel_eq_false_iff] at hseparator ⊢
    intro c hc
    rcases Text.mem_of_mem_intercalate hc with hc | ⟨token, htoken, hc⟩
    · exact hseparator c hc
    · exact Placeholder.hasSentinel_eq_false_iff.mp (h token htoken) c hc
  rw [joinTokens]
  split
  · exact hjoin _ (by decide)
  · exact hjoin _ (by decide)

theorem Repairer.reservable_of_mem_reserved (r : Repairer) {b : Bool} :
    ∀ cs, .reserved cs ∈ [MaskedPhrase.Step.quotedRuns, .groups b, .reserved r.settings.reserved] →
      ∀ c ∈ cs, Settings.reservable c = true := by
  intro cs hcs c hc
  obtain rfl : cs = r.settings.reserved := by simpa using hcs
  exact r.valid.2.2 c hc

section Repairs

variable (r : Repairer) (supply : KeySupply) (input : Text)

/-- Every repair comes to an end. -/
theorem restorable_repair : (r.repair supply input).masked.Restorable := by
  have hletters := r.valid.2.1
  obtain ⟨o, ho, hrun⟩ := MaskedPhrase.exists_outline hletters supply
    (hasSentinel_normalize input) r.reservable_of_mem_reserved
  rw [Repairer.repair, Repairer.mask, hrun]
  exact Outline.restorable_spell hletters ho

theorem hasSentinel_output_repair : hasSentinel (r.repair supply input).output = false :=
  hasSentinel_joinTokens (restorable_repair r supply input).2

end Repairs

/-- **Masking is sound.** Whatever steps are taken, in whatever order, the masked phrase is sound as
long as the numbers last, and it can be restored. In particular every repair comes to an end, and no
sentinel is left in its output. -/
theorem masking_sound :
    (∀ (letters : Text) (supply : KeySupply) (t : Text) (steps : List MaskedPhrase.Step),
      (∀ c ∈ letters, c.isAlpha = true) → hasSentinel t = false →
      (∀ cs, .reserved cs ∈ steps → ∀ c ∈ cs, Settings.reservable c = true) →
      ((MaskedPhrase.start letters supply t).run steps).fragments.length < 2 ^ 64 →
      ((MaskedPhrase.start letters supply t).run steps).Sound ∧
        ((MaskedPhrase.start letters supply t).run steps).Restorable) ∧
    ∀ (r : Repairer) (supply : KeySupply) (input : Text),
      (r.repair supply input).masked.Restorable ∧
        hasSentinel (r.repair supply input).output = false := by
  refine ⟨fun letters supply t steps hletters ht hsteps hcount ↦ ?_, fun r supply input ↦
    ⟨restorable_repair r supply input, hasSentinel_output_repair r supply input⟩⟩
  obtain ⟨o, ho, hrun⟩ := MaskedPhrase.exists_outline hletters supply ht hsteps
  rw [hrun, Outline.spell, Outline.length_spellHidden] at hcount
  rw [hrun]
  exact ⟨Outline.sound_spell hletters ho (Nat.le_of_lt hcount),
    Outline.restorable_spell hletters ho⟩

/-- Two fragments, one inside the other, with the supply wrapping around between them. -/
theorem masking_sound_across_wrap :
    ((MaskedPhrase.start "zx".toList ⟨18446744073709551615⟩ "a (\"b c\" or d)/e".toList).run
      [.quotedRuns, .groups true, .reserved ['/']]).Sound :=
  (masking_sound.1 _ _ _ _ (List.all_eq_true.mp (by decide)) (by decide)
    (fun cs hcs c hc ↦ by
      obtain rfl : cs = ['/'] := by simpa using hcs
      obtain rfl : c = '/' := by simpa using hc
      decide +kernel)
    (by decide +kernel)).1

end PhraseRepair
