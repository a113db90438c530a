import PhraseRepair.Proofs.Reports

/-!
# Other letters, other numbers

Two repairs of one phrase that differ in the letters and the numbers of their placeholders come to
the same result (`Repairer.alike_repair`). What they mask is the same outline, spelt in two ways.
The table of a spelt outline does to a token what can be said without its keys: one round of it
reveals the fragments one after the other (`Outline.round`), and resolving writes out what is left.

No bound on the number of fragments is needed for this. Once the numbers come round, keys repeat,
but they repeat at the same places for every choice of letters and of the first number.
-/

namespace PhraseRepair

open Outline (key meaning Within)

/-! ## Texts that differ in their keys

That two texts differ in their keys only is not a matter of replacing one list of keys by the other,
since a key might occur in a text by chance. It is said by how the texts are built up together. All
sentinels have to belong to keys, so each of the two texts determines where its keys are. -/

/-- Two texts that differ in their keys only: where one holds the key in some place of a list, the
other holds the key in that place of another list. All sentinels belong to such keys. -/
inductive Respelt (keys keys' : List Text) : Text → Text → Prop
  | nil : Respelt keys keys' [] []
  | plain {c : Char} {t t' : Text} (hc : Placeholder.isSentinel c = false)
      (ht : Respelt keys keys' t t') : Respelt keys keys' (c :: t) (c :: t')
  | key {i : Nat} {k k' t t' : Text} (hk : keys[i]? = some k) (hk' : keys'[i]? = some k')
      (ht : Respelt keys keys' t t') : Respelt keys keys' (k ++ t) (k' ++ t')

/-- Two reports on one phrase that differ in their keys only. -/
structure Report.Alike (a b : Report) : Prop where
  /-- The phrases are normalized alike. -/
  normalized : a.normalized = b.normalized
  /-- Both or neither are queries. -/
  valid : a.valid = b.valid
  /-- The repaired phrases are the same. -/
  output : a.output = b.output
  /-- The masked phrases differ in their keys. -/
  phrase : Respelt a.masked.keys b.masked.keys a.masked.phrase b.masked.phrase
  /-- There are as many fragments, and those in the same place differ in their keys. -/
  fragments : List.Forall₂ (fun f g ↦
    Respelt a.masked.keys b.masked.keys f.content g.content ∧
      Respelt a.masked.keys b.masked.keys f.replacement g.replacement)
    a.masked.fragments b.masked.fragments

namespace Outline

variable {keys keys' : List Text} {f f' : Nat → Text} {n : Nat}
  (hkeys : ∀ i < n, keys[i]? = some (f i)) (hkeys' : ∀ i < n, keys'[i]? = some (f' i))

include hkeys hkeys'

theorem respelt_fill {s : Veiled Nat} (hs : ∀ a ∈ s, Within n a) :
    Respelt keys keys' (Veiled.fill f s) (Veiled.fill f' s) := by
  induction s with
  | nil => exact .nil
  | cons a s ih =>
    have ih := ih fun b hb ↦ hs b (List.mem_cons_of_mem _ hb)
    have ha := hs a List.mem_cons_self
    rcases a with c | i
    · exact .plain ha ih
    · exact .key (hkeys i ha) (hkeys' i ha) ih

theorem respelt_spellHidden {hs : List Hidden}
    (hwithin : ∀ h ∈ hs, (∀ a ∈ h.content, Within n a) ∧ ∀ a ∈ h.replacement, Within n a)
    (i : Nat) : List.Forall₂ (fun x y ↦ Respelt keys keys' x.content y.content ∧
      Respelt keys keys' x.replacement y.replacement)
      (spellHidden f i hs) (spellHidden f' i hs) := by
  induction hs generalizing i with
  | nil => exact .nil
  | cons h hs ih =>
    obtain ⟨hcontent, hreplacement⟩ := hwithin h List.mem_cons_self
    exact .cons ⟨respelt_fill hkeys hkeys' hcontent, respelt_fill hkeys hkeys' hreplacement⟩
      (ih (fun g hg ↦ hwithin g (List.mem_cons_of_mem _ hg)) (i + 1))

end Outline

/-! ## The table without its keys

With repeated keys, a round of the table reveals every fragment that has the number of the entry,
and resolving writes out the first of them only. Both are described by places and by remainders
modulo `2 ^ 64`, in which the keys do not occur. -/

namespace Outline

/-- The phrase after the fragments in a list have been revealed one after the other, each with its
place in the order of hiding. -/
def revealEach (hs : List (Hidden × Nat)) (s : Veiled Nat) : Veiled Nat :=
  hs.foldl (fun s h ↦ revealKey h.2 h.1.replacement s) s

/-- The phrase after one round of the table. -/
def round (o : Outline) (s : Veiled Nat) : Veiled Nat := revealEach o.hidden.zipIdx s

/-- The tokens that a masked phrase is restored to. -/
def restored (o : Outline) (s : Veiled Nat) : List Text :=
  ((Veiled.pieces s).map fun p ↦ Veiled.fill (meaning o.distinct.hidden)
    (Veiled.rename (· % 2 ^ 64) (o.round p))).filter (! ·.isEmpty)

theorem entries_spell (letters : Text) (supply : KeySupply) (o : Outline) :
    (o.spell letters supply).table.entries = o.hidden.zipIdx.map fun h ↦
      ⟨key letters supply h.2, Veiled.fill (key letters supply) h.1.replacement⟩ := by
  refine List.ext_getElem? fun i ↦ ?_
  rw [getElem?_entries_spell, List.getElem?_map, List.getElem?_zipIdx, Option.map_map, Nat.zero_add]
  rfl

variable {letters : Text} (hletters : ∀ c ∈ letters, c.isAlpha = true) (supply : KeySupply)

include hletters

private theorem foldl_apply_fill {n : Nat} {hs : List (Hidden × Nat)}
    (hwithin : ∀ h ∈ hs, ∀ a ∈ h.1.replacement, Within n a) {s : Veiled Nat}
    (hs' : ∀ a ∈ s, Within n a) :
    (hs.map fun h ↦ (⟨key letters supply h.2,
        Veiled.fill (key letters supply) h.1.replacement⟩ : Entry)).foldl (fun t e ↦ e.apply t)
          (Veiled.fill (key letters supply) s)
        = Veiled.fill (key letters supply) (revealEach hs s) ∧
      ∀ a ∈ revealEach hs s, Within n a := by
  induction hs generalizing s with
  | nil => exact ⟨rfl, hs'⟩
  | cons h hs ih =>
    rw [List.map_cons, List.foldl_cons, Entry.apply,
      replaceAll_fill_key hletters _ _ (clean_of_within hs'), revealEach, List.foldl_cons,
      ← revealEach]
    exact ih (fun g hg ↦ hwithin g (List.mem_cons_of_mem _ hg))
      (within_revealKey (hwithin h List.mem_cons_self) hs')

/-- **Restoring, without the keys.** What a masked phrase is restored to depends neither on the
letters nor on the numbers of its keys. -/
theorem restore_spell {o : Outline} (ho : o.WellFormed) {s : Veiled Nat}
    (hs : ∀ a ∈ s, Within o.hidden.length a) :
    (o.spell letters supply).table.restore (Veiled.fill (key letters supply) s)
      = o.restored s := by
  have hspace : ∀ i, .hidden i ∈ s → ' ' ∉ key letters supply i :=
    fun i _ ↦ (isVeil_key hletters i).notMem (by decide)
  have hwithin : ∀ h ∈ o.hidden.zipIdx, ∀ a ∈ h.1.replacement, Within o.hidden.length a := by
    intro h hh a ha
    have hi := List.mem_zipIdx_iff_getElem?.mp hh
    exact ((ho.replacement h.2 h.1 hi).2 a ha).mono
      (Nat.le_of_lt (List.getElem?_eq_some_iff.mp hi).1)
  -- A key holds no space, so the texts between spaces are the pieces, spelt.
  rw [Table.restore, Table.looseTokens, Veiled.pieces_fill hspace, List.map_map, List.map_map,
    restored]
  refine congrArg _ (List.map_congr_left fun p hp ↦ ?_)
  obtain ⟨happly, hround⟩ := foldl_apply_fill hletters supply hwithin
    fun a ha ↦ hs a (Text.mem_of_mem_splitOnP hp ha)
  rw [← entries_spell] at happly
  rw [Function.comp_apply, Function.comp_apply, Table.apply, happly]
  exact resolve_fill_distinct hletters supply ho hround

end Outline

/-! ## Two repairs -/

namespace Repairer

variable (r : Repairer) (supply : KeySupply)

theorem getElem?_keys_repair (input : Text) {i : Nat}
    (hi : i < (r.outline (normalize input)).hidden.length) :
    (r.repair supply input).masked.keys[i]? = some (key r.settings.keyLetters supply i) := by
  rw [r.keys_repair, List.getElem?_map, List.getElem?_range hi, Option.map_some]

theorem tokens_repair_eq_restored (input : Text) : (r.repair supply input).tokens
    = (r.outline (normalize input)).restored
        (isolateAll r.settings.reserved (r.outline (normalize input)).symbols) := by
  have ht := hasSentinel_normalize input
  rw [← Outline.restore_spell r.valid.2.1 supply (r.wellFormed_outline ht)
    (r.within_isolateAll ht), r.spell_outline, Report.tokens, repair, r.phrase_mask]
  rfl

/-- **Keys make no difference.** Two repairers that reserve the same characters and quote the same
groups find the same out about a phrase, whatever letters and numbers their placeholders have. -/
theorem alike_repair {r r' : Repairer} (supply supply' : KeySupply) (input : Text)
    (hreserved : r.settings.reserved = r'.settings.reserved)
    (hbare : r.settings.quoteBareGroups = r'.settings.quoteBareGroups) :
    (r.repair supply input).Alike (r'.repair supply' input) := by
  have ht := hasSentinel_normalize input
  -- Both repairs come from one outline.
  have houtline : r.outline (normalize input) = r'.outline (normalize input) := by
    rw [outline, outline, hbare]
  have hkeys := fun i ↦ r.getElem?_keys_repair supply input (i := i)
  have hkeys' := fun i ↦ r'.getElem?_keys_repair supply' input (i := i)
  rw [← houtline] at hkeys'
  have hvalid : (r.repair supply input).valid = (r'.repair supply' input).valid := by
    rw [r.valid_repair, r'.valid_repair, maskedPhrase, maskedPhrase, parts, parts, hreserved, hbare]
  have htokens : (r.repair supply input).tokens = (r'.repair supply' input).tokens := by
    rw [r.tokens_repair_eq_restored, r'.tokens_repair_eq_restored, hreserved, houtline]
  refine ⟨rfl, hvalid, by rw [Report.output, Report.output, hvalid, htokens], ?_, ?_⟩
  · have hphrase := Outline.respelt_fill hkeys hkeys' (r.within_isolateAll ht)
    rw [← r.phrase_mask, houtline, hreserved, ← r'.phrase_mask] at hphrase
    exact hphrase
  · have hfragments := Outline.respelt_spellHidden hkeys hkeys'
      (fun h hh ↦ r.within_hidden ht hh) 0
    rw [← r.fragments_mask, houtline, ← r'.fragments_mask] at hfragments
    exact hfragments

end Repairer

end PhraseRepair
