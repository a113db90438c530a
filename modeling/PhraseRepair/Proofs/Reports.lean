import PhraseRepair.Proofs.Parts
import PhraseRepair.Proofs.Soundness
import PhraseRepair.Repair

/-!
# What a repair finds out

The report of a repair, in terms of the parts of the normalized phrase. Its masked phrase is a spelt
outline that reads as the masked sides of the parts, with the reserved characters isolated. So its
validity is settled by their shape (`valid_repair`), its tokens are their pieces written out
(`tokens_repair`), and the fragments that come back between quotes are the quoted parts
(`literalized_repair`). Neither the letters nor the supply have a part in any of this.
-/

namespace PhraseRepair

open Outline (meaning key)

/-! ## What comes back between quotes

In a report, the fragments that come back between quotes are told apart by comparing content and
replacement as texts. Here they are compared by their lengths in symbols, which do not depend on the
keys. -/

/-- The group, if it comes back between quotes. -/
def Part.literalized? : Part → Option Text
  | plain _ => none
  | kept _ => none
  | quoted body => some (group body)

/-- The fragments that come back other than they went. -/
def MaskedPhrase.literalized (m : MaskedPhrase) : List Fragment :=
  m.fragments.filter fun f ↦ f.replacement ≠ f.content

namespace Outline

/-- What a hidden fragment reads, if it comes back between quotes. -/
def Hidden.literalized? (f : Nat → Text) (h : Hidden) : Option Text :=
  if h.replacement.length = h.content.length then none else some (Veiled.fill f h.content)

/-- A fragment that comes back as it went, or between quotes. -/
def Hidden.Proper (h : Hidden) : Prop :=
  h.replacement = h.content ∨ h.replacement = .plain '"' :: h.content ++ [.plain '"']

variable {letters : Text} {supply : KeySupply}

theorem map_literalized_spellHidden {resolve : Text → Text} {f g : Nat → Text}
    {hs : List Hidden} (hproper : ∀ h ∈ hs, h.Proper)
    (hresolve : ∀ h ∈ hs, resolve (Veiled.fill g h.content) = Veiled.fill f h.content) (i : Nat) :
    ((spellHidden g i hs).filter fun x ↦ x.replacement ≠ x.content).map (fun x ↦ resolve x.content)
      = hs.filterMap (Hidden.literalized? f) := by
  induction hs generalizing i with
  | nil => rfl
  | cons h hs ih =>
    have ih := ih (fun h hh ↦ hproper h (List.mem_cons_of_mem _ hh))
      (fun h hh ↦ hresolve h (List.mem_cons_of_mem _ hh)) (i + 1)
    rw [spellHidden, List.filter_cons, List.filterMap_cons, Hidden.literalized?]
    rcases hproper h List.mem_cons_self with hh | hh
    · rw [hh, if_neg (by simp), if_pos rfl, ih]
    · -- Two quotes more make the replacement longer, whatever the fragments are filled with.
      have hne : Veiled.fill g h.replacement ≠ Veiled.fill g h.content := by
        intro heq
        have hlength := congrArg List.length heq
        simp only [hh, Veiled.fill_append, Veiled.fill_plain, Veiled.fill_nil, List.cons_append,
          List.length_cons, List.length_append, List.length_nil] at hlength
        omega
      have hlength : h.replacement.length ≠ h.content.length := by
        rw [hh, List.length_append, List.length_cons, List.length_singleton]
        omega
      rw [if_pos (by simpa using hne), if_neg hlength, List.map_cons, ih,
        hresolve h List.mem_cons_self]

private theorem proper_of_mem_filterMap {handle : Veiled Nat → Handling}
    (hhandle : ∀ u h, (handle u).hidden? = some h → h.Proper) {cells : List (Cell Nat)} :
    ∀ h ∈ cells.filterMap (cellHidden? handle), h.Proper := by
  intro h hh
  obtain ⟨cell, -, hcell⟩ := List.mem_filterMap.mp hh
  rcases cell with a | u
  · exact absurd hcell (by simp [cellHidden?])
  · exact hhandle u h hcell

private theorem proper_handleQuotedRun (u : Veiled Nat) (h : Hidden)
    (hh : (handleQuotedRun u).hidden? = some h) : h.Proper := by
  obtain rfl : ⟨u, u⟩ = h := by simpa [handleQuotedRun, Handling.hidden?] using hh
  exact Or.inl rfl

private theorem proper_handleGroup (quoteBare : Bool) (u : Veiled Nat) (h : Hidden)
    (hh : (handleGroup quoteBare u).hidden? = some h) : h.Proper := by
  rw [handleGroup] at hh
  split at hh
  · obtain rfl : ⟨u, _⟩ = h := by simpa [Handling.hidden?] using hh
    exact Or.inr rfl
  · split at hh
    · exact absurd hh (by simp [Handling.hidden?])
    · obtain rfl : ⟨Cql.inner u, Cql.inner u⟩ = h := by simpa [Handling.hidden?] using hh
      exact Or.inl rfl

theorem proper_of_mem_hidden_run {t : Text} {quoteBare : Bool} :
    ∀ h ∈ ((start t).run [.quotedRuns, .groups quoteBare]).hidden, h.Proper := by
  intro h hh
  rw [hidden_run, List.mem_append] at hh
  rcases hh with hh | hh
  · exact proper_of_mem_filterMap proper_handleQuotedRun h hh
  · exact proper_of_mem_filterMap (proper_handleGroup quoteBare) h hh

private theorem literalized?_handleGroup (quoteBare : Bool) (f : Nat → Text) {s : Veiled Nat}
    {cell : Cell Nat} (hcell : cell ∈ Cql.innermostGroup.cells s) :
    (cellHidden? (handleGroup quoteBare) cell).bind (Hidden.literalized? f)
      = (Part.ofCell quoteBare (cell.rename f)).literalized? := by
  rcases cell with a | u
  · rfl
  · obtain ⟨body, rfl, -⟩ := Cql.exists_of_hit_mem_cells_innermostGroup hcell
    rw [cellHidden?, handleGroup, Part.ofCell_rename_group, Cql.inner_cons_append]
    cases keepsGrouping quoteBare (Veiled.shape body) with
    | false => simp [Handling.hidden?, Hidden.literalized?, Part.literalized?, Part.group_rename,
        Text.enclose]
    | true =>
      cases body.isEmpty <;> simp [Handling.hidden?, Hidden.literalized?, Part.literalized?]

/-- The fragments that come back between quotes are the groups that are quoted. -/
theorem filterMap_literalized?_run {t : Text} (ht : Placeholder.hasSentinel t = false)
    (quoteBare : Bool) :
    ((start t).run [.quotedRuns, .groups quoteBare]).hidden.filterMap (Hidden.literalized?
        (meaning ((start t).run [.quotedRuns, .groups quoteBare]).hidden))
      = (parts quoteBare t).filterMap Part.literalized? := by
  have hread := reading_quotedRuns_of_run ht quoteBare
  generalize meaning ((start t).run [.quotedRuns, .groups quoteBare]).hidden = f at hread ⊢
  have hnone : ((Cql.quotedRun.cells (Veiled.ofText t)).filterMap
      (cellHidden? handleQuotedRun)).filterMap (Hidden.literalized? f) = [] := by
    rw [List.filterMap_filterMap, List.filterMap_eq_nil_iff]
    intro cell _
    rcases cell with a | u
    · rfl
    · simp [cellHidden?, handleQuotedRun, Handling.hidden?, Hidden.literalized?]
  rw [hidden_run, List.filterMap_append, hnone, List.nil_append, List.filterMap_filterMap, parts,
    ← hread, Recognizer.cells_rename, List.map_map, List.filterMap_map]
  exact List.filterMap_congr fun cell hcell ↦ literalized?_handleGroup quoteBare f hcell

end Outline

/-! ## Isolating characters

Isolating one character after the other is a fold, and everything that is said of it is said of one
character first. A view of the phrase follows the fold step by step if each step does to the view
something that can be told from it (`map_isolateAll`), and a view that no step changes stays as it
is. -/

/-- The reserved characters isolated, one after the other. -/
def isolateAll {α : Type} (cs : List Char) (s : Veiled α) : Veiled α :=
  cs.foldl (fun s c ↦ Outline.isolate c s) s

theorem rename_isolate {α β : Type} (f : α → β) (c : Char) (s : Veiled α) :
    Veiled.rename f (Outline.isolate c s) = Outline.isolate c (Veiled.rename f s) := by
  rw [Outline.isolate, Outline.isolate, Veiled.rename, Veiled.rename, List.map_flatMap,
    List.flatMap_map]
  refine List.flatMap_congr fun a _ ↦ ?_
  rcases a with d | i
  · simp only [Symbol.map, Veiled.ofText, List.map_map]
    rfl
  · rfl

theorem map_isolateAll {α β : Type} {view : Veiled α → β} (op : β → Char → β)
    (h : ∀ s c, op (view s) c = view (Outline.isolate c s)) (cs : List Char) (s : Veiled α) :
    view (isolateAll cs s) = cs.foldl op (view s) := (List.foldl_hom view h).symm

theorem rename_isolateAll {α β : Type} (f : α → β) (cs : List Char) (s : Veiled α) :
    Veiled.rename f (isolateAll cs s) = isolateAll cs (Veiled.rename f s) :=
  map_isolateAll (fun s c ↦ Outline.isolate c s) (fun s c ↦ (rename_isolate f c s).symm) cs s

theorem map_isolateAll_of_forall_eq {α β : Type} (view : Veiled α → β)
    (h : ∀ c s, view (Outline.isolate c s) = view s) (cs : List Char) (s : Veiled α) :
    view (isolateAll cs s) = view s :=
  (map_isolateAll (fun x _ ↦ x) (fun s c ↦ (h c s).symm) cs s).trans (List.foldl_fixed cs)

/-! ## Tokens -/

/-- The tokens of a veiled phrase: what lies between its spaces, written out, without empty ones. -/
def Veiled.tokens {α : Type} (f : α → Text) (s : Veiled α) : List Text :=
  ((Veiled.pieces s).map (Veiled.fill f)).filter (! ·.isEmpty)

theorem Veiled.tokens_rename {α β : Type} (f : β → Text) (g : α → β) (s : Veiled α) :
    tokens f (rename g s) = tokens (fun a ↦ f (g a)) s := by
  rw [tokens, tokens, pieces_rename, List.map_map]
  exact congrArg _ (List.map_congr_left fun p _ ↦ fill_rename f g p)

theorem Outline.restore_fill_of_reading {letters : Text}
    (hletters : ∀ c ∈ letters, c.isAlpha = true) (supply : KeySupply) {o : Outline}
    (ho : o.WellFormed) (hlen : o.hidden.length ≤ 2 ^ 64) {s : Veiled Nat}
    (hs : ∀ a ∈ s, Within o.hidden.length a) {u : Veiled (Veiled Text)}
    (hread : Veiled.rename (meaning o.hidden) s = Veiled.rename (Veiled.fill id) u) :
    (o.spell letters supply).table.restore (Veiled.fill (key letters supply) s)
      = Veiled.tokens (Veiled.fill id) u := by
  rw [restore_fill hletters hlen ho hs, ← Veiled.tokens]
  exact (Veiled.tokens_rename id _ s).symm.trans (hread ▸ Veiled.tokens_rename id _ u)

theorem length_normalize_le (input : Text) : (normalize input).length ≤ input.length :=
  Nat.le_trans (Text.length_normalizeSpace_le _) (List.length_filter_le _ _)

namespace Repairer

/-! ## Repairs

Everything below about a repair with its keys and tables is derived from two facts: its masked
phrase is a spelt outline, and the outline reads as the masked parts. The bound on the number of
fragments is needed for what is resolved, not for what is judged. -/

/-- The normalized phrase with its quoted runs and groups hidden. -/
def hideFragments (r : Repairer) (supply : KeySupply) (normalized : Text) : MaskedPhrase :=
  (MaskedPhrase.start r.settings.keyLetters supply normalized).run
    [.quotedRuns, .groups r.settings.quoteBareGroups]

/-- The outline of a phrase with its quoted runs and groups hidden. -/
def outline (r : Repairer) (t : Text) : Outline :=
  (Outline.start t).run [.quotedRuns, .groups r.settings.quoteBareGroups]

variable (r : Repairer) (supply : KeySupply) {t : Text}

theorem mask_eq (t : Text) :
    r.mask supply t = (r.hideFragments supply t).isolateReserved r.settings.reserved := rfl

theorem spell_outline (t : Text) :
    (r.outline t).spell r.settings.keyLetters supply = r.hideFragments supply t := by
  rw [outline, Outline.spell_run r.valid.2.1 _ (by simp), Outline.spell_start]
  rfl

theorem wellFormed_outline (ht : Placeholder.hasSentinel t = false) :
    (r.outline t).WellFormed :=
  Outline.wellFormed_run (Outline.wellFormed_start ht) (by simp)

theorem within_hidden (ht : Placeholder.hasSentinel t = false) {h : Outline.Hidden}
    (hh : h ∈ (r.outline t).hidden) :
    (∀ a ∈ h.content, Outline.Within (r.outline t).hidden.length a) ∧
      ∀ a ∈ h.replacement, Outline.Within (r.outline t).hidden.length a := by
  obtain ⟨i, hi⟩ := List.mem_iff_getElem?.mp hh
  have hlt := (List.getElem?_eq_some_iff.mp hi).1
  have hreplacement := fun a ha ↦
    (((r.wellFormed_outline ht).replacement i h hi).2 a ha).mono (Nat.le_of_lt hlt)
  refine ⟨fun a ha ↦ hreplacement a ?_, hreplacement⟩
  rcases Outline.proper_of_mem_hidden_run h hh with heq | heq
  · exact heq ▸ ha
  · exact heq ▸ List.mem_append_left _ (List.mem_cons_of_mem _ ha)

theorem fragments_mask (t : Text) : (r.mask supply t).fragments
    = Outline.spellHidden (key r.settings.keyLetters supply) 0 (r.outline t).hidden :=
  (congrArg MaskedPhrase.fragments (r.spell_outline supply t)).symm

theorem keys_repair (input : Text) : (r.repair supply input).masked.keys
    = (List.range (r.outline (normalize input)).hidden.length).map
        (key r.settings.keyLetters supply) :=
  (congrArg MaskedPhrase.keys (r.spell_outline supply _)).symm.trans Outline.keys_spell

theorem length_hidden_outline_le {input : Text} (hlen : input.length < 2 ^ 64) :
    (r.outline (normalize input)).hidden.length ≤ 2 ^ 64 :=
  Nat.le_trans (Outline.length_hidden_run_le (hasSentinel_normalize input) _)
    (Nat.le_trans (length_normalize_le input) (Nat.le_of_lt hlen))

/-- The parts of a phrase once it has been normalized. -/
def parts (r : Repairer) (input : Text) : List Part :=
  PhraseRepair.parts r.settings.quoteBareGroups (normalize input)

/-- The phrase of the report, with every fragment known by what it shows. -/
def maskedPhrase (r : Repairer) (input : Text) : Veiled (Veiled Text) :=
  isolateAll r.settings.reserved (maskedParts (r.parts input))

theorem reading_outline (ht : Placeholder.hasSentinel t = false) :
    Veiled.rename (meaning (r.outline t).hidden) (r.outline t).symbols
      = Veiled.rename (Veiled.fill id)
          (maskedParts (PhraseRepair.parts r.settings.quoteBareGroups t)) :=
  Outline.reading_run ht r.settings.quoteBareGroups

theorem phrase_mask (t : Text) : (r.mask supply t).phrase
    = Veiled.fill (key r.settings.keyLetters supply)
        (isolateAll r.settings.reserved (r.outline t).symbols) := by
  have hreserved : ∀ cs, MaskedPhrase.Step.reserved r.settings.reserved = .reserved cs →
      ∀ c ∈ cs, Settings.reservable c = true := by
    rintro cs hcs c hc
    cases hcs
    exact r.valid.2.2 c hc
  have hspell : ((r.outline t).step _).spell r.settings.keyLetters supply = _ :=
    Outline.spell_step r.valid.2.1 (r.outline t) hreserved
  rw [spell_outline] at hspell
  exact (congrArg MaskedPhrase.phrase hspell).symm

theorem within_isolateAll (ht : Placeholder.hasSentinel t = false) :
    ∀ a ∈ isolateAll r.settings.reserved (r.outline t).symbols,
      Outline.Within (r.outline t).hidden.length a := by
  have hwell := Outline.wellFormed_step (r.wellFormed_outline ht)
    (s := .reserved r.settings.reserved) (by
      rintro cs hcs c hc
      cases hcs
      exact r.valid.2.2 c hc)
  exact hwell.symbols

/-- **Validity.** Whether a phrase is a query is settled by the shape of its masked parts. -/
theorem valid_repair (input : Text) :
    (r.repair supply input).valid = Cql.phraseIsCql (Veiled.shape (r.maskedPhrase input)) := by
  have hread := congrArg (isolateAll r.settings.reserved)
    (r.reading_outline (hasSentinel_normalize input))
  rw [← rename_isolateAll, ← rename_isolateAll] at hread
  have hshape := congrArg Veiled.shape hread
  rw [Veiled.shape_rename, Veiled.shape_rename] at hshape
  rw [Report.valid, repair, phrase_mask,
    Cql.phraseIsCql_fill (Outline.isVeil_key r.valid.2.1), hshape]
  rfl

/-- **Tokens.** The tokens of a phrase are the pieces of its masked parts, written out. -/
theorem tokens_repair {input : Text}
    (hcount : (r.outline (normalize input)).hidden.length ≤ 2 ^ 64) :
    (r.repair supply input).tokens = Veiled.tokens (Veiled.fill id) (r.maskedPhrase input) := by
  have ht := hasSentinel_normalize input
  have hread := congrArg (isolateAll r.settings.reserved) (r.reading_outline ht)
  rw [← rename_isolateAll, ← rename_isolateAll] at hread
  have hrestore := Outline.restore_fill_of_reading r.valid.2.1 supply
    (r.wellFormed_outline ht) hcount (r.within_isolateAll ht) hread
  rw [spell_outline] at hrestore
  rw [Report.tokens, repair, phrase_mask]
  exact hrestore

theorem resolve_fill_repair {input : Text}
    (hcount : (r.outline (normalize input)).hidden.length ≤ 2 ^ 64) {s : Veiled Nat}
    (hs : ∀ a ∈ s, Outline.Within (r.outline (normalize input)).hidden.length a) :
    (r.repair supply input).masked.table.resolve
        (Veiled.fill (key r.settings.keyLetters supply) s)
      = Veiled.fill (meaning (r.outline (normalize input)).hidden) s := by
  have hresolve : ((r.outline _).spell r.settings.keyLetters supply).table.resolve _ = _ :=
    Outline.resolve_fill r.valid.2.1 hcount (r.wellFormed_outline (hasSentinel_normalize input)) hs
  rw [spell_outline] at hresolve
  exact hresolve

/-- **Quoted groups.** What comes back between quotes are the quoted parts. -/
theorem literalized_repair {input : Text}
    (hcount : (r.outline (normalize input)).hidden.length ≤ 2 ^ 64) :
    (r.repair supply input).masked.literalized.map
        (fun f ↦ (r.repair supply input).masked.table.resolve f.content)
      = (r.parts input).filterMap Part.literalized? := by
  have ht := hasSentinel_normalize input
  have hresolve := fun h hh ↦ r.resolve_fill_repair supply hcount (r.within_hidden (h := h) ht hh).1
  rw [MaskedPhrase.literalized, repair, r.fragments_mask]
  exact (Outline.map_literalized_spellHidden Outline.proper_of_mem_hidden_run hresolve 0).trans
    (Outline.filterMap_literalized?_run ht r.settings.quoteBareGroups)

end Repairer

end PhraseRepair
