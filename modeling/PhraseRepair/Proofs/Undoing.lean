import PhraseRepair.Proofs.Reports

/-!
# Restoration undoes masking

Where no reserved character has been isolated, the tokens of a repair joined by spaces are the
normalized phrase again, apart from the quotes around the groups that were quoted
(`restoration_undoes_masking`).

The masked sides of the parts, written out, are their restored sides. What has to be shown is that
cutting at spaces, dropping empty tokens and joining lose nothing. A normalized phrase has single
spaces, and since no part but a character starts or ends with a space, neither have its masked parts
two spaces side by side.

The bound on the length of a phrase is one that every text in memory keeps. It means that the
numbers of its placeholders do not repeat.
-/

namespace PhraseRepair

/-! ## Where hidden fragments come from

Whatever is out of sight in a part is a quoted run of the phrase. In particular it is not empty, so
no token is dropped that should not be. -/

theorem exists_of_hidden_mem_hideRuns {t run : Text} (h : .hidden run ∈ hideRuns t) :
    ∃ body, run = Text.enclose '"' '"' body ∧ '"' ∉ body := by
  obtain ⟨item, hitem, hrun⟩ := List.mem_map.mp h
  rcases item with c | m
  · exact absurd hrun (by simp)
  · obtain rfl : m.text = run := by simpa using hrun
    have hcell : Cell.hit (Veiled.ofText m.text : Veiled Nat)
        ∈ Cql.quotedRun.cells (Veiled.ofText t) := by
      rw [Recognizer.cells_ofText]
      exact List.mem_map.mpr ⟨_, hitem, rfl⟩
    obtain ⟨u, n, hread, hn⟩ := Cql.quotedRun.exists_read_of_hit_mem_cells hcell
    rw [Veiled.shape_ofText] at hn
    obtain ⟨body, hbody, -, rfl⟩ := Cql.read_quotedRun_eq_some_iff.mp hread
    exact ⟨body, hn.symm, hbody⟩

theorem mem_hideRuns_of_mem_cells {t : Text} {cell : Cell Text}
    (h : cell ∈ Cql.innermostGroup.cells (hideRuns t)) {a : Symbol Text} (ha : a ∈ cell.symbols) :
    a ∈ hideRuns t := by
  rw [← Cql.innermostGroup.flatMap_symbols_cells (hideRuns t)]
  exact List.mem_flatMap.mpr ⟨cell, h, ha⟩

/-- The symbols that a part is about. -/
def Part.symbols : Part → Veiled Text
  | plain a => [a]
  | kept body => body
  | quoted body => body

theorem mem_hideRuns_of_mem_parts {quoteBare : Bool} {t : Text} {p : Part}
    (hp : p ∈ parts quoteBare t) {a : Symbol Text} (ha : a ∈ p.symbols) : a ∈ hideRuns t := by
  obtain ⟨cell, hcell, rfl⟩ := List.mem_map.mp hp
  refine mem_hideRuns_of_mem_cells hcell ?_
  rcases cell with b | u
  · exact ha
  · have hinner : a ∈ Cql.inner u := by
      rw [Part.ofCell] at ha
      split at ha <;> exact ha
    exact Cql.mem_of_mem_inner hinner

theorem fill_ne_nil_of_hidden_mem_maskedParts {quoteBare : Bool} {t : Text} {u : Veiled Text}
    (h : .hidden u ∈ maskedParts (parts quoteBare t)) : Veiled.fill id u ≠ [] := by
  obtain ⟨p, hp, hu⟩ := List.mem_flatMap.mp h
  have hrun : ∀ run, .hidden run ∈ p.symbols → run ≠ [] := by
    intro run hmem
    obtain ⟨body, rfl, -⟩ := exists_of_hidden_mem_hideRuns (mem_hideRuns_of_mem_parts hp hmem)
    exact Text.enclose_ne_nil _ _ _
  rcases p with a | body | body
  · rcases a with c | run
    · simp [Part.masked] at hu
    · obtain rfl : u = [.hidden run] := by simpa [Part.masked] using hu
      simpa using hrun run List.mem_cons_self
  · rw [Part.masked] at hu
    split at hu
    · simp at hu
    · next hempty =>
      -- The body of a kept group is not empty here, and its first symbol writes something.
      obtain rfl : u = body := by simpa using hu
      cases u with
      | nil => exact absurd rfl hempty
      | cons a u =>
        rw [Veiled.fill_cons]
        rcases a with c | run
        · simp [Symbol.write]
        · exact List.append_ne_nil_of_left_ne_nil (hrun run List.mem_cons_self) _
  · -- A quoted group holds its quotes in any case.
    obtain rfl : u = [.hidden (Text.enclose '"' '"' (Part.group body))] := by
      simpa [Part.masked] using hu
    simp [Text.enclose]

/-! ## Cutting and joining

If no piece is empty, nothing is dropped, and joining with spaces puts back what cutting has taken
away. That masking leaves no empty piece is shown by following the phrase and its masked parts with
`separated` side by side: a part that is no character begins and ends with a delimiter, and a single
fragment in its place does the same for the pieces around it. -/

/-- Masking a phrase without empty pieces leaves no empty pieces. -/
theorem separated_maskedParts {quoteBare : Bool} {t : Text} {ps : List Part}
    (hps : ∀ p ∈ ps, p ∈ parts quoteBare t) {fresh : Bool}
    (h : Text.separated (· == ' ') fresh (ps.flatMap Part.source) = true) :
    Text.separated Symbol.isSpace fresh (maskedParts ps) = true := by
  induction ps generalizing fresh with
  | nil => exact h
  | cons p ps ih =>
    have hp := hps p List.mem_cons_self
    have hps' := fun q hq ↦ hps q (List.mem_cons_of_mem p hq)
    rw [maskedParts, List.flatMap_cons, ← maskedParts]
    rw [List.flatMap_cons] at h
    -- A group ends with a parenthesis, so a piece goes on behind it.
    have hgroup : ∀ body, Text.separated (· == ' ') fresh
        (Part.group body ++ ps.flatMap Part.source) = true →
        Text.separated Symbol.isSpace false (maskedParts ps) = true := by
      intro body h
      rw [Part.group, Text.enclose, List.append_assoc, List.singleton_append] at h
      exact ih hps' (Text.separated_of_append (by decide) h)
    rcases p with a | body | body
    · rcases a with c | run
      · simp only [Part.source, Symbol.write, Part.masked, List.singleton_append, Text.separated,
          Symbol.isSpace, beq_iff_eq, decide_eq_true_eq] at h ⊢
        by_cases hc : c = ' '
        · rw [if_pos hc, Bool.and_eq_true] at h ⊢
          exact ⟨h.1, ih hps' h.2⟩
        · rw [if_neg hc] at h ⊢
          exact ih hps' h
      · obtain ⟨body, rfl, -⟩ :=
          exists_of_hidden_mem_hideRuns (mem_hideRuns_of_mem_parts hp List.mem_cons_self)
        rw [Part.source, Symbol.write, id_eq, Text.enclose, List.append_assoc,
          List.singleton_append] at h
        exact ih hps' (Text.separated_of_append (by decide) h)
    · have h := hgroup body h
      rw [Part.masked]
      split <;> exact h
    · exact hgroup body h

theorem eq_nil_or_separated_maskedParts (quoteBare : Bool) {t : Text} (ht : Text.Spaced t) :
    maskedParts (parts quoteBare t) = [] ∨
      Text.separated Symbol.isSpace true (maskedParts (parts quoteBare t)) = true := by
  rcases ht.2 with rfl | hseparated
  · exact Or.inl rfl
  · refine Or.inr (separated_maskedParts (fun _ h ↦ h) ?_)
    rwa [flatMap_source_parts]

/-- Where no piece is empty, joining the tokens of a phrase with spaces writes the phrase out. -/
theorem Veiled.joinWith_tokens {α : Type} {f : α → Text} {s : Veiled α}
    (hs : s = [] ∨ Text.separated Symbol.isSpace true s = true)
    (hf : ∀ a, .hidden a ∈ s → f a ≠ []) (separator : Text) :
    Text.joinWith separator (tokens f s)
      = s.flatMap fun a ↦ if a.isSpace then separator else a.write f := by
  rw [← Text.intercalate_map_splitOnP Symbol.isSpace separator (Symbol.write f) s]
  rcases hs with rfl | hs
  · rfl
  · rw [Text.separated_true_iff] at hs
    rw [tokens, List.filter_eq_self.mpr]
    · rfl
    · intro w hw
      obtain ⟨p, hp, rfl⟩ := List.mem_map.mp hw
      cases p with
      | nil => exact absurd hp hs
      | cons a p =>
        rw [fill_cons]
        rcases a with c | i
        · rfl
        · have hi := hf i (Text.mem_of_mem_splitOnP hp List.mem_cons_self)
          simpa [Symbol.write] using fun h ↦ absurd h hi

theorem Part.fill_masked (p : Part) : Veiled.fill (Veiled.fill id) p.masked = p.restored := by
  rcases p with a | body | body
  · rcases a with c | run
    · rfl
    · simp [masked, restored, Symbol.write]
  · rw [masked]
    split
    · next hempty =>
      rw [List.isEmpty_iff.mp hempty]
      rfl
    · simp [restored, group, Text.enclose]
  · simp [masked, restored]

theorem fill_maskedParts (ps : List Part) :
    Veiled.fill (Veiled.fill id) (maskedParts ps) = ps.flatMap Part.restored := by
  rw [maskedParts, Veiled.fill, List.flatMap_assoc]
  exact List.flatMap_congr fun p _ ↦ p.fill_masked

theorem spaced_normalize (input : Text) : Text.Spaced (normalize input) :=
  Text.spaced_normalizeSpace _

theorem joinWith_tokens_maskedParts (quoteBare : Bool) {t : Text} (ht : Text.Spaced t) :
    Text.joinWith [' '] (Veiled.tokens (Veiled.fill id) (maskedParts (parts quoteBare t)))
      = (parts quoteBare t).flatMap Part.restored := by
  rw [Veiled.joinWith_tokens (eq_nil_or_separated_maskedParts quoteBare ht)
    fun u ↦ fill_ne_nil_of_hidden_mem_maskedParts, ← fill_maskedParts, Veiled.flatMap_ite_isSpace]

/-! ## The theorem -/

theorem flatMap_restored_of_literalized {ps : List Part}
    (h : ps.filterMap Part.literalized? = []) :
    ps.flatMap Part.restored = ps.flatMap Part.source := by
  refine List.flatMap_congr fun p hp ↦ ?_
  rcases p with a | body | body
  · rfl
  · rfl
  · exact absurd (List.filterMap_eq_nil_iff.mp h _ hp) (by simp [Part.literalized?])

section Undoing

variable (r : Repairer) (supply : KeySupply) {input : Text}

theorem joinWith_tokens_repair
    (hcount : (r.outline (normalize input)).hidden.length ≤ 2 ^ 64)
    (hescape : (r.hideFragments supply (normalize input)).isolateReserved r.settings.reserved
      = r.hideFragments supply (normalize input)) :
    Text.joinWith [' '] (r.repair supply input).tokens = (r.parts input).flatMap Part.restored := by
  have ht := hasSentinel_normalize input
  have hrestore := Outline.restore_fill_of_reading r.valid.2.1 supply
    (r.wellFormed_outline ht) hcount (r.wellFormed_outline ht).symbols (r.reading_outline ht)
  have htokens : (r.repair supply input).tokens
      = Veiled.tokens (Veiled.fill id) (maskedParts (r.parts input)) := by
    rw [Report.tokens, Repairer.repair, r.mask_eq, hescape, ← r.spell_outline, Repairer.parts,
      ← hrestore]
    rfl
  rw [htokens]
  exact joinWith_tokens_maskedParts _ (spaced_normalize input)

/-- A query no part of which is quoted is repaired to its normalized form. -/
theorem output_repair_of_valid
    (hcount : (r.outline (normalize input)).hidden.length ≤ 2 ^ 64)
    (hescape : (r.hideFragments supply (normalize input)).isolateReserved r.settings.reserved
      = r.hideFragments supply (normalize input))
    (hvalid : (r.repair supply input).valid = true)
    (hnone : (r.parts input).filterMap Part.literalized? = []) :
    (r.repair supply input).output = normalize input := by
  rw [Report.output, joinTokens, if_pos hvalid, joinWith_tokens_repair r supply hcount hescape,
    flatMap_restored_of_literalized hnone]
  exact flatMap_source_parts r.settings.quoteBareGroups (normalize input)

/-- **Restoration undoes masking.** The parts of a phrase are what its normalized form is made of.
Where no reserved character is isolated, the tokens joined by spaces are the restored parts: they
have a quote before and behind each group whose fragment came back other than it went, and are the
parts themselves elsewhere. So a query no group of which is quoted is repaired to its normalized
form. The placeholder numbers last for every phrase that fits in memory. -/
theorem restoration_undoes_masking (hlen : input.length < 2 ^ 64)
    (hescape : (r.hideFragments supply (normalize input)).isolateReserved r.settings.reserved
      = r.hideFragments supply (normalize input)) :
    (r.parts input).flatMap Part.source = normalize input ∧
      (r.repair supply input).masked.literalized.map
          (fun f ↦ (r.repair supply input).masked.table.resolve f.content)
        = (r.parts input).filterMap Part.literalized? ∧
      Text.joinWith [' '] (r.repair supply input).tokens = (r.parts input).flatMap Part.restored ∧
      ((r.repair supply input).valid = true →
        (r.repair supply input).masked.literalized = [] →
        (r.repair supply input).output = normalize input) := by
  have hcount := r.length_hidden_outline_le hlen
  have hliteralized := r.literalized_repair supply hcount
  refine ⟨flatMap_source_parts r.settings.quoteBareGroups (normalize input), hliteralized,
    joinWith_tokens_repair r supply hcount hescape, fun hvalid hnone ↦ ?_⟩
  rw [hnone, List.map_nil] at hliteralized
  exact output_repair_of_valid r supply hcount hescape hvalid hliteralized.symm

end Undoing

/-- Of two groups, one is quoted and the other keeps its grouping. -/
theorem restoration_undoes_masking_of_two_groups :
    Text.joinWith [' '] (({} : Repairer).repair {} "a  (b \"c d\") (e or f)".toList).tokens
      = "a \"(b \"c d\")\" (e or f)".toList :=
  (restoration_undoes_masking {} {} (by decide +kernel) (by decide +kernel)).2.2.1.trans
    (by decide +kernel)

end PhraseRepair
