import PhraseRepair.Proofs.Gathering

/-!
# Quotes within quotes

A group that does not keep its grouping comes back between quotes. Whether there are quotes within
these is a matter of what the group holds: there are two for each quoted run in its body, besides
the outer ones (`quotes_of_literalized`). A group with a quoted run in it is never quoted as a bare
group. It is judged by whether its body can stand as CQL, and so quotes are never nested exactly if
each group of this kind passes that test.

The test is passed by a quoted run alone and by one next to an operator. It fails where quoted runs
or words stand side by side, and such a group is quoted together with the runs that it holds.
-/

namespace PhraseRepair

/-- The value of an item that is a match. -/
def Item.value? : Item → Option Text
  | plain _ => none
  | hit m => some m.value

/-- The bodies of the innermost groups of a phrase, with its quoted runs out of sight. -/
def groupBodies (t : Text) : List Text :=
  (Cql.innermostGroup.scan (visible t)).filterMap Item.value?

/-! ## Counting quotes

With its quoted runs out of sight, a group shows an opening sentinel for each of them, and there are
no other sentinels. So its quotes can be counted in what is visible of it, which is also what
decides whether it keeps its grouping. -/

theorem count_quote_fill {s : Veiled Text} (hpaired : ∀ a ∈ s, a.Paired) (hclean : s.Clean) :
    (Veiled.fill id s).count '"' = 2 * (Veiled.shape s).count Placeholder.opening := by
  induction s with
  | nil => rfl
  | cons a s ih =>
    have ih := ih (fun b hb ↦ hpaired b (List.mem_cons_of_mem _ hb))
      fun c hc ↦ hclean c (List.mem_cons_of_mem _ hc)
    have ha := hpaired a List.mem_cons_self
    rcases a with c | run
    · have hc : c ≠ Placeholder.opening := by
        rintro rfl
        exact absurd (hclean _ List.mem_cons_self) (by decide)
      rw [Veiled.fill_plain, List.count_cons_of_ne ha, Veiled.shape_cons, Symbol.shape,
        List.count_cons_of_ne hc, ih]
    · obtain ⟨body, rfl, hbody⟩ := ha
      rw [Veiled.fill_hidden, id_eq, List.count_append, Text.count_enclose_quotes,
        List.count_eq_zero_of_not_mem hbody, ih, Veiled.shape_cons, Symbol.shape,
        List.count_cons_self]
      omega

theorem clean_hideRuns {t : Text} (ht : Placeholder.hasSentinel t = false) :
    (hideRuns t).Clean := by
  intro c hc
  have hmem : c ∈ t := by
    rw [← fill_hideRuns t]
    exact List.mem_flatMap.mpr ⟨_, hc, List.mem_singleton_self c⟩
  exact Placeholder.hasSentinel_eq_false_iff.mp ht c hmem

/-! ## Groups and their bodies

The bodies are listed from the scan of the visible phrase and the quoted parts from the cells of the
phrase. The two lists are compared cell by cell. -/

/-- The body that a cell shows, if it is a group. -/
private def Cell.body? : Cell Text → Option Text
  | plain _ => none
  | hit u => some (Veiled.shape (Cql.inner u))

private theorem groupBodies_eq (t : Text) :
    groupBodies t = (Cql.innermostGroup.cells (hideRuns t)).filterMap Cell.body? := by
  rw [groupBodies, scan_visible, List.filterMap_flatMap, List.filterMap_eq_flatMap_toList]
  refine List.flatMap_congr fun cell _ ↦ ?_
  rcases cell with a | u
  · rcases a with c | run <;> rfl
  · rfl

private theorem count_quote_group {t : Text} (ht : Placeholder.hasSentinel t = false)
    (heven : t.count '"' % 2 = 0) {u : Veiled Text}
    (hu : .hit u ∈ Cql.innermostGroup.cells (hideRuns t)) :
    (Text.enclose '"' '"' (Part.group (Cql.inner u))).count '"'
      = 2 + 2 * (Veiled.shape (Cql.inner u)).count Placeholder.opening := by
  have hmem : ∀ a ∈ Cql.inner u, a ∈ hideRuns t := fun a ha ↦
    mem_hideRuns_of_mem_cells hu (Cql.mem_of_mem_inner ha)
  have hcount := count_quote_fill (fun a ha ↦ paired_of_mem_hideRuns heven (hmem a ha))
    fun c hc ↦ clean_hideRuns ht c (hmem _ hc)
  rw [Text.count_enclose_quotes, Part.group, Text.enclose, List.count_append,
    List.count_cons_of_ne (by decide), hcount, show [')'].count '"' = 0 from rfl]
  omega

/-- The quotes of the quoted parts can be told from the bodies of the groups. -/
theorem count_quote_literalized?_parts {t : Text} (ht : Placeholder.hasSentinel t = false)
    (heven : t.count '"' % 2 = 0) (quoteBare : Bool) :
    ((parts quoteBare t).filterMap Part.literalized?).map
        (fun g ↦ (Text.enclose '"' '"' g).count '"')
      = ((groupBodies t).filter fun body ↦ !keepsGrouping quoteBare body).map
          fun body ↦ 2 + 2 * body.count Placeholder.opening := by
  rw [parts, List.filterMap_map, List.map_filterMap, groupBodies_eq, List.filter_filterMap,
    List.map_filterMap]
  -- Cell by cell, a group is on both lists or on neither.
  refine List.filterMap_congr fun cell hcell ↦ ?_
  rcases cell with a | u
  · rfl
  · rw [Function.comp_apply, Part.ofCell, Cell.body?]
    cases hkeeps : keepsGrouping quoteBare (Veiled.shape (Cql.inner u)) with
    | false =>
      simp [Part.literalized?, Option.filter_some, hkeeps, count_quote_group ht heven hcell]
    | true => simp [Part.literalized?, Option.filter_some, hkeeps]

theorem keepsGrouping_of_opening_mem {body : Text} (hbody : Placeholder.opening ∈ body)
    (quoteBare : Bool) : keepsGrouping quoteBare body = Cql.isCql body := by
  have hsentinel : Placeholder.hasSentinel body = true :=
    List.any_eq_true.mpr ⟨_, hbody, by decide⟩
  rw [keepsGrouping, hsentinel, Bool.not_true, Bool.and_false, if_neg Bool.false_ne_true]

/-! ## The theorem -/

section Nesting

variable (r : Repairer) (supply : KeySupply) {input : Text}

theorem resolve_replacement_of_mem_literalized
    (hcount : (r.outline (normalize input)).hidden.length ≤ 2 ^ 64) {f : Fragment}
    (hf : f ∈ (r.repair supply input).masked.literalized) :
    (r.repair supply input).masked.table.resolve f.replacement
      = Text.enclose '"' '"' ((r.repair supply input).masked.table.resolve f.content) := by
  have ht := hasSentinel_normalize input
  obtain ⟨hmem, hne⟩ := List.mem_filter.mp hf
  rw [Repairer.repair, r.fragments_mask] at hmem
  obtain ⟨i, hi⟩ := List.mem_iff_getElem?.mp hmem
  rw [Outline.getElem?_spellHidden, Option.map_eq_some_iff] at hi
  obtain ⟨h, hh, rfl⟩ := hi
  have hh := List.mem_of_getElem? hh
  obtain ⟨hcontent, hreplacement⟩ := r.within_hidden ht hh
  rw [r.resolve_fill_repair supply hcount hcontent,
    r.resolve_fill_repair supply hcount hreplacement]
  -- A fragment is literalized only if its replacement differs from it, and so by its quotes.
  rcases Outline.proper_of_mem_hidden_run h hh with heq | heq
  · exact absurd (congrArg _ heq) (by simpa using hne)
  · rw [heq, Cql.fill_enclose]

theorem count_quote_literalized (hcount : (r.outline (normalize input)).hidden.length ≤ 2 ^ 64)
    (heven : (normalize input).count '"' % 2 = 0) :
    (r.repair supply input).masked.literalized.map
        (fun f ↦ ((r.repair supply input).masked.table.resolve f.replacement).count '"')
      = ((groupBodies (normalize input)).filter
            fun body ↦ !keepsGrouping r.settings.quoteBareGroups body).map
          fun body ↦ 2 + 2 * body.count Placeholder.opening := by
  have hparts := congrArg (List.map fun g ↦ (Text.enclose '"' '"' g).count '"')
    (r.literalized_repair supply hcount)
  rw [List.map_map, Repairer.parts,
    count_quote_literalized?_parts (hasSentinel_normalize input) heven] at hparts
  rw [← hparts]
  refine List.map_congr_left fun f hf ↦ ?_
  rw [resolve_replacement_of_mem_literalized r supply hcount hf, Function.comp_apply]

/-- **Quotes within quotes.** In a phrase with paired quotes, a group that comes back between quotes
holds two quotes for each quoted run in its body, and the two outer ones. So it holds just the outer
ones, whatever else the phrase is made of, exactly if every group with a quoted run in it can stand
as CQL. The placeholder numbers last for every phrase that fits in memory. -/
theorem quotes_of_literalized (hlen : input.length < 2 ^ 64)
    (heven : (normalize input).count '"' % 2 = 0) :
    (r.repair supply input).masked.literalized.map
        (fun f ↦ ((r.repair supply input).masked.table.resolve f.replacement).count '"')
      = ((groupBodies (normalize input)).filter
            fun body ↦ !keepsGrouping r.settings.quoteBareGroups body).map
          (fun body ↦ 2 + 2 * body.count Placeholder.opening) ∧
      ((∀ f ∈ (r.repair supply input).masked.literalized,
          ((r.repair supply input).masked.table.resolve f.replacement).count '"' = 2) ↔
        ∀ body ∈ groupBodies (normalize input),
          Placeholder.opening ∈ body → Cql.isCql body = true) := by
  have hmap := count_quote_literalized r supply (r.length_hidden_outline_le hlen) heven
  refine ⟨hmap, ?_⟩
  -- Both sides say that the groups that are quoted have no quoted run in their bodies.
  rw [← List.forall_mem_map (P := (· = 2)), hmap, List.forall_mem_map]
  refine ⟨fun h body hbody hopening ↦ ?_, fun h body hbody ↦ ?_⟩
  · by_contra hcql
    rw [← keepsGrouping_of_opening_mem hopening r.settings.quoteBareGroups] at hcql
    have htwo := h body (List.mem_filter.mpr ⟨hbody, by simpa using hcql⟩)
    have hpos := List.count_pos_iff.mpr hopening
    omega
  · obtain ⟨hbody, hkeeps⟩ := List.mem_filter.mp hbody
    have hnotMem : Placeholder.opening ∉ body := by
      intro hopening
      rw [keepsGrouping_of_opening_mem hopening, h body hbody hopening] at hkeeps
      exact absurd hkeeps (by decide)
    rw [List.count_eq_zero_of_not_mem hnotMem]

end Nesting

/-- A quoted run alone and one next to an operator keep their groups, and a bare group is quoted. -/
theorem quotes_of_literalized_without_nesting :
    (({} : Repairer).repair {} "(\"a\") (b c) (\"d\" or e)".toList).masked.literalized.map
      (fun f ↦ ((({} : Repairer).repair {}
        "(\"a\") (b c) (\"d\" or e)".toList).masked.table.resolve f.replacement).count '"') = [2] :=
  (quotes_of_literalized {} {} (by decide +kernel) (by decide +kernel)).1.trans (by decide +kernel)

/-- Two quoted runs side by side are quoted together with their group. -/
theorem quotes_nest_in_mixed_group :
    (normalize "(\"a\" \"b\")".toList).count '"' % 2 = 0 ∧
      (({} : Repairer).repair {} "(\"a\" \"b\")".toList).masked.literalized.map
          (fun f ↦ ((({} : Repairer).repair {}
            "(\"a\" \"b\")".toList).masked.table.resolve f.replacement).count '"') = [6] := by
  decide +kernel

end PhraseRepair
