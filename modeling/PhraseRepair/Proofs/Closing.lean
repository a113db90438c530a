import PhraseRepair.Proofs.Acceptance
import PhraseRepair.Proofs.Undoing

/-!
# Closing groups

Where every innermost group keeps its grouping, masking a phrase *closes* its groups: what stands
between the two parentheses becomes one hidden fragment, and everything else stays. Closing groups
cannot make a phrase unreadable, and where a phrase can be read from left to right, the body of each
innermost group can stand as CQL (`outcome_closeGroups`).

This leads to a criterion for a phrase that a repair leaves as it is (`unchanged_of_accepted`),
which speaks about the text that is left when only the quoted runs are out of sight.
-/

namespace PhraseRepair

namespace Cql

/-- A group with something else than nothing between its parentheses, once it is closed. -/
def closed (body : Text) : Text :=
  if body.isEmpty then ['(', ')'] else ['(', Placeholder.opening, ')']

/-- The text with its innermost groups closed. -/
def closeGroups (t : Text) : Text := innermostGroup.substitute (fun m ↦ closed m.value) t

/-! ## Scanning for groups

A scan for groups looks at parentheses only, so a text is taken apart at its first one
(`group_induction`). If that opens something which is no innermost group, another one opens before
it is closed, and it stays in sight on its own. No group reaches across an opening parenthesis, so a
scan falls apart in front of every innermost group, whatever has been left open before it
(`scan_append_group`). -/

theorem scan_group {body : Text} (hbody : ∀ c ∈ body, isParen c = false) (t : Text) :
    innermostGroup.scan (Text.enclose '(' ')' body ++ t)
      = .hit ⟨Text.enclose '(' ')' body, body⟩ :: innermostGroup.scan t :=
  innermostGroup.scan_match_append (m := ⟨_, body⟩) (read_group hbody t)

theorem scan_closing (t : Text) :
    innermostGroup.scan (')' :: t) = .plain ')' :: innermostGroup.scan t := by
  refine innermostGroup.scan_of_read_none ?_
  simp [innermostGroup, Text.enclosed?]

theorem scan_of_isParen_eq_false {x : Text} (hx : ∀ c ∈ x, isParen c = false) (t : Text) :
    innermostGroup.scan (x ++ t) = x.map .plain ++ innermostGroup.scan t :=
  passesOver_innermostGroup (fun h ↦ absurd (hx _ h) (by decide)) t

theorem eq_of_isParen {c : Char} (h : isParen c = true) : c = '(' ∨ c = ')' := by
  simpa [isParen] using h

theorem isParen_of_mem {cs : List Char} (h : '(' ∉ cs ∧ ')' ∉ cs) {c : Char} (hc : c ∈ cs) :
    isParen c = false := by
  refine Bool.eq_false_iff.mpr fun hparen ↦ ?_
  rcases eq_of_isParen hparen with rfl | rfl
  · exact h.1 hc
  · exact h.2 hc

/-- **Induction along the parentheses of a text.** A text has no parenthesis, or its first one
closes something, or opens an innermost group, or opens something else. -/
@[elab_as_elim]
theorem group_induction {motive : Text → Prop}
    (free : ∀ x, (∀ c ∈ x, isParen c = false) → motive x)
    (closing : ∀ x y, (∀ c ∈ x, isParen c = false) → motive y → motive (x ++ ')' :: y))
    (group : ∀ x body y, (∀ c ∈ x, isParen c = false) → (∀ c ∈ body, isParen c = false) →
      motive y → motive (x ++ (Text.enclose '(' ')' body ++ y)))
    (opening : ∀ x y, (∀ c ∈ x, isParen c = false) → innermostGroup.read ('(' :: y) = none →
      motive y → motive (x ++ '(' :: y)) (t : Text) : motive t := by
  induction hn : t.length using Nat.strongRecOn generalizing t with
  | ind n ih =>
    rcases Text.exists_first isParen t with hfree | ⟨x, c, y, rfl, hx, hc⟩
    · exact free t hfree
    · have hlen : y.length < n := by
        rw [← hn, List.length_append, List.length_cons]
        omega
      rcases eq_of_isParen hc with rfl | rfl
      · cases hread : innermostGroup.read ('(' :: y) with
        -- This opens no innermost group, and what follows may open one.
        | none => exact opening x y hx hread (ih y.length hlen y rfl)
        | some m =>
          obtain ⟨body, hbody, ⟨rest, hrest⟩, rfl⟩ := read_innermostGroup_eq_some_iff.mp hread
          have hshort : rest.length < n := by
            have hlength := congrArg List.length hrest
            simp only [Text.enclose, List.length_append, List.length_cons] at hlength
            omega
          rw [← hrest]
          exact group x body rest hx hbody (ih rest.length hshort rest rfl)
      · exact closing x y hx (ih y.length hlen y rfl)

theorem closeGroups_append {x : Text} (hx : ∀ c ∈ x, isParen c = false) (t : Text) :
    closeGroups (x ++ t) = x ++ closeGroups t :=
  Recognizer.substitute_append (scan_of_isParen_eq_false hx) _ t

theorem closeGroups_of_isParen_eq_false {x : Text} (hx : ∀ c ∈ x, isParen c = false) :
    closeGroups x = x := by
  have h := closeGroups_append hx []
  rwa [show closeGroups [] = [] from rfl, List.append_nil] at h

theorem closeGroups_closing (t : Text) : closeGroups (')' :: t) = ')' :: closeGroups t := by
  rw [closeGroups, Recognizer.substitute, scan_closing]
  rfl

theorem closeGroups_group {body : Text} (hbody : ∀ c ∈ body, isParen c = false) (t : Text) :
    closeGroups (Text.enclose '(' ')' body ++ t) = closed body ++ closeGroups t := by
  rw [closeGroups, Recognizer.substitute, scan_group hbody]
  rfl

theorem closeGroups_of_read_none {t : Text} (h : innermostGroup.read ('(' :: t) = none) :
    closeGroups ('(' :: t) = '(' :: closeGroups t := by
  rw [closeGroups, Recognizer.substitute, innermostGroup.scan_of_read_none h]
  rfl

theorem enclosed?_append {o c : Char} {inside : Char → Bool} {t : Text}
    (h : ∃ d ∈ t.tail, inside d = false) (u : Text) :
    Text.enclosed? o c inside (t ++ u) = Text.enclosed? o c inside t := by
  obtain ⟨d, hd, hinside⟩ := h
  cases t with
  | nil => exact absurd hd List.not_mem_nil
  | cons e t =>
    rw [List.cons_append, Text.enclosed?, Text.enclosed?]
    rcases Text.exists_first (! inside ·) t with hfree | ⟨x, f, y, rfl, hx, hf⟩
    · exact absurd hinside (by simpa using hfree d hd)
    · have hx : ∀ g ∈ x, inside g = true := fun g hg ↦ by simpa using hx g hg
      have hf : ¬ inside f = true := by simpa using hf
      rw [List.append_assoc, List.cons_append, List.dropWhile_append_of_pos hx,
        List.dropWhile_append_of_pos hx, List.takeWhile_append_of_pos hx,
        List.takeWhile_append_of_pos hx, List.dropWhile_cons_of_neg hf,
        List.dropWhile_cons_of_neg hf, List.takeWhile_cons_of_neg hf,
        List.takeWhile_cons_of_neg hf]
      rfl

/-- No run reaches across a character that is neither inside it nor closes it. -/
private theorem enclosed?_append_cons {o c e : Char} {inside : Char → Bool}
    (he : inside e = false) (hne : e ≠ c) {u : Text} (hu : u ≠ []) (y : Text) :
    Text.enclosed? o c inside (u ++ e :: y) = Text.enclosed? o c inside u := by
  obtain ⟨d, u, rfl⟩ := List.exists_cons_of_ne_nil hu
  by_cases hend : ∃ f ∈ u, inside f = false
  · exact enclosed?_append (t := d :: u) hend _
  · -- The run reaches the joint, and nothing closes it there.
    have hinside : ∀ f ∈ u, inside f = true := by simpa using hend
    have hdrop : u.dropWhile inside = [] := by
      rw [← List.append_nil u, List.dropWhile_append_of_pos hinside, List.dropWhile_nil]
    rw [List.cons_append, Text.enclosed?, Text.enclosed?, List.dropWhile_append_of_pos hinside,
      List.dropWhile_cons_of_neg (by simp [he]), hdrop]
    simp [hne]

theorem read_append_opening {u : Text} (hu : u ≠ []) (y : Text) :
    innermostGroup.read (u ++ '(' :: y) = innermostGroup.read u :=
  congrArg (Option.map _) (enclosed?_append_cons (by decide) (by decide) hu y)

theorem scan_append_group {body : Text} (hbody : ∀ c ∈ body, isParen c = false) (x y : Text) :
    innermostGroup.scan (x ++ (Text.enclose '(' ')' body ++ y))
      = innermostGroup.scan x
        ++ .hit ⟨Text.enclose '(' ')' body, body⟩ :: innermostGroup.scan y := by
  rw [← scan_group hbody]
  exact innermostGroup.scan_append fun u _ hne ↦ read_append_opening hne _

theorem closeGroups_append_group {body : Text} (hbody : ∀ c ∈ body, isParen c = false)
    (x y : Text) : closeGroups (x ++ (Text.enclose '(' ')' body ++ y))
      = closeGroups x ++ (closed body ++ closeGroups y) := by
  rw [closeGroups, Recognizer.substitute, scan_append_group hbody, List.flatMap_append]
  rfl

theorem mem_closed {body : Text} {c : Char} (hc : c ∈ closed body) :
    c = Placeholder.opening ∨ isParen c = true := by
  rw [closed] at hc
  split at hc
  · rcases List.mem_pair.mp hc with rfl | rfl <;> exact Or.inr rfl
  · rcases List.mem_cons.mp hc with rfl | hc
    · exact Or.inr rfl
    · rcases List.mem_pair.mp hc with rfl | rfl
      · exact Or.inl rfl
      · exact Or.inr rfl

theorem mem_of_mem_closeGroups {t : Text} {c : Char} (hc : c ∈ closeGroups t) :
    c ∈ t ∨ c = Placeholder.opening ∨ isParen c = true := by
  obtain ⟨item, hitem, hc⟩ := List.mem_flatMap.mp hc
  rcases item with d | m
  · refine Or.inl ?_
    rw [← innermostGroup.flatMap_text_scan t]
    exact List.mem_flatMap.mpr ⟨_, hitem, hc⟩
  · exact Or.inr (mem_closed hc)

/-! ## Closing and reading

Parentheses are operators, so reading starts afresh behind each of them, and of what comes before a
parenthesis only whether it is broken counts. If a text can be read, then the body of each of its
groups can be read by itself and so can stand as CQL. Closing a group leaves at most one character
between its parentheses, which is a single run. -/

theorem Stage.reset_eq (s : Stage) : s.reset = .broken ∨ s.reset = .blank := by
  cases s <;> simp [Stage.reset]

theorem outcome_append_paren {c : Char} (hc : c = '(' ∨ c = ')') (s : Stage) (x y : Text) :
    outcome s (x ++ c :: y) = outcome (outcome s x).reset y := by
  have hends : endsOperators c = true := by rcases hc with rfl | rfl <;> decide
  rw [outcome_append_cons hends, outcome_sign (Or.inr hc)]

private theorem outcome_closed {s : Stage} (hs : s.reset = .blank) (body t : Text) :
    outcome s (closed body ++ t) = outcome .blank t := by
  have hmark : ∀ t, outcome .blank (Placeholder.opening :: t) = outcome .word t := fun t ↦
    outcome_cons (by decide) .blank t
  rw [closed]
  split
  · rw [List.cons_append, outcome_sign (Or.inr (Or.inl rfl)), hs, List.singleton_append,
      outcome_sign (Or.inr (Or.inr rfl))]
    rfl
  · rw [List.cons_append, outcome_sign (Or.inr (Or.inl rfl)), hs, List.cons_append, hmark,
      List.singleton_append, outcome_sign (Or.inr (Or.inr rfl))]
    rfl

/-- Reading restarts at each of the two parentheses of a group. -/
private theorem outcome_around_group {s : Stage} {x body y : Text}
    (h : outcome s (x ++ (Text.enclose '(' ')' body ++ y)) ≠ .broken) :
    (outcome s x).reset = .blank ∧ outcome .blank body ≠ .broken ∧ outcome .blank y ≠ .broken := by
  rw [Text.enclose, List.append_assoc, List.singleton_append, List.cons_append,
    outcome_append_paren (Or.inl rfl), outcome_append_paren (Or.inr rfl)] at h
  have hreset : (outcome s x).reset = .blank := by
    refine ((outcome s x).reset_eq).resolve_left fun hbroken ↦ h ?_
    rw [hbroken, outcome_broken]
    exact outcome_broken y
  rw [hreset] at h
  have hblank : (outcome .blank body).reset = .blank := by
    refine ((outcome .blank body).reset_eq).resolve_left fun hbroken ↦ h ?_
    rw [hbroken, outcome_broken]
  refine ⟨hreset, fun hbroken ↦ ?_, by rwa [hblank] at h⟩
  rw [hbroken] at hblank
  exact absurd hblank (by simp [Stage.reset])

private theorem closed_eq_cons (body : Text) : ∃ z, closed body = '(' :: z := by
  rw [closed]
  split <;> exact ⟨_, rfl⟩

theorem mem_of_mem_map_plain_append {x : Text} {m : Match} {items : List Item}
    (hm : .hit m ∈ x.map .plain ++ items) : .hit m ∈ items := by
  rcases List.mem_append.mp hm with hm | hm
  · obtain ⟨c, -, hc⟩ := List.mem_map.mp hm
    exact absurd hc (by simp)
  · exact hm

/-- **Closing groups.** A text that can be read can be read with its innermost groups closed, and
the body of each of them can stand as CQL. -/
theorem outcome_closeGroups {t : Text} {s : Stage} (h : outcome s t ≠ .broken) :
    outcome s (closeGroups t) ≠ .broken ∧
      ∀ m, .hit m ∈ innermostGroup.scan t → isCql m.value = true := by
  induction t using group_induction generalizing s with
  | free x hx =>
    rw [closeGroups_of_isParen_eq_false hx]
    refine ⟨h, fun m hm ↦ ?_⟩
    have hscan := scan_of_isParen_eq_false hx []
    rw [List.append_nil] at hscan
    rw [hscan] at hm
    exact absurd (mem_of_mem_map_plain_append hm) (by simp)
  | closing x y hx ih =>
    rw [outcome_append_paren (Or.inr rfl)] at h
    obtain ⟨hclose, hits⟩ := ih h
    refine ⟨?_, fun m hm ↦ hits m ?_⟩
    · rw [closeGroups_append hx, closeGroups_closing, outcome_append_paren (Or.inr rfl)]
      exact hclose
    · rw [scan_of_isParen_eq_false hx, scan_closing] at hm
      exact (List.mem_cons.mp (mem_of_mem_map_plain_append hm)).resolve_left (by simp)
  | group x body y hx hbody ih =>
    -- Reading starts afresh behind each of the two parentheses.
    obtain ⟨hreset, hinside, hrest⟩ := outcome_around_group h
    obtain ⟨hclose, hits⟩ := ih hrest
    refine ⟨?_, fun m hm ↦ ?_⟩
    · obtain ⟨z, hz⟩ := closed_eq_cons body
      rw [closeGroups_append hx, closeGroups_group hbody, hz, List.cons_append,
        outcome_append_cons (by decide), ← List.cons_append, ← hz, outcome_closed hreset]
      exact hclose
    · rw [scan_of_isParen_eq_false hx, scan_group hbody] at hm
      rcases List.mem_cons.mp (mem_of_mem_map_plain_append hm) with hm | hm
      · obtain rfl := Item.hit.inj hm
        exact isCql_of_outcome hinside
      · exact hits m hm
  | opening x y hx hread ih =>
    rw [outcome_append_paren (Or.inl rfl)] at h
    obtain ⟨hclose, hits⟩ := ih h
    refine ⟨?_, fun m hm ↦ hits m ?_⟩
    · rw [closeGroups_append hx, closeGroups_of_read_none hread, outcome_append_paren (Or.inl rfl)]
      exact hclose
    · rw [scan_of_isParen_eq_false hx, innermostGroup.scan_of_read_none hread] at hm
      exact (List.mem_cons.mp (mem_of_mem_map_plain_append hm)).resolve_left (by simp)

end Cql

/-! ## Phrases that are left as they are

Masking the groups of a phrase closes the groups of its visible text, as long as all of them keep
their grouping. So whether a repair leaves the phrase as it is comes down to reading one text, and
neither keys nor outlines are mentioned where the criterion is used. -/

/-- The text that is left when the quoted runs are out of sight. -/
def visible (t : Text) : Text := Veiled.shape (hideRuns t)

theorem hideRuns_append {x : Text} (hx : '"' ∉ x) (t : Text) :
    hideRuns (x ++ t) = Veiled.ofText x ++ hideRuns t := by
  have hpass : Cql.quotedRun.PassesOver x := by
    refine Recognizer.passesOver_of_read_none fun c hc t ↦ ?_
    have hne : c ≠ '"' := fun h ↦ hx (h ▸ hc)
    simp [Cql.quotedRun, Text.enclosed?, hne]
  rw [hideRuns, hpass t, List.map_append, List.map_map, ← hideRuns]
  rfl

theorem visible_append {x : Text} (hx : '"' ∉ x) (t : Text) :
    visible (x ++ t) = x ++ visible t := by
  rw [visible, hideRuns_append hx, Veiled.shape_append, Veiled.shape_ofText, ← visible]

theorem hideRuns_run {body : Text} (hbody : '"' ∉ body) (t : Text) :
    hideRuns (Text.enclose '"' '"' body ++ t)
      = .hidden (Text.enclose '"' '"' body) :: hideRuns t := by
  have hscan : Cql.quotedRun.scan (Text.enclose '"' '"' body ++ t)
      = .hit ⟨_, Text.enclose '"' '"' body⟩ :: Cql.quotedRun.scan t :=
    Cql.quotedRun.scan_match_append (m := ⟨_, _⟩) (Cql.read_quotedRun hbody t)
  rw [hideRuns, hscan]
  rfl

theorem visible_run {body : Text} (hbody : '"' ∉ body) (t : Text) :
    visible (Text.enclose '"' '"' body ++ t) = Placeholder.opening :: visible t := by
  rw [visible, hideRuns_run hbody]
  rfl

theorem scan_visible (t : Text) : Cql.innermostGroup.scan (visible t)
    = (Cql.innermostGroup.cells (hideRuns t)).flatMap
        (Cell.items (fun _ ↦ [Placeholder.opening]) fun u ↦ Veiled.shape (Cql.inner u)) := by
  have hmark : ∀ run : Text, IsVeil ((fun _ ↦ [Placeholder.opening]) run) :=
    fun _ ↦ Placeholder.isVeil_opening
  rw [visible, Veiled.shape_eq_fill, Recognizer.scan_fill
    (fun run ↦ Recognizer.passesOver_of_isVeil Cql.skipsInert_innermostGroup (hmark run))
    (Cql.blindTo_innermostGroup hmark)]
  refine List.flatMap_congr fun cell _ ↦ ?_
  rcases cell with a | u
  · rfl
  · rw [Cell.items, Cell.items, Veiled.shape_eq_fill]

/-- Masking a group that keeps its grouping closes it. -/
theorem Part.shape_masked_kept (body : Veiled Text) :
    Veiled.shape (kept body).masked = Cql.closed (Veiled.shape body) := by
  rcases body with _ | ⟨a, body⟩ <;> rfl

section Keeps

variable {quoteBare : Bool} {t : Text}
  (hkeeps : ∀ m, .hit m ∈ Cql.innermostGroup.scan (visible t) →
    keepsGrouping quoteBare m.value = true)

include hkeeps

private theorem keepsGrouping_of_mem_cells {u : Veiled Text}
    (hu : .hit u ∈ Cql.innermostGroup.cells (hideRuns t)) :
    keepsGrouping quoteBare (Veiled.shape (Cql.inner u)) = true := by
  refine hkeeps ⟨Veiled.fill (fun _ ↦ [Placeholder.opening]) u, _⟩ ?_
  rw [scan_visible]
  exact List.mem_flatMap.mpr ⟨_, hu, List.mem_singleton.mpr rfl⟩

/-- Where all groups keep their grouping, masking closes them. -/
theorem shape_maskedParts : Veiled.shape (maskedParts (parts quoteBare t))
    = Cql.closeGroups (visible t) := by
  rw [Cql.closeGroups, Recognizer.substitute, scan_visible, List.flatMap_assoc, maskedParts, parts,
    List.flatMap_map, Veiled.shape, List.map_flatMap]
  refine List.flatMap_congr fun cell hcell ↦ ?_
  rcases cell with a | u
  · rcases a with c | run <;> rfl
  · rw [Part.ofCell, keepsGrouping_of_mem_cells hkeeps hcell, if_pos rfl, ← Veiled.shape,
      Part.shape_masked_kept]
    exact (List.append_nil _).symm

theorem filterMap_literalized?_parts : (parts quoteBare t).filterMap Part.literalized? = [] := by
  rw [parts, List.filterMap_map, List.filterMap_eq_nil_iff]
  intro cell hcell
  rcases cell with a | u
  · rfl
  · rw [Function.comp_apply, Part.ofCell, keepsGrouping_of_mem_cells hkeeps hcell]
    rfl

end Keeps

theorem isolateAll_of_notMem {α : Type} {cs : List Char} {s : Veiled α}
    (h : ∀ c ∈ cs, .plain c ∉ s) : isolateAll cs s = s := by
  induction cs with
  | nil => rfl
  | cons c cs ih =>
    have hc : Outline.isolate c s = s := by
      rw [Outline.isolate]
      refine Eq.trans (List.flatMap_congr fun a ha ↦ ?_) (List.flatMap_singleton' s)
      rcases a with d | i
      · have hdc : d ≠ c := fun hdc ↦ h c List.mem_cons_self (hdc ▸ ha)
        simp [hdc, Veiled.ofText]
      · rfl
    rw [isolateAll, List.foldl_cons, hc, ← isolateAll]
    exact ih fun d hd ↦ h d (List.mem_cons_of_mem _ hd)

theorem isolateAll_of_notMem_shape {α : Type} {cs : List Char} {s : Veiled α}
    (h : ∀ c ∈ cs, c ∉ Veiled.shape s) : isolateAll cs s = s :=
  isolateAll_of_notMem fun c hc hmem ↦ h c hc (List.mem_map.mpr ⟨_, hmem, rfl⟩)

/-- Where no reserved character is left in sight, masking ends with the hidden fragments. -/
theorem Repairer.mask_of_notMem_shape (r : Repairer) (supply : KeySupply) {t : Text}
    (ht : Placeholder.hasSentinel t = false) (hreserved : ∀ c ∈ r.settings.reserved,
      c ∉ Veiled.shape (maskedParts (PhraseRepair.parts r.settings.quoteBareGroups t))) :
    r.mask supply t = r.hideFragments supply t := by
  have hread := congrArg Veiled.shape (r.reading_outline ht)
  rw [Veiled.shape_rename, Veiled.shape_rename] at hread
  rw [← hread] at hreserved
  have hphrase : (r.mask supply t).phrase = (r.hideFragments supply t).phrase := by
    rw [r.phrase_mask, isolateAll_of_notMem_shape hreserved, ← r.spell_outline]
    rfl
  -- Isolating changes nothing but the phrase.
  rw [r.mask_eq] at hphrase ⊢
  generalize r.hideFragments supply t = m at hphrase ⊢
  exact congrArg (fun phrase ↦ { m with phrase }) hphrase

theorem normalize_eq_normalizeSpace {t : Text} (hsentinel : Placeholder.hasSentinel t = false) :
    normalize t = Text.normalizeSpace t := by
  have hfilter : t.filter (! Placeholder.isSentinel ·) = t := by
    rw [List.filter_eq_self]
    exact fun c hc ↦ by simpa using Placeholder.hasSentinel_eq_false_iff.mp hsentinel c hc
  rw [normalize, hfilter]

theorem normalize_of_spaced {t : Text} (hspaced : Text.Spaced t)
    (hsentinel : Placeholder.hasSentinel t = false) : normalize t = t := by
  rw [normalize_eq_normalizeSpace hsentinel, Text.normalizeSpace_of_spaced hspaced]

/-- A repair has nothing to do: the phrase is a query, no fragment comes back between quotes, no
reserved character is isolated, and the phrase comes out as it went in. -/
structure Unchanged (r : Repairer) (supply : KeySupply) (input : Text) : Prop where
  /-- The phrase is a query. -/
  valid : (r.repair supply input).valid = true
  /-- No group is quoted. -/
  literalized : (r.repair supply input).masked.literalized = []
  /-- No reserved character is isolated. -/
  isolated : r.mask supply (normalize input) = r.hideFragments supply (normalize input)
  /-- The phrase comes out as it went in. -/
  output : (r.repair supply input).output = input

/-- **What is left as it is.** A phrase with normal spacing is left as it is, if all of its groups
keep their grouping and it can be read, without a reserved character in sight, with its groups
closed. -/
theorem unchanged_of_accepted {r : Repairer} (supply : KeySupply) {t : Text}
    (hspaced : Text.Spaced t) (hsentinel : Placeholder.hasSentinel t = false)
    (hcount : (r.outline t).hidden.length ≤ 2 ^ 64)
    (hkeeps : ∀ m, .hit m ∈ Cql.innermostGroup.scan (visible t) →
      keepsGrouping r.settings.quoteBareGroups m.value = true)
    (hreserved : ∀ c ∈ r.settings.reserved, c ∉ Cql.closeGroups (visible t))
    (haccepted : Cql.outcome .blank (Cql.closeGroups (visible t)) ≠ .broken) :
    Unchanged r supply t := by
  have hnormalize := normalize_of_spaced hspaced hsentinel
  have hparts : r.parts t = parts r.settings.quoteBareGroups t := by
    rw [Repairer.parts, hnormalize]
  have hshape := shape_maskedParts hkeeps
  have hnone := filterMap_literalized?_parts hkeeps
  rw [← hshape] at hreserved haccepted
  have hvalid : (r.repair supply t).valid = true := by
    rw [r.valid_repair, Repairer.maskedPhrase, hparts, isolateAll_of_notMem_shape hreserved]
    exact Cql.phraseIsCql_iff.mpr haccepted
  have hisolated : r.mask supply (normalize t) = r.hideFragments supply (normalize t) := by
    rw [hnormalize]
    exact r.mask_of_notMem_shape supply hsentinel hreserved
  rw [← hnormalize] at hcount
  rw [← hparts] at hnone
  refine ⟨hvalid, ?_, hisolated, ?_⟩
  · have hliteralized := r.literalized_repair supply hcount
    rw [hnone] at hliteralized
    exact List.map_eq_nil_iff.mp hliteralized
  · exact (output_repair_of_valid r supply hcount hisolated hvalid hnone).trans hnormalize

end PhraseRepair
