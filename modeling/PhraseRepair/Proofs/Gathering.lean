import PhraseRepair.Proofs.Closing
import PhraseRepair.Proofs.Isolating

/-!
# Gathering the words of a phrase

What a repair writes can be said in terms of the parts of the phrase. Reserved characters are set
apart by spaces, the parts between two spaces are a *word*, and the words are gathered with a
separator between neighbours (`gather`).

A part of a word has several sides: what is left of it in the masked phrase (`Part.isolated`), the
symbols that are read in its place when the quoted runs of the output are hidden again
(`Part.reread`), and what is left in sight of these when their groups are closed (`Part.settled`).
The output is the second side written out (`output_repair_eq`). Where the quotes of the phrase are
paired, hiding the quoted runs of the output gives this side back (`hideRuns_written`).
-/

namespace PhraseRepair

/-! ## Isolating in one pass

If reserved characters differ from each other and are neither spaces nor quotes, no isolated
character is touched again, so isolating may be done part by part. Parentheses are left out as well:
an isolated one would take a group apart. -/

/-- A symbol, isolated if it is one of the characters. -/
def isolateSymbol {α : Type} (cs : List Char) : Symbol α → Veiled α
  | .plain c => Veiled.ofText (if c ∈ cs then [' ', '"', c, '"', ' '] else [c])
  | .hidden a => [.hidden a]

theorem isolateAll_eq_flatMap {α : Type} {cs : List Char} (hnodup : cs.Nodup) (hspace : ' ' ∉ cs)
    (hquote : '"' ∉ cs) (s : Veiled α) : isolateAll cs s = s.flatMap (isolateSymbol cs) := by
  rw [isolateAll_eq_flatMap_setApart hspace hquote]
  refine List.flatMap_congr fun a _ ↦ ?_
  rcases a with c | a
  · have hcount := List.nodup_iff_count_le_one.mp hnodup c
    rw [isolateSymbol, ← Cql.isolateChar, isolateChar_eq_setApart, Nat.min_eq_left hcount]
  · rfl

/-- Characters that are isolated in one pass, and without touching a group. -/
structure Isolable (cs : List Char) : Prop where
  nodup : cs.Nodup
  reservable : ∀ c ∈ cs, Settings.reservable c = true
  paren : ∀ c ∈ cs, Cql.isParen c = false

theorem Isolable.notMem {cs : List Char} (hcs : Isolable cs) {c : Char}
    (hc : (Settings.reservable c && !Cql.isParen c) = false) : c ∉ cs := by
  intro hmem
  rw [hcs.reservable c hmem, hcs.paren c hmem] at hc
  exact absurd hc (by decide)

theorem Isolable.space_notMem {cs : List Char} (hcs : Isolable cs) : ' ' ∉ cs :=
  hcs.notMem (by decide +kernel)

theorem Isolable.quote_notMem {cs : List Char} (hcs : Isolable cs) : '"' ∉ cs :=
  hcs.notMem (by decide +kernel)

theorem Isolable.opening_notMem {cs : List Char} (hcs : Isolable cs) : Placeholder.opening ∉ cs :=
  hcs.notMem (by decide +kernel)

/-! ## The sides of a word

Each side of a part is a function of that part, except for the spaces around an isolated character,
which separate it from its neighbours. These are put in first (`Part.spread`), and after that no
side has to know what stands beside it. -/

namespace Part

/-- Whether the part is a space in sight. -/
def isSpace : Part → Bool
  | plain a => a.isSpace
  | kept _ => false
  | quoted _ => false

variable (cs : List Char)

/-- The part, set apart by spaces if it is one of the characters. -/
def spread : Part → List Part
  | plain (.plain c) =>
    if c ∈ cs then [plain (.plain ' '), plain (.plain c), plain (.plain ' ')]
    else [plain (.plain c)]
  | p => [p]

/-- What is left of a part of a word in the masked phrase. -/
def isolated : Part → Veiled (Veiled Text)
  | plain (.plain c) => Veiled.ofText (if c ∈ cs then ['"', c, '"'] else [c])
  | p => p.masked

/-- What is read in place of a part of a word when quoted runs are hidden again. -/
def reread : Part → Veiled Text
  | plain (.plain c) => if c ∈ cs then [.hidden (Text.enclose '"' '"' [c])] else [.plain c]
  | plain (.hidden run) => [.hidden run]
  | kept body => .plain '(' :: body ++ [.plain ')']
  | quoted body => [.hidden (Text.enclose '"' '"' (group body))]

/-- What is left in sight of a part of a word when its group is closed. -/
def settled : Part → Text
  | plain (.plain c) => if c ∈ cs then [Placeholder.opening] else [c]
  | p => Veiled.shape p.masked

end Part

/-- The words of a phrase. -/
def partWords (cs : List Char) (ps : List Part) : List (List Part) :=
  ((ps.flatMap (Part.spread cs)).splitOnP Part.isSpace).filter (! ·.isEmpty)

/-- What is written between the words of a phrase. -/
def separator (isQuery : Bool) : Text := if isQuery then [' '] else " and ".toList

/-- The words of a phrase with a separator between neighbours. -/
def gather (isQuery : Bool) (cs : List Char) (ps : List Part) : List Part :=
  ((separator isQuery).map fun c ↦ Part.plain (.plain c)).intercalate (partWords cs ps)

/-- What a repair makes of the parts of a phrase. -/
def written (isQuery : Bool) (cs : List Char) (ps : List Part) : Text :=
  Veiled.fill id ((gather isQuery cs ps).flatMap (Part.reread cs))

/-! ## Words

Everything that is asked about the output is asked about some view of its parts: their text, their
symbols, what they show. A view of the gathered words is the view of the words with that of the
separator in between (`flatMap_gather`), so the spaces that come and go between the phrase and the
output are dealt with once for all views. -/

theorem mem_of_mem_spread {cs : List Char} {ps : List Part} {p : Part}
    (hp : p ∈ ps.flatMap (Part.spread cs)) (hspace : p.isSpace = false) : p ∈ ps := by
  obtain ⟨q, hq, hmem⟩ := List.mem_flatMap.mp hp
  rw [Part.spread.eq_def] at hmem
  split at hmem
  · split at hmem
    · -- The part is no space, so it is the character between the spaces.
      rcases List.mem_cons.mp hmem with rfl | hmem
      · exact absurd hspace (by decide)
      rcases List.mem_cons.mp hmem with rfl | hmem
      · exact hq
      · rw [List.mem_singleton.mp hmem] at hspace
        exact absurd hspace (by decide)
    · rw [List.mem_singleton.mp hmem]
      exact hq
  · rw [List.mem_singleton.mp hmem]
    exact hq

private theorem mem_of_mem_pieces {cs : List Char} {ps w : List Part}
    (hw : w ∈ (ps.flatMap (Part.spread cs)).splitOnP Part.isSpace) {p : Part} (hp : p ∈ w) :
    p ∈ ps ∧ p.isSpace = false := by
  have hspace := Text.eq_false_of_mem_of_mem_splitOnP hw hp
  exact ⟨mem_of_mem_spread (Text.mem_of_mem_splitOnP hw hp) hspace, hspace⟩

/-- A view that does not make a word empty shows the words of the phrase. -/
theorem filter_map_pieces {cs : List Char} {ps : List Part} {β : Type} {f : List Part → List β}
    (hnil : f [] = []) (hf : ∀ p w, p ∈ ps → p.isSpace = false → f (p :: w) ≠ []) :
    (((ps.flatMap (Part.spread cs)).splitOnP Part.isSpace).map f).filter (! ·.isEmpty)
      = (partWords cs ps).map f := by
  rw [List.filter_map, partWords]
  refine congrArg _ (List.filter_congr fun w hw ↦ ?_)
  rcases w with _ | ⟨p, w⟩
  · simp [hnil]
  · obtain ⟨hp, hspace⟩ := mem_of_mem_pieces hw List.mem_cons_self
    simp [hf p w hp hspace]

theorem mem_of_mem_partWords {cs : List Char} {ps w : List Part} (hw : w ∈ partWords cs ps)
    {p : Part} (hp : p ∈ w) : p ∈ ps ∧ p.isSpace = false :=
  mem_of_mem_pieces (List.mem_filter.mp hw).1 hp

theorem ne_nil_of_mem_partWords {cs : List Char} {ps w : List Part} (hw : w ∈ partWords cs ps) :
    w ≠ [] := by
  simpa using (List.mem_filter.mp hw).2

theorem mem_of_mem_gather {isQuery : Bool} {cs : List Char} {ps : List Part} {p : Part}
    (hp : p ∈ gather isQuery cs ps) :
    (∃ c ∈ separator isQuery, p = .plain (.plain c)) ∨ p ∈ ps ∧ p.isSpace = false := by
  rcases Text.mem_of_mem_intercalate hp with hp | ⟨w, hw, hp⟩
  · obtain ⟨c, hc, rfl⟩ := List.mem_map.mp hp
    exact Or.inl ⟨c, hc, rfl⟩
  · exact Or.inr (mem_of_mem_partWords hw hp)

/-- A view of what is gathered is the view of the words with that of the separator in between. -/
theorem flatMap_gather {β : Type} (g : Part → List β) (isQuery : Bool) (cs : List Char)
    (ps : List Part) : (gather isQuery cs ps).flatMap g
      = ((separator isQuery).flatMap fun c ↦ g (.plain (.plain c))).intercalate
          ((partWords cs ps).map fun w ↦ w.flatMap g) := by
  rw [gather, Text.flatMap_intercalate, List.flatMap_map]

theorem eq_of_isSpace {p : Part} (hp : p.isSpace = true) : p = .plain (.plain ' ') := by
  rcases p with a | body | body
  · exact congrArg Part.plain (Symbol.eq_plain_of_isSpace hp)
  · exact absurd hp (by simp [Part.isSpace])
  · exact absurd hp (by simp [Part.isSpace])

theorem isSpace_of_mem_masked {p : Part} (hp : p.isSpace = false) {a : Symbol (Veiled Text)}
    (ha : a ∈ p.masked) : a.isSpace = false := by
  rcases p with b | body | body
  · rcases b with c | run
    · rw [List.mem_singleton.mp ha]
      exact hp
    · rw [List.mem_singleton.mp ha]
      rfl
  · rw [Part.masked] at ha
    split at ha <;> simp only [List.mem_cons, List.not_mem_nil, or_false] at ha
    · rcases ha with rfl | rfl <;> rfl
    · rcases ha with rfl | rfl | rfl <;> rfl
  · rw [List.mem_singleton.mp ha]
    rfl

/-- A view that shows nothing of spaces and of the separator shows of what is gathered what it shows
of the phrase. -/
theorem flatMap_gather_of_eq_nil {β : Type} {g : Part → List β} {isQuery : Bool} {cs : List Char}
    (hseparator : ∀ c ∈ separator isQuery, g (.plain (.plain c)) = [])
    (hspace : g (.plain (.plain ' ')) = []) (ps : List Part) :
    (gather isQuery cs ps).flatMap g = ps.flatMap g := by
  rw [flatMap_gather, List.flatMap_eq_nil_iff.mpr hseparator, Text.nil_intercalate, partWords,
    Text.flatten_map_flatMap, List.flatten_filter_not_isEmpty, ← Text.flatten_map_flatMap,
    ← Text.nil_intercalate, Text.intercalate_map_splitOnP, List.flatMap_assoc]
  -- A part and what it is spread to show the same.
  refine List.flatMap_congr fun p _ ↦ ?_
  have hpart : ∀ p : Part, (if p.isSpace then [] else g p) = g p := by
    intro p
    split
    · next hp => rw [eq_of_isSpace hp, hspace]
    · rfl
  simp only [hpart]
  rw [Part.spread.eq_def]
  split
  · split
    · simp [hspace]
    · exact List.flatMap_singleton _ _
  · exact List.flatMap_singleton _ _

/-! ## Tidy parts

A quote that is left open in one part would pair with one of another part. In a phrase with an even
number of quotes this does not happen. The same has to hold of what is written, and there a quoted
group is a run of its own: with a quote in it, its own quotes would be paired otherwise. -/

/-- A symbol that is not part of a quote left open. -/
def Symbol.Paired : Symbol Text → Prop
  | plain c => c ≠ '"'
  | hidden run => ∃ body, run = Text.enclose '"' '"' body ∧ '"' ∉ body

/-- A part of a phrase with paired quotes and single spaces, with no quote in a quoted group. -/
structure Part.Tidy (p : Part) : Prop where
  /-- No quote is left open. -/
  paired : ∀ a ∈ p.symbols, a.Paired
  /-- No two spaces stand side by side. -/
  single : ¬ [' ', ' '] <:+: p.source
  /-- A quoted group holds no quote. -/
  literal : ∀ g, p.literalized? = some g → '"' ∉ g

/-- Hiding quoted runs undoes writing out a phrase with paired quotes, whatever follows it. -/
theorem hideRuns_fill_append {s : Veiled Text} (hs : ∀ a ∈ s, a.Paired) (t : Text) :
    hideRuns (Veiled.fill id s ++ t) = s ++ hideRuns t := by
  induction s with
  | nil => rfl
  | cons a s ih =>
    have ih := ih fun b hb ↦ hs b (List.mem_cons_of_mem _ hb)
    have ha := hs a List.mem_cons_self
    rcases a with c | run
    · have h := hideRuns_append (x := [c]) (by simpa using Ne.symm ha) (Veiled.fill id s ++ t)
      rw [ih] at h
      exact h
    · obtain ⟨body, rfl, hbody⟩ := ha
      rw [Veiled.fill_hidden, id_eq, List.append_assoc, hideRuns_run hbody, ih, List.cons_append]

theorem hideRuns_fill {s : Veiled Text} (hs : ∀ a ∈ s, a.Paired) :
    hideRuns (Veiled.fill id s) = s := by
  have h := hideRuns_fill_append hs []
  rwa [List.append_nil, show hideRuns [] = [] from rfl, List.append_nil] at h

theorem Text.count_enclose_quotes (t : Text) :
    (Text.enclose '"' '"' t).count '"' = t.count '"' + 2 := by
  rw [Text.enclose, List.count_append, List.count_cons_self, List.count_singleton_self]

theorem Cql.quote_notMem_of_read_none {t : Text} (h : quotedRun.read ('"' :: t) = none) :
    '"' ∉ t := by
  intro hmem
  obtain ⟨x, y, rfl, hx⟩ := List.eq_append_cons_of_mem hmem
  have hrun := read_quotedRun hx y
  rw [Text.enclose, List.append_assoc, List.singleton_append, List.cons_append, h] at hrun
  exact absurd hrun (by simp)

private theorem count_quote_of_mem_hideRuns {t : Text} (h : .plain '"' ∈ hideRuns t) :
    t.count '"' % 2 = 1 := by
  induction t using Cql.quotedRun.scan_induction with
  | nil => exact absurd h List.not_mem_nil
  | plain c t hread ih =>
    rw [hideRuns, Cql.quotedRun.scan_of_read_none hread, List.map_cons, ← hideRuns,
      List.mem_cons] at h
    by_cases hc : c = '"'
    · subst hc
      rw [List.count_cons_self, List.count_eq_zero_of_not_mem (Cql.quote_notMem_of_read_none hread)]
    · rw [List.count_cons_of_ne hc]
      refine ih (h.resolve_left ?_)
      simpa using Ne.symm hc
  | hit m t hread ih =>
    obtain ⟨body, hquote, -, rfl⟩ := Cql.read_quotedRun_eq_some_iff.mp hread
    rw [hideRuns_run hquote, List.mem_cons] at h
    have hcount := ih (h.resolve_left (by simp))
    rw [List.count_append, Text.count_enclose_quotes, List.count_eq_zero_of_not_mem hquote]
    omega

/-- In a phrase with an even number of quotes no quote is left open. -/
theorem paired_of_mem_hideRuns {t : Text} (ht : t.count '"' % 2 = 0) {a : Symbol Text}
    (ha : a ∈ hideRuns t) : a.Paired := by
  rcases a with c | run
  · rintro rfl
    rw [count_quote_of_mem_hideRuns ha] at ht
    exact absurd ht (by decide)
  · exact exists_of_hidden_mem_hideRuns ha

theorem single_of_mem_parts {quoteBare : Bool} {t : Text} (hspaced : Text.Spaced t) {p : Part}
    (hp : p ∈ parts quoteBare t) : ¬ [' ', ' '] <:+: p.source := by
  intro hdouble
  have hsource : p.source <:+: t := by
    rw [← flatMap_source_parts quoteBare t]
    obtain ⟨x, y, hxy⟩ := List.append_of_mem hp
    rw [hxy, List.flatMap_append, List.flatMap_cons]
    exact ⟨_, _, List.append_assoc _ _ _⟩
  exact hspaced.not_infix (hdouble.trans hsource)

theorem tidy_of_mem_parts {quoteBare : Bool} {t : Text} (hspaced : Text.Spaced t)
    (ht : t.count '"' % 2 = 0)
    (hliteral : ∀ g ∈ (parts quoteBare t).filterMap Part.literalized?, '"' ∉ g) {p : Part}
    (hp : p ∈ parts quoteBare t) : p.Tidy where
  paired _ ha := paired_of_mem_hideRuns ht (mem_hideRuns_of_mem_parts hp ha)
  single := single_of_mem_parts hspaced hp
  literal g hg := hliteral g (List.mem_filterMap.mpr ⟨p, hp, hg⟩)

theorem Part.Tidy.paired_reread {p : Part} (hp : p.Tidy) {cs : List Char} (hquote : '"' ∉ cs) :
    ∀ a ∈ p.reread cs, a.Paired := by
  have hpaired := hp.paired
  intro a ha
  rcases p with b | body | body
  · rcases b with c | run
    · rw [reread] at ha
      split at ha
      · next hc =>
        rw [List.mem_singleton.mp ha]
        exact ⟨[c], rfl, fun h ↦ hquote (List.mem_singleton.mp h ▸ hc)⟩
      · rw [List.mem_singleton.mp ha]
        exact hpaired _ List.mem_cons_self
    · rw [List.mem_singleton.mp ha]
      exact hpaired _ List.mem_cons_self
  · rw [reread, List.cons_append, List.mem_cons, List.mem_append, List.mem_singleton] at ha
    rcases ha with rfl | ha | rfl
    · exact fun h ↦ absurd h (by decide)
    · exact hpaired a ha
    · exact fun h ↦ absurd h (by decide)
  · rw [List.mem_singleton.mp ha]
    exact ⟨group body, rfl, hp.literal _ rfl⟩

theorem Part.fill_reread_of_notMem {cs : List Char} {p : Part}
    (hp : ∀ c ∈ cs, p ≠ plain (.plain c)) : Veiled.fill id (p.reread cs) = p.restored := by
  rcases p with a | body | body
  · rcases a with c | run
    · rw [reread, if_neg fun hc ↦ hp c hc rfl]
      rfl
    · simp [reread, restored, Symbol.write]
  · simp [reread, restored, group, Text.enclose]
  · simp [reread, restored]

/-- A part that is no space is restored to a text that neither begins nor ends a piece. -/
theorem Part.solid_restored {p : Part} (hspace : p.isSpace = false)
    (hsingle : ¬ [' ', ' '] <:+: p.source)
    (hruns : ∀ run, .hidden run ∈ p.symbols → ∃ body, run = Text.enclose '"' '"' body) :
    Text.Solid p.restored := by
  rcases p with a | body | body
  · rcases a with c | run
    · refine Text.solid_of_forall_ne (by simp [restored, Symbol.write]) fun d hd ↦ ?_
      obtain rfl := List.mem_singleton.mp hd
      simpa [isSpace, Symbol.isSpace] using hspace
    · obtain ⟨body, rfl⟩ := hruns run List.mem_cons_self
      exact Text.solid_of_single (by decide) (by decide) fun hdouble ↦
        hsingle (hdouble.trans ⟨['"'], ['"'], rfl⟩)
  · exact Text.solid_of_single (by decide) (by decide) fun hdouble ↦
      hsingle (hdouble.trans ⟨['('], [')'], rfl⟩)
  · exact Text.solid_of_single (by decide) (by decide) hsingle

theorem Part.Tidy.solid {p : Part} (hp : p.Tidy) (hspace : p.isSpace = false) (cs : List Char) :
    Text.Solid (Veiled.fill id (p.reread cs)) := by
  by_cases hisolated : ∃ c ∈ cs, p = plain (.plain c)
  · obtain ⟨c, hc, rfl⟩ := hisolated
    rw [reread, if_pos hc, Veiled.fill_hidden, Veiled.fill_nil, List.append_nil]
    refine Text.solid_of_single (by decide) (by decide) fun hdouble ↦ ?_
    exact absurd hdouble.length_le (by simp)
  · rw [fill_reread_of_notMem fun c hc heq ↦ hisolated ⟨c, hc, heq⟩]
    refine solid_restored hspace hp.single fun run hrun ↦ ?_
    obtain ⟨body, rfl, -⟩ := hp.paired _ hrun
    exact ⟨body, rfl⟩

/-! ## The separator -/

theorem joinTokens_eq (isQuery : Bool) (ts : List Text) :
    joinTokens isQuery ts = Text.joinWith (separator isQuery) ts := by
  cases isQuery <;> rfl

theorem solid_append_separator (isQuery : Bool) {x y : Text} (hx : Text.Solid x)
    (hy : Text.Solid y) : Text.Solid (x ++ separator isQuery ++ y) := by
  rw [List.append_assoc]
  rcases isQuery with _ | _
  · have hand : Text.Solid "and".toList := Text.solid_of_forall_ne (by simp) (by simp)
    exact hx.space (hand.space hy)
  · exact hx.space hy

theorem mem_separator {isQuery : Bool} {c : Char} (hc : c ∈ separator isQuery) :
    c = ' ' ∨ c = 'a' ∨ c = 'n' ∨ c = 'd' := by
  rcases isQuery with _ | _
  · have hc : c = ' ' ∨ c = 'a' ∨ c = 'n' ∨ c = 'd' ∨ c = ' ' := by simpa [separator] using hc
    tauto
  · exact Or.inl (List.mem_singleton.mp hc)

private theorem reservable_of_mem_separator (isQuery : Bool) (c : Char)
    (hc : c ∈ separator isQuery) : (Settings.reservable c && !Cql.isParen c) = false := by
  rcases mem_separator hc with rfl | rfl | rfl | rfl <;> decide +kernel

theorem plain_of_mem_separator (isQuery : Bool) (c : Char) (hc : c ∈ separator isQuery) :
    c ≠ '"' ∧ Placeholder.isSentinel c = false ∧ Cql.isParen c = false
      ∧ (Text.isBlank c = true → c = ' ') := by
  rcases mem_separator hc with rfl | rfl | rfl | rfl <;> decide

theorem spaced_joinTokens (isQuery : Bool) {tokens : List Text}
    (hsolid : ∀ token ∈ tokens, Text.Solid token)
    (hblank : ∀ token ∈ tokens, ∀ c ∈ token, Text.isBlank c = true → c = ' ') :
    Text.Spaced (joinTokens isQuery tokens) := by
  have hblank' : ∀ c ∈ joinTokens isQuery tokens, Text.isBlank c = true → c = ' ' := by
    intro c hc
    rw [joinTokens_eq] at hc
    rcases Text.mem_of_mem_intercalate hc with hc | ⟨token, htoken, hc⟩
    · exact (plain_of_mem_separator isQuery c hc).2.2.2
    · exact hblank token htoken c hc
  by_cases hnil : tokens = []
  · refine ⟨hblank', Or.inl ?_⟩
    rw [hnil, joinTokens_eq, Text.joinWith_nil]
  · refine Text.Solid.spaced ?_ hblank'
    rw [joinTokens_eq]
    exact Text.solid_joinWith (solid_append_separator isQuery) hnil hsolid

theorem Isolable.notMem_of_mem_separator {cs : List Char} (hcs : Isolable cs)
    {isQuery : Bool} {c : Char} (hc : c ∈ separator isQuery) : c ∉ cs :=
  hcs.notMem (reservable_of_mem_separator isQuery c hc)

/-! ## The output -/

private theorem fill_isolated (cs : List Char) (p : Part) :
    Veiled.fill (Veiled.fill id) (p.isolated cs) = Veiled.fill id (p.reread cs) := by
  rcases p with a | body | body
  · rcases a with c | run
    · by_cases hc : c ∈ cs <;> simp [Part.isolated, Part.reread, hc, Text.enclose]
    · simp [Part.isolated, Part.reread, Part.fill_masked, Part.restored, Symbol.write]
  · rw [Part.isolated, Part.fill_masked]
    · simp [Part.reread, Part.restored, Part.group, Text.enclose]
    · simp
  · simp [Part.isolated, Part.reread, Part.fill_masked, Part.restored]

theorem Part.mem_source_of_mem_fill {p : Part} {cs : List Char} {c : Char}
    (hc : c ∈ Veiled.fill id (p.reread cs)) : c = '"' ∨ c ∈ p.source := by
  rcases p with a | body | body
  · rcases a with d | run
    · rw [reread] at hc
      split at hc
      · have hc : c = '"' ∨ c = d ∨ c = '"' := by simpa [Text.enclose] using hc
        rcases hc with hc | rfl | hc
        · exact Or.inl hc
        · exact Or.inr List.mem_cons_self
        · exact Or.inl hc
      · exact Or.inr (by simpa [source, Symbol.write] using hc)
    · exact Or.inr (by simpa [reread, source, Symbol.write] using hc)
  · exact Or.inr (by simpa [reread, source, group, Text.enclose] using hc)
  · rw [reread, Veiled.fill_hidden, Veiled.fill_nil, List.append_nil] at hc
    simpa [Text.enclose, source, or_comm, or_assoc] using hc

theorem mem_of_mem_written {isQuery : Bool} {cs : List Char} {ps : List Part} {c : Char}
    (hc : c ∈ written isQuery cs ps) :
    c = '"' ∨ c ∈ separator isQuery ∨ c ∈ ps.flatMap Part.source := by
  rw [written, Veiled.fill, List.flatMap_assoc] at hc
  obtain ⟨p, hp, hc⟩ := List.mem_flatMap.mp hc
  rcases Part.mem_source_of_mem_fill hc with hc | hc
  · exact Or.inl hc
  · rcases mem_of_mem_gather hp with ⟨d, hd, rfl⟩ | ⟨hp, -⟩
    · rw [List.mem_singleton.mp hc]
      exact Or.inr (Or.inl hd)
    · exact Or.inr (Or.inr (List.mem_flatMap.mpr ⟨p, hp, hc⟩))

theorem hasSentinel_written {isQuery : Bool} {cs : List Char} {ps : List Part}
    (hps : Placeholder.hasSentinel (ps.flatMap Part.source) = false) :
    Placeholder.hasSentinel (written isQuery cs ps) = false := by
  rw [Placeholder.hasSentinel_eq_false_iff] at hps ⊢
  intro c hc
  rcases mem_of_mem_written hc with rfl | hc | hc
  · decide
  · exact (plain_of_mem_separator isQuery c hc).2.1
  · exact hps c hc

theorem tidy_of_mem_gather {isQuery : Bool} {cs : List Char} {ps : List Part}
    (hps : ∀ p ∈ ps, p.Tidy) {p : Part} (hp : p ∈ gather isQuery cs ps) : p.Tidy := by
  rcases mem_of_mem_gather hp with ⟨c, hc, rfl⟩ | ⟨hp, -⟩
  · refine ⟨fun a ha ↦ ?_, fun hdouble ↦ absurd hdouble.length_le (by simp [Part.source,
      Symbol.write]), fun g hg ↦ absurd hg (by simp [Part.literalized?])⟩
    rw [List.mem_singleton.mp ha]
    exact (plain_of_mem_separator isQuery c hc).1
  · exact hps p hp

section Words

variable {cs : List Char} (hcs : Isolable cs)

include hcs

theorem isolateAll_maskedParts (ps : List Part) : isolateAll cs (maskedParts ps)
    = (ps.flatMap (Part.spread cs)).flatMap (Part.isolated cs) := by
  have hspace := hcs.space_notMem
  have hopening : '(' ∉ cs := hcs.notMem (by decide +kernel)
  have hclosing : ')' ∉ cs := hcs.notMem (by decide +kernel)
  rw [isolateAll_eq_flatMap hcs.nodup hspace hcs.quote_notMem, maskedParts,
    List.flatMap_assoc, List.flatMap_assoc]
  refine List.flatMap_congr fun p _ ↦ ?_
  rcases p with a | body | body
  · rcases a with c | run
    · by_cases hc : c ∈ cs <;>
        simp [Part.masked, Part.spread, Part.isolated, isolateSymbol, hc, hspace, Veiled.ofText]
    · simp [Part.masked, Part.spread, Part.isolated, isolateSymbol]
  · rw [Part.masked]
    split <;> simp_all [Part.masked, Part.spread, Part.isolated, isolateSymbol, Veiled.ofText]
  · simp [Part.masked, Part.spread, Part.isolated, isolateSymbol]

private theorem isSpace_of_mem_isolated {p : Part} (hp : p.isSpace = false)
    {b : Symbol (Veiled Text)} (hb : b ∈ p.isolated cs) : b.isSpace = false := by
  have hspace := hcs.space_notMem
  by_cases hisolated : ∃ c ∈ cs, p = .plain (.plain c)
  · obtain ⟨c, hc, rfl⟩ := hisolated
    have hne : c ≠ ' ' := fun h ↦ hspace (h ▸ hc)
    simp only [Part.isolated, if_pos hc, Veiled.ofText, List.map_cons, List.map_nil,
      List.mem_cons, List.not_mem_nil, or_false] at hb
    rcases hb with rfl | rfl | rfl <;> simp [Symbol.isSpace, hne]
  · refine isSpace_of_mem_masked hp ?_
    rcases p with a | body | body
    · rcases a with c | run
      · rw [Part.isolated, if_neg fun hc ↦ hisolated ⟨c, hc, rfl⟩] at hb
        exact hb
      · exact hb
    · exact hb
    · exact hb

/-- The tokens of a phrase are its words, written out. -/
theorem tokens_maskedParts {ps : List Part} (hps : ∀ p ∈ ps, p.Tidy) :
    Veiled.tokens (Veiled.fill id) (isolateAll cs (maskedParts ps))
      = (partWords cs ps).map fun w ↦ Veiled.fill id (w.flatMap (Part.reread cs)) := by
  have hspace := hcs.space_notMem
  have hwrite : (fun w : List Part ↦ Veiled.fill (Veiled.fill id) (w.flatMap (Part.isolated cs)))
      = fun w ↦ Veiled.fill id (w.flatMap (Part.reread cs)) := by
    funext w
    rw [Veiled.fill, List.flatMap_assoc, Veiled.fill, List.flatMap_assoc]
    exact List.flatMap_congr fun p _ ↦ fill_isolated cs p
  have hpieces := Text.splitOnP_flatMap (s := ps.flatMap (Part.spread cs)) (g := Part.isolated cs)
    (q := Symbol.isSpace) (p := Part.isSpace)
    (fun p _ hp ↦ ⟨.plain ' ', by rw [eq_of_isSpace hp, Part.isolated, if_neg hspace]; rfl, rfl⟩)
    fun p _ hp b hb ↦ isSpace_of_mem_isolated hcs hp hb
  rw [isolateAll_maskedParts hcs, Veiled.tokens, Veiled.pieces, hpieces, List.map_map,
    Function.comp_def, hwrite]
  -- No part is written out as nothing.
  refine filter_map_pieces rfl fun p w hp hspace ↦ ?_
  rw [List.flatMap_cons, Veiled.fill_append]
  exact List.append_ne_nil_of_left_ne_nil ((hps p hp).solid hspace cs).ne_nil _

theorem flatMap_gather_of_notMem {β : Type} (isQuery : Bool) {g : Part → List β}
    {f : Char → List β} (hg : ∀ c ∉ cs, g (.plain (.plain c)) = f c) (ps : List Part) :
    (gather isQuery cs ps).flatMap g
      = ((separator isQuery).flatMap f).intercalate
          ((partWords cs ps).map fun w ↦ w.flatMap g) := by
  rw [flatMap_gather]
  exact congrArg (List.intercalate · _)
    (List.flatMap_congr fun c hc ↦ hg c (hcs.notMem_of_mem_separator hc))

/-- The gathered words, written out, are the joined tokens. -/
theorem written_eq_joinTokens (isQuery : Bool) (ps : List Part) :
    written isQuery cs ps = joinTokens isQuery ((partWords cs ps).map fun w ↦
      Veiled.fill id (w.flatMap (Part.reread cs))) := by
  have hseparator : ((separator isQuery).flatMap fun c ↦ [Symbol.plain c]).flatMap (Symbol.write id)
      = separator isQuery := by
    rw [List.flatMap_assoc]
    exact List.flatMap_singleton' _
  rw [written, flatMap_gather_of_notMem hcs isQuery (f := fun c ↦ [.plain c])
    (fun c hc ↦ by rw [Part.reread, if_neg hc]), Veiled.fill, Text.flatMap_intercalate,
    List.map_map, hseparator, joinTokens_eq]
  rfl

variable (isQuery : Bool) {ps : List Part} (hps : ∀ p ∈ ps, p.Tidy)

include hps

/-- The quoted runs of the output are the ones that it has been written with. -/
theorem hideRuns_written :
    hideRuns (written isQuery cs ps) = (gather isQuery cs ps).flatMap (Part.reread cs) := by
  refine hideRuns_fill fun a ha ↦ ?_
  obtain ⟨p, hp, ha⟩ := List.mem_flatMap.mp ha
  exact (tidy_of_mem_gather hps hp).paired_reread hcs.quote_notMem a ha

theorem spaced_written (hblank : ∀ c ∈ ps.flatMap Part.source, Text.isBlank c = true → c = ' ') :
    Text.Spaced (written isQuery cs ps) := by
  rw [written_eq_joinTokens hcs]
  refine spaced_joinTokens isQuery (fun token htoken ↦ ?_) fun token htoken c hc ↦ ?_
  · obtain ⟨w, hw, rfl⟩ := List.mem_map.mp htoken
    rw [Veiled.fill, List.flatMap_assoc]
    refine Text.solid_flatMap (ne_nil_of_mem_partWords hw) fun p hp ↦ ?_
    obtain ⟨hp, hspace⟩ := mem_of_mem_partWords hw hp
    exact (hps p hp).solid hspace cs
  · obtain ⟨w, hw, rfl⟩ := List.mem_map.mp htoken
    rw [Veiled.fill, List.flatMap_assoc] at hc
    obtain ⟨p, hp, hc⟩ := List.mem_flatMap.mp hc
    rcases Part.mem_source_of_mem_fill hc with rfl | hc
    · exact fun h ↦ absurd h (by decide)
    · exact hblank c (List.mem_flatMap.mpr ⟨p, (mem_of_mem_partWords hw hp).1, hc⟩)

end Words

end PhraseRepair
