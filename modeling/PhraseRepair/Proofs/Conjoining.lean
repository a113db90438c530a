import PhraseRepair.Proofs.Gathering
import PhraseRepair.Proofs.Grammar

/-!
# Lists of words, quoted runs and groups

A phrase that is just a list of words, quoted runs and groups without operators is no query, unless
there is only one item on the list. A repair with the default settings takes it for a search for all
of the items and joins them by `and`, with each group between quotes (`repair_listing`).

What an item does to a phrase does not depend on what follows it: it goes behind the text that is
written for it, and leaves a word or one hidden fragment in the masked phrase (`maskText_source`).
So the masked phrase is the list again, with a space between neighbours.
-/

namespace PhraseRepair

namespace Cql

/-- The body of a group that is quoted as a whole: neither a quote nor a parenthesis nor a sentinel
inside, no operator, and no blanks but single spaces. It may be empty. -/
structure BareBody (body : Text) : Prop extends QuotedTerm body where
  /-- No parenthesis stands inside. -/
  isParen : ∀ c ∈ body, isParen c = false
  /-- No operator stands inside. -/
  containsOperator : containsOperator body = false

end Cql

/-! ## Items

An item is given by what it is made of and not by its text, so that a list says how its text is to
be read. The bodies are restricted to what makes the text of an item mean the item. -/

/-- An item on a list. -/
inductive Conjunct
  | word (w : Text)
  | run (body : Text)
  | group (body : Text)
  deriving DecidableEq, Repr

namespace Conjunct

/-- The item as it is written. -/
def source : Conjunct → Text
  | word w => w
  | run body => Text.enclose '"' '"' body
  | group body => Text.enclose '(' ')' body

/-- The item as it is searched for: a group goes between quotes. -/
def restored : Conjunct → Text
  | word w => w
  | run body => Text.enclose '"' '"' body
  | group body => Text.enclose '"' '"' (Text.enclose '(' ')' body)

/-- An item whose text is what it is taken for. -/
def Valid : Conjunct → Prop
  | word w => Cql.Word w
  | run body => Cql.QuotedTerm body
  | group body => Cql.BareBody body

/-- What is left of the item in the masked phrase. -/
def masked : Conjunct → Veiled (Veiled Text)
  | word w => Veiled.ofText w
  | run body => [.hidden [.hidden (Text.enclose '"' '"' body)]]
  | group body => [.hidden [.hidden (Text.enclose '"' '"' (Text.enclose '(' ')' body))]]

end Conjunct

/-- A list of items written with blanks between neighbours. -/
inductive Listing : List Conjunct → Text → Prop
  | single {x : Conjunct} (hx : x.Valid) : Listing [x] x.source
  | cons {x : Conjunct} {xs : List Conjunct} {blanks t : Text} (hx : x.Valid) (hne : blanks ≠ [])
      (hblanks : ∀ c ∈ blanks, Text.isBlank c = true) (ht : Listing xs t) :
      Listing (x :: xs) (x.source ++ blanks ++ t)

/-! ## Masking an item

The scans of masking see the text that follows an item, and yet it makes no difference: a quoted run
and a group are read to their closing delimiters, and a word has no delimiter at all. -/

/-- What is left of a phrase once its quoted runs and groups are hidden. -/
def maskText (t : Text) : Veiled (Veiled Text) := maskedParts (parts true t)

/-- What is left of a phrase whose quoted runs are out of sight once its groups are hidden. -/
private def maskGroups (s : Veiled Text) : Veiled (Veiled Text) :=
  maskedParts ((Cql.innermostGroup.cells s).map (Part.ofCell true))

private theorem maskGroups_cons {a : Symbol Text} (ha : a.shape ≠ '(') (s : Veiled Text) :
    maskGroups (a :: s) = (Part.plain a).masked ++ maskGroups s := by
  have hcells : Cql.innermostGroup.cells (a :: s) = .plain a :: Cql.innermostGroup.cells s := by
    refine Cql.innermostGroup.cells_of_read_none ?_
    rw [Veiled.shape_cons]
    simp [Cql.innermostGroup, Text.enclosed?, ha]
  rw [maskGroups, hcells]
  rfl

private theorem maskText_append {x : Text} (hquote : '"' ∉ x)
    (hparen : ∀ c ∈ x, Cql.isParen c = false) (t : Text) :
    maskText (x ++ t) = Veiled.ofText x ++ maskText t := by
  suffices h : maskGroups (Veiled.ofText x ++ hideRuns t)
      = Veiled.ofText x ++ maskGroups (hideRuns t) by
    rw [maskText, parts, hideRuns_append hquote]
    exact h
  clear hquote
  induction x with
  | nil => rfl
  | cons c x ih =>
    obtain ⟨hc, hparen⟩ := List.forall_mem_cons.mp hparen
    have hne : Symbol.shape (.plain c : Symbol Text) ≠ '(' := by
      rintro rfl
      exact absurd hc (by decide)
    rw [Veiled.ofText, List.map_cons, List.cons_append, maskGroups_cons hne]
    exact congrArg (.plain c :: ·) (ih hparen)

private theorem maskText_run {body : Text} (hbody : '"' ∉ body) (t : Text) :
    maskText (Text.enclose '"' '"' body ++ t)
      = .hidden [.hidden (Text.enclose '"' '"' body)] :: maskText t := by
  rw [maskText, parts, hideRuns_run hbody]
  exact maskGroups_cons (a := .hidden _) (show Placeholder.opening ≠ '(' by decide) _

private theorem maskText_group {body : Text} (hbody : Cql.BareBody body) (t : Text) :
    maskText (Text.enclose '(' ')' body ++ t)
      = .hidden [.hidden (Text.enclose '"' '"' (Text.enclose '(' ')' body))] :: maskText t := by
  have hquote : '"' ∉ Text.enclose '(' ')' body := by
    simp [Text.enclose, hbody.notMem_quote]
  have hgroup : Veiled.ofText (α := Text) (Text.enclose '(' ')' body)
      = .plain '(' :: Veiled.ofText body ++ [.plain ')'] := by
    rw [Text.enclose, Veiled.ofText, List.map_append, List.map_cons]
    rfl
  have hcells := Cql.innermostGroup.cells_append (m := ⟨Text.enclose '(' ')' body, body⟩)
    (u := Veiled.ofText (Text.enclose '(' ')' body)) (t := hideRuns t)
    (by rw [Veiled.shape_append, Veiled.shape_ofText]; exact Cql.read_group hbody.isParen _)
    (Veiled.shape_ofText _).symm
  -- A bare group is not kept, so it is hidden with its parentheses.
  have hkeeps : keepsGrouping true (Veiled.shape (Veiled.ofText (α := Text) body)) = false := by
    rw [Veiled.shape_ofText, keepsGrouping, hbody.hasSentinel, hbody.containsOperator]
    rfl
  have hfill : Part.group (Veiled.ofText body) = Text.enclose '(' ')' body := by
    rw [Part.group, Veiled.fill_ofText]
  rw [maskText, parts, hideRuns_append hquote, hcells, List.map_cons, Part.ofCell, hgroup,
    Cql.inner_cons_append, hkeeps, if_neg (by decide), maskedParts, List.flatMap_cons, Part.masked,
    hfill]
  rfl

/-- **Masking an item.** An item goes, and a word or a hidden fragment is left of it, whatever
follows it. -/
theorem maskText_source {x : Conjunct} (hx : x.Valid) (t : Text) :
    maskText (x.source ++ t) = x.masked ++ maskText t := by
  cases x with
  | word w =>
    refine maskText_append (fun h ↦ (Cql.Word.char hx h).2.2 rfl) ?_ t
    exact Cql.isParen_of_isVisibleTerm (Or.inl hx)
  | run body => exact maskText_run (Cql.QuotedTerm.notMem_quote hx) t
  | group body => exact maskText_group hx t

theorem maskText_joinWith {xs : List Conjunct} (hxs : ∀ x ∈ xs, x.Valid) :
    maskText (Text.joinWith [' '] (xs.map Conjunct.source))
      = [.plain ' '].intercalate (xs.map Conjunct.masked) := by
  induction xs with
  | nil => rfl
  | cons x xs ih =>
    obtain ⟨hx, hxs⟩ := List.forall_mem_cons.mp hxs
    cases xs with
    | nil =>
      have h := maskText_source hx []
      rw [List.append_nil, show maskText [] = [] from rfl, List.append_nil] at h
      rw [List.map_singleton, List.map_singleton, Text.joinWith, List.intercalate_singleton,
        List.intercalate_singleton, h]
    | cons y ys =>
      have hspace := maskText_append (x := [' ']) (by decide)
        (List.forall_mem_singleton.mpr (by decide))
      rw [List.map_cons, List.map_cons, Text.joinWith, List.intercalate_cons_cons, ← List.map_cons,
        ← Text.joinWith, List.append_assoc, maskText_source hx, hspace, ih hxs, List.map_cons,
        List.map_cons, List.map_cons, List.intercalate_cons_cons, List.append_assoc]
      rfl

/-! ## Normalizing a list

The words of a phrase, the texts between its blanks, are not the items of a list: a quoted run may
have several. But blanks between two items separate words too, so the words of a list are those of
its items one after the other. -/

namespace Conjunct

theorem isProper_source {x : Conjunct} (hx : x.Valid) : ∀ c ∈ x.source, Cql.IsProper c := by
  cases x with
  | word w => exact Cql.isProper_query (.term (Or.inl hx))
  | run body => exact Cql.isProper_query (.term (Or.inr ⟨body, hx, rfl⟩))
  | group body =>
    have hbody := Cql.BareBody.toQuotedTerm hx
    have hsentinel := Placeholder.hasSentinel_eq_false_iff.mp hbody.hasSentinel
    intro c hc
    rw [source, Text.enclose, List.mem_append, List.mem_cons, List.mem_singleton] at hc
    rcases hc with (rfl | hc) | rfl
    · exact ⟨by decide, by decide⟩
    · exact ⟨hsentinel c hc, hbody.eq_space c hc⟩
    · exact ⟨by decide, by decide⟩

theorem solid_source {x : Conjunct} (hx : x.Valid) : Text.Solid x.source := by
  cases x with
  | word w => exact Cql.solid_query (.term (Or.inl hx))
  | run body => exact Cql.solid_query (.term (Or.inr ⟨body, hx, rfl⟩))
  | group body =>
    exact Text.solid_of_single (by decide) (by decide) (Cql.BareBody.toQuotedTerm hx).single

end Conjunct

private theorem words_append_blanks {blanks : Text} (hne : blanks ≠ [])
    (hblanks : ∀ c ∈ blanks, Text.isBlank c = true) (s t : Text) :
    Text.words (s ++ blanks ++ t) = Text.words s ++ Text.words t := by
  induction blanks generalizing s with
  | nil => exact absurd rfl hne
  | cons c blanks ih =>
    obtain ⟨hc, hblanks⟩ := List.forall_mem_cons.mp hblanks
    rw [List.append_assoc, List.cons_append, Text.words_append_cons hc]
    cases blanks with
    | nil => rfl
    | cons d blanks => exact congrArg _ (ih (List.cons_ne_nil d blanks) hblanks [])

namespace Listing

variable {xs : List Conjunct} {t : Text}

theorem ne_nil (h : Listing xs t) : xs ≠ [] := by
  cases h <;> exact List.cons_ne_nil _ _

theorem valid (h : Listing xs t) : ∀ x ∈ xs, x.Valid := by
  induction h with
  | single hx => exact List.forall_mem_singleton.mpr hx
  | cons hx _ _ _ ih => exact List.forall_mem_cons.mpr ⟨hx, ih⟩

theorem hasSentinel (h : Listing xs t) : Placeholder.hasSentinel t = false := by
  have hblank : ∀ c, Text.isBlank c = true → Placeholder.isSentinel c = false := by
    refine fun c hc ↦ Bool.eq_false_iff.mpr fun hsentinel ↦ ?_
    rcases (Bool.or_eq_true _ _).mp hsentinel with h | h <;>
      · rw [of_decide_eq_true h] at hc
        exact absurd hc (by decide)
  rw [Placeholder.hasSentinel_eq_false_iff]
  induction h with
  | single hx => exact fun c hc ↦ (Conjunct.isProper_source hx c hc).1
  | cons hx _ hblanks _ ih =>
    rw [List.forall_mem_append, List.forall_mem_append]
    exact ⟨⟨fun c hc ↦ (Conjunct.isProper_source hx c hc).1,
      fun c hc ↦ hblank c (hblanks c hc)⟩, ih⟩

theorem words_eq (h : Listing xs t) :
    Text.words t = xs.flatMap fun x ↦ Text.words x.source := by
  induction h with
  | single hx => rw [List.flatMap_singleton]
  | cons hx hne hblanks _ ih => rw [words_append_blanks hne hblanks, ih, List.flatMap_cons]

theorem joinWith (h : Listing xs t) :
    Listing xs (Text.joinWith [' '] (xs.map Conjunct.source)) := by
  induction h with
  | single hx =>
    rw [List.map_singleton, Text.joinWith, List.intercalate_singleton]
    exact .single hx
  | @cons x xs _ _ hx _ _ ht ih =>
    obtain ⟨y, ys, rfl⟩ := List.exists_cons_of_ne_nil ht.ne_nil
    rw [List.map_cons, List.map_cons, Text.joinWith, List.intercalate_cons_cons, ← List.map_cons]
    exact .cons hx (List.cons_ne_nil _ _) (List.forall_mem_singleton.mpr (by decide)) ih

theorem spaced_joinWith (h : Listing xs t) :
    Text.Spaced (Text.joinWith [' '] (xs.map Conjunct.source)) := by
  have hsolid : Text.Solid (Text.joinWith [' '] (xs.map Conjunct.source)) := by
    refine Text.solid_joinWith (fun hx hy ↦ ?_) (by simpa using h.ne_nil)
      (List.forall_mem_map.mpr fun x hx ↦ Conjunct.solid_source (h.valid x hx))
    rw [List.append_assoc]
    exact hx.space hy
  refine hsolid.spaced fun c hc hblank ↦ ?_
  rcases Text.mem_of_mem_intercalate hc with hc | ⟨s, hs, hc⟩
  · exact List.mem_singleton.mp hc
  · obtain ⟨x, hx, rfl⟩ := List.mem_map.mp hs
    exact (Conjunct.isProper_source (h.valid x hx) c hc).2 hblank

/-- **Normalizing a list** puts single spaces between its items. -/
theorem normalize_eq (h : Listing xs t) :
    normalize t = Text.joinWith [' '] (xs.map Conjunct.source) := by
  have hwords : Text.words t = Text.words (Text.joinWith [' '] (xs.map Conjunct.source)) :=
    h.words_eq.trans h.joinWith.words_eq.symm
  rw [normalize_eq_normalizeSpace h.hasSentinel, Text.normalizeSpace, hwords,
    ← Text.normalizeSpace, Text.normalizeSpace_of_spaced h.spaced_joinWith]

end Listing

/-! ## Reading a masked list

Two items in a row cannot be read. No keyword is read at the space between them, since neither is
one, and so a space is left in the operand that they are both in. The rest of the list need not be
looked at. -/

namespace Conjunct

theorem isVisibleTerm_masked {x : Conjunct} (hx : x.Valid) :
    Cql.IsVisibleTerm (Veiled.shape x.masked) := by
  cases x with
  | word w =>
    rw [masked, Veiled.shape_ofText]
    exact Or.inl hx
  | run body => exact Or.inr rfl
  | group body => exact Or.inr rfl

theorem plain_notMem_masked {x : Conjunct} (hx : x.Valid) {c : Char}
    (hc : Text.isBlank c = true ∨ c = '/') : .plain c ∉ x.masked := by
  intro hmem
  have hshape : c ∈ Veiled.shape x.masked := List.mem_map.mpr ⟨_, hmem, rfl⟩
  obtain ⟨-, hblank, hslash⟩ := (isVisibleTerm_masked hx).plain hshape
  rcases hc with hc | hc
  · rw [hblank] at hc
    exact absurd hc (by decide)
  · exact hslash hc

/-- What is left of an item is written out as what it is searched for. There is no space in it to
become a separator. -/
theorem flatMap_masked {x : Conjunct} (hx : x.Valid) (separator : Text) :
    (x.masked.flatMap fun a ↦ if a.isSpace then separator else a.write (Veiled.fill id))
      = x.restored := by
  have hwritten : Veiled.fill (Veiled.fill id) x.masked = x.restored := by
    cases x with
    | word w => exact Veiled.fill_ofText _ w
    | run body => simp [masked, restored]
    | group body => simp [masked, restored]
  rw [← hwritten, Veiled.fill]
  refine List.flatMap_congr fun a ha ↦ if_neg fun hspace ↦ ?_
  cases a with
  | plain c =>
    obtain rfl : c = ' ' := of_decide_eq_true hspace
    exact plain_notMem_masked hx (Or.inl (by decide)) ha
  | hidden u => exact Bool.false_ne_true hspace

end Conjunct

private theorem exists_shape_intercalate_masked (x y : Conjunct) (ys : List Conjunct) :
    ∃ t, Cql.NoLetter t ∧ Veiled.shape
      ([.plain ' '].intercalate ((x :: y :: ys).map Conjunct.masked))
        = Veiled.shape x.masked ++ ' ' :: (Veiled.shape y.masked ++ t) := by
  rw [List.map_cons, List.map_cons, List.intercalate_cons_cons, List.append_assoc,
    Veiled.shape_append, Veiled.shape_append]
  cases ys with
  | nil =>
    refine ⟨[], by simp [Cql.NoLetter], ?_⟩
    rw [List.map_nil, List.intercalate_singleton, List.append_nil]
    rfl
  | cons z ys =>
    refine ⟨' ' :: Veiled.shape ([.plain ' '].intercalate ((z :: ys).map Conjunct.masked)),
      Cql.noLetter_cons (by decide) _, ?_⟩
    rw [List.map_cons, List.intercalate_cons_cons, List.append_assoc, Veiled.shape_append,
      Veiled.shape_append]
    rfl

/-- A list of two or more items is no query. -/
theorem phraseIsCql_intercalate_masked {x y : Conjunct} {ys : List Conjunct} (hx : x.Valid)
    (hy : y.Valid) : Cql.phraseIsCql (Veiled.shape
      ([.plain ' '].intercalate ((x :: y :: ys).map Conjunct.masked))) = false := by
  obtain ⟨t, ht, hshape⟩ := exists_shape_intercalate_masked x y ys
  have hfirst := Conjunct.isVisibleTerm_masked hx
  have hsecond := Conjunct.isVisibleTerm_masked hy
  obtain ⟨c, z, hz⟩ := List.exists_cons_of_ne_nil hsecond.ne_nil
  obtain ⟨hopens, hblank, -⟩ := hsecond.plain (c := c) (hz ▸ List.mem_cons_self)
  -- The space leaves a gap behind the first item, and the second one stands behind the gap.
  rw [← Bool.not_eq_true, Cql.phraseIsCql_iff, hshape, not_not, Cql.outcome_visibleTerm hfirst,
    Cql.outcome_of_read_none (Cql.read_operator_space_term hsecond ht), hz, List.cons_append,
    Cql.outcome_cons hopens, show Cql.Stage.feed .word ' ' = .gap from rfl, Cql.Stage.feed, hblank]
  exact Cql.outcome_broken _

/-! ## Repairing a list -/

namespace Listing

variable {xs : List Conjunct} {t : Text}

theorem maskText_normalize (h : Listing xs t) :
    maskText (normalize t) = [.plain ' '].intercalate (xs.map Conjunct.masked) := by
  rw [h.normalize_eq, maskText_joinWith h.valid]

theorem maskedPhrase_eq (h : Listing xs t) :
    ({} : Repairer).maskedPhrase t = maskText (normalize t) := by
  refine isolateAll_of_notMem fun c hc hmem ↦ ?_
  obtain rfl : c = '/' := List.mem_singleton.mp hc
  change _ ∈ maskText (normalize t) at hmem
  rw [h.maskText_normalize] at hmem
  rcases Text.mem_of_mem_intercalate hmem with hmem | ⟨s, hs, hmem⟩
  · exact absurd (List.mem_singleton.mp hmem) (by simp)
  · obtain ⟨x, hx, rfl⟩ := List.mem_map.mp hs
    exact Conjunct.plain_notMem_masked (h.valid x hx) (Or.inr rfl) hmem

theorem joinWith_tokens (supply : KeySupply) (h : Listing xs t) (hlen : t.length < 2 ^ 64)
    (separator : Text) : Text.joinWith separator (({} : Repairer).repair supply t).tokens
      = Text.joinWith separator (xs.map Conjunct.restored) := by
  have htokens := ({} : Repairer).tokens_repair supply
    (({} : Repairer).length_hidden_outline_le hlen)
  have hwritten := Veiled.joinWith_tokens (f := Veiled.fill id)
    (eq_nil_or_separated_maskedParts true (spaced_normalize t))
    (fun a ha ↦ fill_ne_nil_of_hidden_mem_maskedParts ha) separator
  rw [htokens, h.maskedPhrase_eq, maskText, hwritten, ← maskText, h.maskText_normalize,
    Text.flatMap_intercalate, List.map_map, Text.joinWith]
  exact congrArg₂ List.intercalate (List.append_nil separator)
    (List.map_congr_left fun x hx ↦ Conjunct.flatMap_masked (h.valid x hx) separator)

end Listing

/-- **Lists are conjoined.** With the default settings and any supply of numbers, a repair joins the
items of a list by `and`: words and quoted runs as they are, and each group between quotes. Blanks
between the items and what stands in quotes or in a group make no difference. The placeholder
numbers last for every list that fits in memory. -/
theorem repair_listing (supply : KeySupply) {xs : List Conjunct} {t : Text} (h : Listing xs t)
    (hlen : t.length < 2 ^ 64) :
    (({} : Repairer).repair supply t).output
      = Text.joinWith " and ".toList (xs.map Conjunct.restored) := by
  rw [Report.output, joinTokens_eq, h.joinWith_tokens supply hlen, ({} : Repairer).valid_repair,
    h.maskedPhrase_eq, h.maskText_normalize]
  obtain ⟨x, xs, rfl⟩ := List.exists_cons_of_ne_nil h.ne_nil
  cases xs with
  | nil =>
    -- With one item there is nothing to be joined.
    rw [List.map_singleton, List.map_singleton, Text.joinWith, Text.joinWith,
      List.intercalate_singleton, List.intercalate_singleton]
  | cons y ys =>
    obtain ⟨hx, hxs⟩ := List.forall_mem_cons.mp h.valid
    rw [phraseIsCql_intercalate_masked hx (hxs y List.mem_cons_self)]
    rfl

/-- Operators in quotes and what is almost an operator in a group, with numbers that wrap around. -/
theorem repair_listing_of_near_operators :
    (({} : Repairer).repair ⟨18446744073709551615⟩ "a \t\"b / (c or d\"\n(e and)  ()".toList).output
      = "a and \"b / (c or d\" and \"(e and)\" and \"()\"".toList := by
  have hword : (Conjunct.word "a".toList).Valid :=
    ⟨by decide, List.all_eq_true.mp (by decide), by decide⟩
  have hrun : (Conjunct.run "b / (c or d".toList).Valid :=
    ⟨by decide, by decide, by simp [Text.isBlank], Text.not_infix_of_separated
      (show Text.separated _ true "b / (c or d".toList = true by decide)⟩
  have hgroup : (Conjunct.group "e and".toList).Valid :=
    ⟨⟨by decide, by decide, by simp [Text.isBlank], Text.not_infix_of_separated
      (show Text.separated _ true "e and".toList = true by decide)⟩, by simp [Cql.isParen],
      by decide⟩
  have hempty : (Conjunct.group []).Valid :=
    ⟨⟨by decide, by decide, by simp, by decide⟩, by simp, by decide⟩
  have hlisting : Listing [.word "a".toList, .run "b / (c or d".toList, .group "e and".toList,
      .group []] "a \t\"b / (c or d\"\n(e and)  ()".toList :=
    .cons hword (show " \t".toList ≠ [] by decide) (List.all_eq_true.mp (by decide))
      (.cons hrun (show "\n".toList ≠ [] by decide) (List.all_eq_true.mp (by decide))
        (.cons hgroup (show "  ".toList ≠ [] by decide) (List.all_eq_true.mp (by decide))
          (.single hempty)))
  exact (repair_listing ⟨18446744073709551615⟩ hlisting (by decide)).trans (by decide)

end PhraseRepair
