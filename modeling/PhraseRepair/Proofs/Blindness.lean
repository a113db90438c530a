import PhraseRepair.Masking
import PhraseRepair.Proofs.Cells
import PhraseRepair.Proofs.Operators
import PhraseRepair.Proofs.Spacing

/-!
# What is hidden makes no difference

The recognisers of quoted runs, groups and operators do not see the difference between two veils. So
the tests that are made of a veiled phrase, whether it holds an operator, whether it can stand as
CQL, whether a group keeps its grouping, are settled by the shape of the phrase.

The shape is itself a filled phrase, with a single sentinel for every hidden fragment, and that is a
veil too. So each lemma compares two ways of filling a phrase, and the shape is one of them.
-/

namespace PhraseRepair

variable {α : Type}

namespace Veiled

/-- A character that is in no veil can only have been in sight. -/
theorem exists_of_fill_eq_append_cons {f : α → Text} {s : Veiled α} {x y : Text} {c : Char}
    (hc : ∀ a, c ∉ f a) (h : fill f s = x ++ c :: y) :
    ∃ u t, s = u ++ .plain c :: t ∧ fill f u = x ∧ fill f t = y := by
  induction s generalizing x with
  | nil => simp at h
  | cons a s ih =>
    cases a with
    | plain d =>
      cases x with
      | nil =>
        rw [fill_plain, List.nil_append, List.cons.injEq] at h
        exact ⟨[], s, by rw [h.1]; rfl, rfl, h.2⟩
      | cons e x =>
        rw [fill_plain, List.cons_append, List.cons.injEq] at h
        obtain ⟨u, t, rfl, rfl, rfl⟩ := ih h.2
        exact ⟨.plain d :: u, t, rfl, by rw [fill_plain, h.1], rfl⟩
    | hidden a =>
      -- The veil ends before the character.
      rw [fill_hidden] at h
      obtain ⟨z, rfl⟩ : f a <+: x := by
        rcases List.prefix_or_prefix_of_prefix ⟨_, rfl⟩ ⟨_, h.symm⟩ with hpre | hpre
        · exact hpre
        · obtain ⟨z, hz⟩ := hpre
          cases z with
          | nil => exact ⟨[], by simpa using hz.symm⟩
          | cons d z =>
            rw [← hz, List.append_assoc, List.append_right_inj, List.cons_append,
              List.cons.injEq] at h
            exact absurd (hz ▸ List.mem_append_right _ (h.1 ▸ List.mem_cons_self)) (hc a)
      rw [List.append_assoc, List.append_right_inj] at h
      obtain ⟨u, t, rfl, rfl, rfl⟩ := ih h
      exact ⟨.hidden a :: u, t, rfl, rfl, rfl⟩

theorem eq_nil_of_fill_eq_nil {f : α → Text} (hf : ∀ a, f a ≠ []) {s : Veiled α}
    (h : fill f s = []) : s = [] := by
  cases s with
  | nil => rfl
  | cons a s =>
    rw [fill_cons, List.append_eq_nil_iff] at h
    cases a with
    | plain c => exact absurd h.1 (by simp [Symbol.write])
    | hidden a => exact absurd h.1 (hf a)

end Veiled

theorem IsVeil.ne_nil {x : Text} (hx : IsVeil x) : x ≠ [] := by
  obtain ⟨rest, rfl, -⟩ := hx
  simp

theorem IsVeil.isInert_of_mem {x : Text} (hx : IsVeil x) {c : Char} (hc : c ∈ x) :
    Cql.isInert c = true := by
  obtain ⟨rest, rfl, hrest⟩ := hx
  rcases List.mem_cons.mp hc with rfl | hc
  · exact Placeholder.isInert_opening
  · exact hrest c hc

theorem IsVeil.notMem {x : Text} (hx : IsVeil x) {c : Char} (hc : Cql.isInert c = false) :
    c ∉ x := fun h ↦ absurd (hx.isInert_of_mem h) (by simp [hc])

/-! ## Delimited runs

A quoted run and an innermost group are both a text between two delimiters in which some characters
may not stand. If no hidden fragment is filled with one of these, both delimiters are in sight, and
what is between them is a run of symbols. The texts need not be veils: groups are looked for with
whole quoted runs written out as well. -/

section Enclosed

variable (o c : Char) (inside : Char → Bool) (ho : inside o = false) (hc : inside c = false)

include ho hc

/-- A delimited run of a filled phrase is a filled run of symbols between its delimiters. -/
private theorem enclosed?_fill_eq_some_iff {f : α → Text}
    (hf : ∀ a, f a ≠ [] ∧ ∀ d ∈ f a, inside d = true) {s : Veiled α} {body : Text} :
    Text.enclosed? o c inside (Veiled.fill f s) = some body ↔
      ∃ u t, s = .plain o :: u ++ .plain c :: t ∧ Veiled.fill f u = body ∧
        ∀ d, .plain d ∈ u → inside d = true := by
  have hdelimiter : ∀ {d}, inside d = false → ∀ a, d ∉ f a := by
    intro d hd a hmem
    rw [(hf a).2 d hmem] at hd
    exact absurd hd (by decide)
  rw [Text.enclosed?_eq_some_iff hc]
  constructor
  · -- Neither delimiter may stand inside, so neither of them is in a hidden fragment.
    rintro ⟨⟨rest, hrest⟩, hbody⟩
    rw [Text.enclose, List.append_assoc, List.singleton_append, List.cons_append] at hrest
    obtain ⟨v, s', rfl, hv, hs'⟩ := Veiled.exists_of_fill_eq_append_cons (x := [])
      (hdelimiter ho) hrest.symm
    obtain rfl := Veiled.eq_nil_of_fill_eq_nil (fun a ↦ (hf a).1) hv
    obtain ⟨u, t, rfl, hu, -⟩ := Veiled.exists_of_fill_eq_append_cons (hdelimiter hc) hs'
    refine ⟨u, t, rfl, hu, fun d hd ↦ hbody d ?_⟩
    rw [← hu, Veiled.fill, List.mem_flatMap]
    exact ⟨.plain d, hd, List.mem_cons_self⟩
  · rintro ⟨u, t, rfl, rfl, hu⟩
    refine ⟨⟨Veiled.fill f t, by simp [Text.enclose]⟩, fun d hd ↦ ?_⟩
    obtain ⟨a, ha, hda⟩ := List.mem_flatMap.mp hd
    rcases a with e | a
    · exact List.mem_singleton.mp hda ▸ hu e ha
    · exact (hf a).2 d hda

/-- A filled phrase and its shape start with the same delimited run, or neither starts with one. -/
private theorem enclosed?_fill_cases (hopening : inside Placeholder.opening = true)
    {f : α → Text} (hf : ∀ a, f a ≠ [] ∧ ∀ d ∈ f a, inside d = true) (s : Veiled α) :
    (Text.enclosed? o c inside (Veiled.fill f s) = none ∧
        Text.enclosed? o c inside (Veiled.shape s) = none) ∨
      ∃ u t, s = .plain o :: u ++ .plain c :: t ∧
        Text.enclosed? o c inside (Veiled.fill f s) = some (Veiled.fill f u) ∧
        Text.enclosed? o c inside (Veiled.shape s) = some (Veiled.shape u) := by
  have hmark : ∀ a : α, (fun _ ↦ [Placeholder.opening]) a ≠ [] ∧
      ∀ d ∈ (fun _ ↦ [Placeholder.opening]) a, inside d = true := by
    intro a
    exact ⟨by simp, fun d hd ↦ List.mem_singleton.mp hd ▸ hopening⟩
  have hiff : ∀ {g : α → Text}, (∀ a, g a ≠ [] ∧ ∀ d ∈ g a, inside d = true) → ∀ {body},
      Text.enclosed? o c inside (Veiled.fill g s) = some body ↔ _ :=
    fun hg _ ↦ enclosed?_fill_eq_some_iff o c inside ho hc hg
  rw [Veiled.shape_eq_fill]
  by_cases h : ∃ u t, s = .plain o :: u ++ .plain c :: t ∧ ∀ d, .plain d ∈ u → inside d = true
  · obtain ⟨u, t, hs, hu⟩ := h
    exact Or.inr ⟨u, t, hs, (hiff hf).mpr ⟨u, t, hs, rfl, hu⟩,
      (hiff hmark).mpr ⟨u, t, hs, (Veiled.shape_eq_fill u).symm, hu⟩⟩
  · refine Or.inl ⟨?_, ?_⟩ <;> rw [Option.eq_none_iff_forall_ne_some] <;> intro body hbody
    · obtain ⟨u, t, hs, -, hu⟩ := (hiff hf).mp hbody
      exact h ⟨u, t, hs, hu⟩
    · obtain ⟨u, t, hs, -, hu⟩ := (hiff hmark).mp hbody
      exact h ⟨u, t, hs, hu⟩

end Enclosed

namespace Cql

/-! ## Quoted runs and groups -/

/-- What a pair of delimiters encloses. -/
def inner {β : Type} (s : List β) : List β := s.tail.dropLast

theorem skipsInert_quotedRun : quotedRun.SkipsInert := by
  intro c t hc
  have hne : c ≠ '"' := by
    rintro rfl
    exact absurd hc (by decide)
  simp [quotedRun, Text.enclosed?, hne]

theorem skipsInert_innermostGroup : innermostGroup.SkipsInert := by
  intro c t hc
  have hne : c ≠ '(' := by
    rintro rfl
    exact absurd hc (by decide)
  simp [innermostGroup, Text.enclosed?, hne]

private theorem take_enclose {o c : Char} (u t : Veiled α) :
    (.plain o :: u ++ .plain c :: t).take (Text.enclose o c (Veiled.shape u)).length
      = .plain o :: u ++ [.plain c] := by
  have hlen : (Text.enclose o c (Veiled.shape u)).length
      = (Symbol.plain o :: u ++ [Symbol.plain c] : Veiled α).length := by
    simp [Text.enclose]
  rw [hlen, show (Symbol.plain o :: u ++ Symbol.plain c :: t : Veiled α)
    = (.plain o :: u ++ [.plain c]) ++ t by simp, List.take_left]

theorem fill_enclose (o c : Char) (f : α → Text) (u : Veiled α) :
    Veiled.fill f (.plain o :: u ++ [.plain c]) = Text.enclose o c (Veiled.fill f u) := by
  simp [Text.enclose]

theorem mem_of_mem_inner {β : Type} {s : List β} {a : β} (h : a ∈ inner s) : a ∈ s :=
  List.mem_of_mem_tail ((List.dropLast_sublist _).subset h)

@[simp] theorem inner_cons_append {β : Type} (a b : β) (u : List β) :
    inner (a :: u ++ [b]) = u := by
  simp [inner]

theorem read_quotedRun_eq_some_iff {t : Text} {m : Match} : quotedRun.read t = some m ↔
    ∃ body, '"' ∉ body ∧ Text.enclose '"' '"' body <+: t ∧
      m = ⟨Text.enclose '"' '"' body, Text.enclose '"' '"' body⟩ := by
  constructor
  · intro h
    obtain ⟨body, hbody, rfl⟩ := Option.map_eq_some_iff.mp h
    obtain ⟨hpre, hinside⟩ := (Text.enclosed?_eq_some_iff (by decide)).mp hbody
    exact ⟨body, fun hmem ↦ by simpa using hinside '"' hmem, hpre, rfl⟩
  · rintro ⟨body, hbody, hpre, rfl⟩
    have hinside : ∀ c ∈ body, decide (c ≠ '"') = true := fun c hc ↦ decide_eq_true fun h ↦
      hbody (h ▸ hc)
    exact Option.map_eq_some_iff.mpr
      ⟨body, (Text.enclosed?_eq_some_iff (by decide)).mpr ⟨hpre, hinside⟩, rfl⟩

theorem read_quotedRun {body : Text} (hbody : '"' ∉ body) (t : Text) :
    quotedRun.read (Text.enclose '"' '"' body ++ t)
      = some ⟨Text.enclose '"' '"' body, Text.enclose '"' '"' body⟩ :=
  read_quotedRun_eq_some_iff.mpr ⟨body, hbody, List.prefix_append _ _, rfl⟩

theorem blindTo_quotedRun {f : α → Text} (hf : ∀ a, IsVeil (f a)) :
    quotedRun.BlindTo f (Veiled.fill f) := by
  intro s
  have hquote : ∀ a, f a ≠ [] ∧ ∀ d ∈ f a, decide (d ≠ '"') = true := by
    intro a
    refine ⟨(hf a).ne_nil, fun d hd ↦ decide_eq_true ?_⟩
    rintro rfl
    exact (hf a).notMem (by decide) hd
  rcases enclosed?_fill_cases '"' '"' (· ≠ '"') (by decide) (by decide) (by decide) hquote s
    with ⟨hfill, hshape⟩ | ⟨u, t, rfl, hfill, hshape⟩
  · simp only [quotedRun, hfill, hshape, Option.map_none]
  · simp only [quotedRun, hfill, hshape, Option.map_some, take_enclose, fill_enclose]

/-- One of the two parentheses. -/
def isParen (c : Char) : Bool := c = '(' || c = ')'

theorem read_innermostGroup_eq_some_iff {t : Text} {m : Match} : innermostGroup.read t = some m ↔
    ∃ body, (∀ c ∈ body, isParen c = false) ∧ Text.enclose '(' ')' body <+: t ∧
      m = ⟨Text.enclose '(' ')' body, body⟩ := by
  constructor
  · intro h
    obtain ⟨body, hbody, rfl⟩ := Option.map_eq_some_iff.mp h
    obtain ⟨hpre, hinside⟩ := (Text.enclosed?_eq_some_iff (by decide)).mp hbody
    exact ⟨body, fun c hc ↦ by simpa [isParen] using hinside c hc, hpre, rfl⟩
  · rintro ⟨body, hbody, hpre, rfl⟩
    have hinside : ∀ c ∈ body, (decide (c ≠ '(') && decide (c ≠ ')')) = true := fun c hc ↦ by
      simpa [isParen] using hbody c hc
    exact Option.map_eq_some_iff.mpr
      ⟨body, (Text.enclosed?_eq_some_iff (by decide)).mpr ⟨hpre, hinside⟩, rfl⟩

theorem read_group {body : Text} (hbody : ∀ c ∈ body, isParen c = false) (t : Text) :
    innermostGroup.read (Text.enclose '(' ')' body ++ t)
      = some ⟨Text.enclose '(' ')' body, body⟩ :=
  read_innermostGroup_eq_some_iff.mpr ⟨body, hbody, List.prefix_append _ _, rfl⟩

/-- Groups do not depend on anything out of sight that is free of parentheses. -/
theorem blindTo_innermostGroup_of_isParen {f : α → Text}
    (hf : ∀ a, f a ≠ [] ∧ ∀ d ∈ f a, isParen d = false) :
    innermostGroup.BlindTo f fun u ↦ Veiled.fill f (inner u) := by
  intro s
  have hparen : ∀ a, f a ≠ [] ∧ ∀ d ∈ f a, (decide (d ≠ '(') && decide (d ≠ ')')) = true := by
    intro a
    refine ⟨(hf a).1, fun d hd ↦ ?_⟩
    simpa [isParen] using (hf a).2 d hd
  rcases enclosed?_fill_cases '(' ')' (fun c ↦ c ≠ '(' && c ≠ ')') (by decide) (by decide)
    (by decide) hparen s with ⟨hfill, hshape⟩ | ⟨u, t, rfl, hfill, hshape⟩
  · simp only [innermostGroup, hfill, hshape, Option.map_none]
  · simp only [innermostGroup, hfill, hshape, Option.map_some, take_enclose, fill_enclose,
      inner_cons_append]

theorem blindTo_innermostGroup {f : α → Text} (hf : ∀ a, IsVeil (f a)) :
    innermostGroup.BlindTo f fun u ↦ Veiled.fill f (inner u) := by
  refine blindTo_innermostGroup_of_isParen fun a ↦ ⟨(hf a).ne_nil, fun d hd ↦ ?_⟩
  have hd := (hf a).isInert_of_mem hd
  rw [isParen, Bool.or_eq_false_iff, decide_eq_false_iff_not, decide_eq_false_iff_not]
  constructor
  · rintro rfl
    exact absurd hd (by decide)
  · rintro rfl
    exact absurd hd (by decide)

theorem passesOver_innermostGroup {x : Text} (hx : '(' ∉ x) : innermostGroup.PassesOver x := by
  refine Recognizer.passesOver_of_read_none fun c hc t ↦ ?_
  have hne : c ≠ '(' := fun h ↦ hx (h ▸ hc)
  simp [innermostGroup, Text.enclosed?, hne]

/-! ## Operators

No sentinel is in an operator, and every veil begins with one. So an operator never reaches into a
veil, and as many symbols are in sight where one is read as it has characters. -/

theorem skipsInert_operator : operator.SkipsInert := by
  intro c t hc
  refine read_operator_cons_eq_none ?_ t
  simp only [isInert, Text.isBlank, Bool.not_eq_true', Bool.or_eq_false_iff] at hc
  simp [opensOperator, hc]

theorem passesOver_operator {f : α → Text} (hf : ∀ a, IsVeil (f a)) (a : α) :
    operator.PassesOver (f a) := Recognizer.passesOver_of_isVeil skipsInert_operator (hf a)

private theorem opening_notMem_operators : ∀ w ∈ operators, Placeholder.opening ∉ w := by decide

/-- An operator at the beginning of a filled phrase is in sight. -/
private theorem exists_ofText_append {f : α → Text} (hf : ∀ a, IsVeil (f a)) {w : Text}
    (hw : Placeholder.opening ∉ w.map Char.toLower) {s : Veiled α} (h : w <+: Veiled.fill f s) :
    ∃ t, s = Veiled.ofText w ++ t := by
  induction w generalizing s with
  | nil => exact ⟨s, rfl⟩
  | cons c w ih =>
    rw [List.map_cons, List.mem_cons, not_or] at hw
    cases s with
    | nil => exact absurd (List.prefix_nil.mp h) (by simp)
    | cons a s =>
      cases a with
      | plain d =>
        rw [Veiled.fill_plain, List.cons_prefix_cons] at h
        obtain ⟨rfl, hpre⟩ := h
        obtain ⟨t, rfl⟩ := ih hw.2 hpre
        exact ⟨t, rfl⟩
      | hidden a =>
        obtain ⟨rest, hrest, -⟩ := hf a
        rw [Veiled.fill_hidden, hrest, List.cons_append] at h
        rw [(List.cons_prefix_cons.mp h).1] at hw
        exact absurd rfl hw.1

private theorem read_operator_fill {f g : α → Text} (hf : ∀ a, IsVeil (f a)) {s : Veiled α}
    {m : Match} (h : operator.read (Veiled.fill f s) = some m) :
    operator.read (Veiled.fill g s) = some m ∧
      ∃ t, s = Veiled.ofText m.text ++ t := by
  obtain ⟨hvalue, hpre, hmem⟩ := read_operator_eq_some_iff.mp h
  obtain ⟨t, rfl⟩ := exists_ofText_append hf (opening_notMem_operators _ hmem) hpre
  refine ⟨read_operator_eq_some_iff.mpr ⟨hvalue, ?_, hmem⟩, t, rfl⟩
  rw [Veiled.fill_append, Veiled.fill_ofText]
  exact List.prefix_append _ _

theorem blindTo_operator {f : α → Text} (hf : ∀ a, IsVeil (f a)) :
    operator.BlindTo f (Veiled.fill f) := by
  intro s
  have hmark : ∀ a : α, IsVeil ((fun _ ↦ [Placeholder.opening]) a) :=
    fun _ ↦ Placeholder.isVeil_opening
  rw [Veiled.shape_eq_fill]
  cases h : operator.read (Veiled.fill (fun _ ↦ [Placeholder.opening]) s) with
  | some m =>
    obtain ⟨hread, t, hs⟩ := read_operator_fill (g := f) hmark h
    have htake : s.take m.text.length = Veiled.ofText m.text := by
      rw [hs, show m.text.length = (Veiled.ofText m.text : Veiled α).length by
        simp [Veiled.ofText], List.take_left]
    have hvalue := value_eq_text_of_read h
    rw [hread, Option.map_some, htake, Veiled.fill_ofText]
    cases m
    simp_all
  | none =>
    rw [Option.map_none, Option.eq_none_iff_forall_ne_some]
    intro m hm
    have hsome := (read_operator_fill (g := fun _ ↦ [Placeholder.opening]) hf hm).1
    rw [h] at hsome
    exact absurd hsome (by simp)

/-! ## The tests of a phrase

A phrase is trimmed before its spaces are counted, and the number of characters that go is not the
same for a filled phrase and for its shape. So it is not shown that trimming commutes with filling.
A space that stays has something else before and behind it (`Text.mem_trim_iff`), and that can be
told from the symbols on either side of it. -/

section Tests

variable {f : α → Text} (hf : ∀ a, IsVeil (f a)) (s : Veiled α)

include hf

theorem containsOperator_fill :
    containsOperator (Veiled.fill f s) = containsOperator (Veiled.shape s) := by
  have hmark : ∀ a : α, IsVeil ((fun _ ↦ [Placeholder.opening]) a) :=
    fun _ ↦ Placeholder.isVeil_opening
  rw [Veiled.shape_eq_fill, containsOperator, containsOperator,
    Recognizer.matchesIn_fill (passesOver_operator hf) (blindTo_operator hf),
    Recognizer.matchesIn_fill (passesOver_operator hmark) (blindTo_operator hmark)]

theorem hasSentinel_fill :
    Placeholder.hasSentinel (Veiled.fill f s) = Placeholder.hasSentinel (Veiled.shape s) := by
  induction s with
  | nil => rfl
  | cons a s ih =>
    rw [Placeholder.hasSentinel, Placeholder.hasSentinel] at ih ⊢
    rw [Veiled.fill_cons, List.any_append, ih, Veiled.shape_cons, List.any_cons]
    cases a with
    | plain c => simp [Symbol.write, Symbol.shape]
    | hidden a =>
      obtain ⟨rest, hrest, -⟩ := hf a
      have hopening : Placeholder.isSentinel Placeholder.opening = true := by decide
      simp [Symbol.write, Symbol.shape, hrest, hopening]

private theorem contains_trim_fill :
    (Text.trim (Veiled.fill f s)).contains ' ' = (Text.trim (Veiled.shape s)).contains ' ' := by
  have hspace : Text.isBlank ' ' = true := by decide
  have hmark : ∀ a : α, IsVeil ((fun _ ↦ [Placeholder.opening]) a) :=
    fun _ ↦ Placeholder.isVeil_opening
  -- Either way of filling leaves the same symbols on the two sides of a space.
  have hsplit : ∀ {g h : α → Text}, (∀ a, IsVeil (g a)) → (∀ a, IsVeil (h a)) →
      ' ' ∈ Text.trim (Veiled.fill g s) → ' ' ∈ Text.trim (Veiled.fill h s) := by
    intro g h hg hh hmem
    have hside : ∀ u : Veiled α, (∃ d ∈ Veiled.fill g u, Text.isBlank d = false) →
        ∃ d ∈ Veiled.fill h u, Text.isBlank d = false := by
      rintro u ⟨d, hd, hblank⟩
      obtain ⟨a, ha, hda⟩ := List.mem_flatMap.mp hd
      cases a with
      | plain e => exact ⟨d, List.mem_flatMap.mpr ⟨_, ha, hda⟩, hblank⟩
      | hidden a =>
        obtain ⟨rest, hrest, -⟩ := hh a
        refine ⟨Placeholder.opening, List.mem_flatMap.mpr ⟨_, ha, ?_⟩, by decide⟩
        rw [Symbol.write, hrest]
        exact List.mem_cons_self
    obtain ⟨x, y, hxy, hx, hy⟩ := (Text.mem_trim_iff hspace).mp hmem
    obtain ⟨u, t, rfl, rfl, rfl⟩ := Veiled.exists_of_fill_eq_append_cons
      (fun a ↦ (hg a).notMem (by decide)) hxy
    refine (Text.mem_trim_iff hspace).mpr ⟨_, _, ?_, hside u hx, hside t hy⟩
    rw [Veiled.fill_append, Veiled.fill_plain]
  rw [Veiled.shape_eq_fill, Bool.eq_iff_iff, List.contains_iff_mem, List.contains_iff_mem]
  exact ⟨hsplit hf hmark, hsplit hmark hf⟩

theorem isCql_fill : isCql (Veiled.fill f s) = isCql (Veiled.shape s) := by
  rw [isCql, isCql, contains_trim_fill hf, containsOperator_fill hf]

theorem keepsGrouping_fill (quoteBare : Bool) :
    keepsGrouping quoteBare (Veiled.fill f s) = keepsGrouping quoteBare (Veiled.shape s) := by
  rw [keepsGrouping, keepsGrouping, hasSentinel_fill hf, containsOperator_fill hf, isCql_fill hf]

end Tests

/-! ## The operands of a phrase -/

/-- What lies before, between and behind the matches among some cells. -/
def operandsOfCells : List (Cell α) → List (Veiled α)
  | [] => [[]]
  | .plain a :: cells => (operandsOfCells cells).modifyHead (a :: ·)
  | .hit _ :: cells => [] :: operandsOfCells cells

private theorem between_map_plain_append (x : Text) (items : List Item) :
    Recognizer.between (x.map .plain ++ items)
      = (Recognizer.between items).modifyHead (x ++ ·) := by
  induction x with
  | nil =>
    rw [List.map_nil, List.nil_append]
    cases Recognizer.between items <;> rfl
  | cons c x ih =>
    rw [List.map_cons, List.cons_append, Recognizer.between, ih]
    cases Recognizer.between items <;> rfl

private theorem between_items {f : α → Text} {value : Veiled α → Text} (cells : List (Cell α)) :
    Recognizer.between (cells.flatMap (Cell.items f value))
      = (operandsOfCells cells).map (Veiled.fill f) := by
  induction cells with
  | nil => rfl
  | cons cell cells ih =>
    rw [List.flatMap_cons]
    cases cell with
    | plain a =>
      rw [Cell.items, between_map_plain_append, ih, operandsOfCells]
      cases operandsOfCells cells <;> rfl
    | hit u =>
      rw [Cell.items, List.singleton_append, Recognizer.between, ih, operandsOfCells]
      rfl

/-- **Validity is a matter of shape.** -/
theorem phraseIsCql_fill {f : α → Text} (hf : ∀ a, IsVeil (f a)) (s : Veiled α) :
    phraseIsCql (Veiled.fill f s) = phraseIsCql (Veiled.shape s) := by
  have hmark : ∀ a : α, IsVeil ((fun _ ↦ [Placeholder.opening]) a) :=
    fun _ ↦ Placeholder.isVeil_opening
  have hoperands : ∀ {g : α → Text}, (∀ a, IsVeil (g a)) →
      phraseIsCql (Veiled.fill g s)
        = (operandsOfCells (operator.cells s)).all fun u ↦ isCql (Veiled.shape u) := by
    intro g hg
    rw [phraseIsCql, operands, Recognizer.segments,
      Recognizer.scan_fill (passesOver_operator hg) (blindTo_operator hg), between_items,
      List.all_map]
    exact congrArg _ (funext fun u ↦ isCql_fill hg u)
  rw [hoperands hf, Veiled.shape_eq_fill, hoperands hmark]

end Cql

end PhraseRepair
