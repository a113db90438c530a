import PhraseRepair.Proofs.Acceptance

/-!
# Reading a phrase with other spaces

A repair isolates reserved characters, drops the spaces that are left over, and either keeps single
spaces between the words or writes `and` there. Read again, an isolated character is a fragment out
of sight, and there are other spaces around it than before.

Joined by `and`, words can always be read (`outcome_joinWith_and`). With single spaces, they can be
read if the phrase with its isolated characters could (`outcome_normalizeSpace`): a space that is
dropped stood next to another one, and next to an isolated character, where no operator reaches
across.
-/

namespace PhraseRepair.Cql

open Text (isBlank padded words normalizeSpace joinWith separated)

/-! ## Words joined by an operator

Between two operators there is a single run, so nothing can break. A run may end like the beginning
of an operator, but it holds no space, so what follows it is read from its own beginning. -/

private theorem outcome_append_of_forall_not_blank {w : Text} (hw : ∀ c ∈ w, isBlank c = false)
    {s : Stage} (hs : s = .blank ∨ s = .word) (t : Text) :
    ∃ s', (s' = .blank ∨ s' = .word) ∧ outcome s (w ++ t) = outcome s' t := by
  induction w generalizing s with
  | nil => exact ⟨s, hs, rfl⟩
  | cons c w ih =>
    have hc := hw c List.mem_cons_self
    have ih := fun {s} ↦ ih (fun d hd ↦ hw d (List.mem_cons_of_mem _ hd)) (s := s)
    have hspace : c ≠ ' ' := by
      rintro rfl
      exact absurd hc (by decide)
    rw [List.cons_append]
    by_cases hsign : c = '=' ∨ c = '(' ∨ c = ')'
    · have hreset : s.reset = .blank := by rcases hs with rfl | rfl <;> rfl
      rw [outcome_sign hsign, hreset]
      exact ih (Or.inl rfl)
    · have hfeed : s.feed c = .word := by rcases hs with rfl | rfl <;> simp [Stage.feed, hc, hspace]
      rw [outcome_cons (by simpa [opensOperator, hspace, and_assoc] using hsign), hfeed]
      exact ih (Or.inr rfl)

/-- **Words joined by `and`.** They can be read, whatever they are. -/
theorem outcome_joinWith_and {ws : List Text} (hws : ∀ w ∈ ws, ∀ c ∈ w, isBlank c = false)
    {s : Stage} (hs : s = .blank ∨ s = .word) :
    outcome s (joinWith " and ".toList ws) ≠ .broken := by
  induction ws generalizing s with
  | nil => rcases hs with rfl | rfl <;> decide
  | cons w ws ih =>
    have hw := hws w List.mem_cons_self
    cases ws with
    | nil =>
      obtain ⟨s', hs', h⟩ := outcome_append_of_forall_not_blank hw hs []
      rw [joinWith, List.intercalate_singleton, ← List.append_nil w, h]
      rcases hs' with rfl | rfl <;> decide
    | cons v ws =>
      obtain ⟨s', hs', h⟩ := outcome_append_of_forall_not_blank hw hs
        (" and ".toList ++ joinWith " and ".toList (v :: ws))
      have hreset : s'.reset = .blank := by rcases hs' with rfl | rfl <;> rfl
      rw [joinWith, List.intercalate_cons_cons, ← joinWith, List.append_assoc, h,
        outcome_keyword (by decide), hreset]
      exact ih (fun u hu ↦ hws u (List.mem_cons_of_mem _ hu)) (Or.inl rfl)

/-! ## Spaces

Where a space is no operator, a second one behind it changes nothing, and the stage behind a space
is never that of a word. No more is needed to drop some. -/

theorem outcome_space (s : Stage) : outcome s [' '] = s.feed ' ' :=
  outcome_of_read_none (by decide) s

theorem outcome_word_space_space (t : Text) :
    outcome .word (' ' :: ' ' :: t) = outcome .word (' ' :: t) := by
  have h := outcome_append_space_space .word [] t
  rw [List.nil_append, List.nil_append, outcome_space] at h
  refine h.trans ?_
  cases hread : operator.read (' ' :: t) with
  | none =>
    rw [outcome_of_read_none hread, outcome_of_read_none hread]
    rfl
  | some m =>
    rw [outcome, outcome, operator.scan_of_read hread]
    rfl

theorem outcome_append_space_ne_word (s : Stage) (x : Text) : outcome s (x ++ [' ']) ≠ .word := by
  generalize ht : x ++ [' '] = t
  have hlast : t.getLast? = some ' ' := by rw [← ht, List.getLast?_concat]
  clear ht
  induction t using operator.scan_induction generalizing s with
  | nil => exact absurd hlast (by simp)
  | plain c t hread ih =>
    rw [outcome_of_read_none hread]
    rcases List.eq_nil_or_concat t with rfl | ⟨t, d, rfl⟩
    · obtain rfl : c = ' ' := by simpa using hlast
      rw [outcome_nil]
      cases s <;> decide
    · exact ih _ (by simpa [List.getLast?_cons] using hlast)
  | hit m t hread ih =>
    rw [outcome_of_read hread]
    rcases List.eq_nil_or_concat t with rfl | ⟨t, d, rfl⟩
    · rw [outcome_nil]
      cases s <;> decide
    · exact ih _ (by simpa [List.getLast?_append] using hlast)

theorem outcome_append_space_of_blank {s : Stage} {x b : Text} (hb : b = [] ∨ b = [' '])
    (h : outcome s (x ++ b ++ [' ']) = .blank) : outcome s (x ++ [' ']) = .blank := by
  rcases hb with rfl | rfl
  · rwa [List.append_nil] at h
  · rw [List.append_assoc, List.singleton_append, outcome_append_space_space, outcome_space] at h
    revert h
    cases outcome s (x ++ [' ']) <;> decide

/-! ## Isolated characters

In front of an isolated character there is a space, and behind the space a quote. So if the text can
be read, an operand is to be begun there. The quotes and the character between them make up a word,
which is also what a hidden fragment is. The equals sign is an operator itself, and then the last
quote begins a word behind it. -/

/-- A character as it is isolated. -/
def isolateChar (cs : List Char) (c : Char) : Text :=
  if c ∈ cs then [' ', '"', c, '"', ' '] else [c]

/-- A character, if it is isolated, out of sight. -/
def concealChar (cs : List Char) (c : Char) : Text :=
  if c ∈ cs then [' ', Placeholder.opening, ' '] else [c]

theorem isolateChar_of_notMem {cs : List Char} {c : Char} (hc : c ∉ cs) : isolateChar cs c = [c] :=
  if_neg hc

theorem concealChar_of_notMem {cs : List Char} {c : Char} (hc : c ∉ cs) : concealChar cs c = [c] :=
  if_neg hc

/-- An isolated character can be read only where an operator has just been read, and a word is being
read behind it. -/
theorem outcome_isolated {s : Stage} {x z : Text} {c : Char} (hspace : c ≠ ' ')
    (hparen : c ≠ '(' ∧ c ≠ ')')
    (h : outcome s (x ++ [' ', '"', c, '"', ' '] ++ z) ≠ .broken) :
    outcome s (x ++ [' ']) = .blank ∧ outcome .word (' ' :: z) ≠ .broken := by
  have hquote : ∀ s t, outcome s ('"' :: t) = outcome (s.feed '"') t :=
    fun s t ↦ outcome_cons (by decide) s t
  rw [show x ++ [' ', '"', c, '"', ' '] ++ z = x ++ [' '] ++ '"' :: c :: '"' :: ' ' :: z by simp,
    outcome_append_cons (by decide), hquote] at h
  -- With the stage `gap` behind the space, the quote would break what is read.
  have hblank : outcome s (x ++ [' ']) = .blank := by
    have hword := outcome_append_space_ne_word s x
    cases hstage : outcome s (x ++ [' ']) with
    | blank => rfl
    | word => exact absurd hstage hword
    | gap =>
      rw [hstage] at h
      exact absurd (outcome_broken _) h
    | broken =>
      rw [hstage] at h
      exact absurd (outcome_broken _) h
  rw [hblank] at h
  refine ⟨hblank, ?_⟩
  by_cases heq : c = '='
  · -- Behind an equals sign the last quote begins a new operand.
    rw [heq, outcome_sign (Or.inl rfl), hquote] at h
    exact h
  · have hfeed : ((Stage.blank.feed '"').feed c).feed '"' = .word := by
      simp [Stage.feed, isBlank, hspace]
    rw [outcome_cons (by simp [opensOperator, hspace, heq, hparen]), hquote, hfeed] at h
    exact h

theorem outcome_concealed {s : Stage} {x : Text} (h : outcome s (x ++ [' ']) = .blank) (z : Text) :
    outcome s (x ++ ' ' :: Placeholder.opening :: z) = outcome .word z := by
  rw [show x ++ ' ' :: Placeholder.opening :: z = x ++ [' '] ++ Placeholder.opening :: z by simp,
    outcome_append_cons (by decide), h]
  exact outcome_cons (by decide) .blank z

/-! ## What lies between isolated characters

The text is cut at its isolated characters into segments. The first one is read from the beginning,
every other one behind the space of the character before it, and all but the last are followed by
the space of the next character. So there are three kinds of segments, and none of them is a case of
another. -/

section Segments

variable {t : Text} (hblank : ∀ c ∈ t, isBlank c = true → c = ' ')

include hblank

private theorem outcome_word_segment (hdouble : ¬ [' ', ' '] <:+: t)
    (h : outcome .word (' ' :: t ++ [' ']) = .blank) :
    outcome .word (padded (words t) ++ [' ']) = .blank := by
  obtain ⟨a, u, b, rfl, ha, hb, hu⟩ := Text.exists_spaced_of_single hblank hdouble
  rw [Text.words_append_ends ha hb]
  by_cases hne : u = []
  · -- Spaces alone are no operator.
    subst hne
    exfalso
    revert h
    rcases ha with rfl | rfl <;> rcases hb with rfl | rfl <;> decide
  · rw [Text.padded_words hu hne]
    refine outcome_append_space_of_blank hb ?_
    rcases ha with rfl | rfl
    · exact h
    · rw [← h]
      exact (outcome_word_space_space _).symm

private theorem outcome_word_last {fresh : Bool} (hsep : separated (· == ' ') fresh t = true)
    (h : outcome .word (' ' :: t) ≠ .broken) : outcome .word (padded (words t)) ≠ .broken := by
  obtain ⟨a, u, b, rfl, ha, hb, hu⟩ :=
    Text.exists_spaced_of_single hblank (Text.not_infix_of_separated hsep)
  have hb : b = [] := hb.resolve_right fun hspace ↦ by
    rw [hspace, Text.separated_append_space] at hsep
    exact absurd hsep (by decide)
  rw [Text.words_append_ends ha (Or.inl hb)]
  rw [hb, List.append_nil] at h
  by_cases hne : u = []
  · rw [hne]
    decide
  · rw [Text.padded_words hu hne]
    rcases ha with rfl | rfl
    · exact h
    · rwa [List.singleton_append, outcome_word_space_space] at h

private theorem outcome_blank_segment (hdouble : ¬ [' ', ' '] <:+: t) (hhead : t.head? ≠ some ' ')
    (h : outcome .blank (t ++ [' ']) = .blank) :
    outcome .blank (normalizeSpace t ++ [' ']) = .blank := by
  obtain ⟨a, u, b, rfl, ha, hb, hu⟩ := Text.exists_spaced_of_single hblank hdouble
  have ha : a = [] := ha.resolve_right fun hspace ↦ hhead (by rw [hspace]; rfl)
  rw [normalizeSpace, Text.words_append_ends (Or.inl ha) hb, ← normalizeSpace,
    Text.normalizeSpace_of_spaced hu]
  rw [ha] at h
  exact outcome_append_space_of_blank hb h

end Segments

/-! ## Words joined by spaces

The induction cuts the text at its first isolated character and goes by the length of the text. -/

section Isolated

variable {cs : List Char} (hcs : ∀ c ∈ cs, c ≠ ' ' ∧ c ≠ '(' ∧ c ≠ ')')

include hcs

omit hcs in
private theorem flatMap_of_notMem {g : Char → Text} (hg : ∀ c ∉ cs, g c = [c]) {x : Text}
    (hx : ∀ c ∈ x, decide (c ∈ cs) = false) : x.flatMap g = x := by
  induction x with
  | nil => rfl
  | cons c x ih =>
    rw [List.flatMap_cons, hg c (by simpa using hx c List.mem_cons_self),
      ih fun d hd ↦ hx d (List.mem_cons_of_mem _ hd)]
    rfl

section First

variable {x : Text} (hx : ∀ c ∈ x, decide (c ∈ cs) = false) {c : Char} (hc : c ∈ cs)

include hx hc

omit hcs in
private theorem flatMap_isolateChar_append (y : Text) : (x ++ c :: y).flatMap (isolateChar cs)
    = x ++ [' ', '"', c, '"', ' '] ++ y.flatMap (isolateChar cs) := by
  rw [List.flatMap_append, List.flatMap_cons, flatMap_of_notMem (fun _ ↦ isolateChar_of_notMem) hx,
    isolateChar, if_pos hc, List.append_assoc]

omit hcs in
private theorem words_flatMap_concealChar_append (y : Text) :
    words ((x ++ c :: y).flatMap (concealChar cs))
      = words x ++ [Placeholder.opening] :: words (y.flatMap (concealChar cs)) := by
  rw [List.flatMap_append, List.flatMap_cons, flatMap_of_notMem (fun _ ↦ concealChar_of_notMem) hx,
    concealChar, if_pos hc, List.cons_append, Text.words_append_cons (by decide), List.cons_append,
    List.singleton_append, ← List.singleton_append, Text.words_append_cons (by decide)]
  rfl

end First

private theorem outcome_padded {t : Text} (hblank : ∀ c ∈ t, isBlank c = true → c = ' ')
    {fresh : Bool} (hsep : separated (· == ' ') fresh t = true)
    (h : outcome .word (' ' :: t.flatMap (isolateChar cs)) ≠ .broken) :
    outcome .word (padded (words (t.flatMap (concealChar cs)))) ≠ .broken := by
  induction hn : t.length using Nat.strongRecOn generalizing t fresh with
  | ind n ih =>
    rcases Text.exists_first (fun c ↦ decide (c ∈ cs)) t with hfree | ⟨x, c, y, rfl, hx, hc⟩
    · rw [flatMap_of_notMem (fun _ ↦ isolateChar_of_notMem) hfree] at h
      rw [flatMap_of_notMem (fun _ ↦ concealChar_of_notMem) hfree]
      exact outcome_word_last hblank hsep h
    · have hc : c ∈ cs := of_decide_eq_true hc
      rw [flatMap_isolateChar_append hx hc, ← List.cons_append, ← List.cons_append] at h
      obtain ⟨hsegment, hrest⟩ := outcome_isolated (hcs c hc).1 (hcs c hc).2 h
      have hdouble : ¬ [' ', ' '] <:+: x := fun hx ↦ Text.not_infix_of_separated hsep
        (hx.trans (List.prefix_append x (c :: y)).isInfix)
      have hsegment := outcome_word_segment
        (fun d hd ↦ hblank d (List.mem_append_left _ hd)) hdouble hsegment
      rw [words_flatMap_concealChar_append hx hc, Text.padded_append_cons,
        List.singleton_append, outcome_concealed hsegment]
      refine ih y.length ?_ (fun d hd ↦ hblank d ?_)
        (Text.separated_of_append (by simpa using (hcs c hc).1) hsep) hrest rfl
      · rw [← hn, List.length_append, List.length_cons]
        omega
      · exact List.mem_append_right _ (List.mem_cons_of_mem _ hd)

/-- **Words joined by spaces.** If a phrase with normal spacing can be read with its isolated
characters quoted, it can be read with them out of sight and with normal spacing again. -/
theorem outcome_normalizeSpace {t : Text} (ht : Text.Spaced t)
    (h : outcome .blank (t.flatMap (isolateChar cs)) ≠ .broken) :
    outcome .blank (normalizeSpace (t.flatMap (concealChar cs))) ≠ .broken := by
  rcases Text.exists_first (fun c ↦ decide (c ∈ cs)) t with hfree | ⟨x, c, y, rfl, hx, hc⟩
  · rw [flatMap_of_notMem (fun _ ↦ isolateChar_of_notMem) hfree] at h
    rw [flatMap_of_notMem (fun _ ↦ concealChar_of_notMem) hfree, Text.normalizeSpace_of_spaced ht]
    exact h
  · have hc : c ∈ cs := of_decide_eq_true hc
    have hsep : separated (· == ' ') true (x ++ c :: y) = true :=
      ht.2.resolve_left (by simp)
    rw [flatMap_isolateChar_append hx hc] at h
    obtain ⟨hsegment, hrest⟩ := outcome_isolated (hcs c hc).1 (hcs c hc).2 h
    have hrest := outcome_padded hcs
      (fun d hd ↦ ht.1 d (List.mem_append_right _ (List.mem_cons_of_mem _ hd)))
      (Text.separated_of_append (by simpa using (hcs c hc).1) hsep) hrest
    have hdouble : ¬ [' ', ' '] <:+: x := fun hx ↦ Text.not_infix_of_separated hsep
      (hx.trans (List.prefix_append x (c :: y)).isInfix)
    have hhead : x.head? ≠ some ' ' := by
      intro hhead
      obtain ⟨x, rfl⟩ := List.head?_eq_some_iff.mp hhead
      exact absurd hsep (by simp [separated])
    rw [normalizeSpace, words_flatMap_concealChar_append hx hc]
    -- The first segment may have no words, and then nothing stands before the isolated character.
    have hfirst := outcome_blank_segment
      (fun d hd ↦ ht.1 d (List.mem_append_left _ hd)) hdouble hhead hsegment
    rw [normalizeSpace] at hfirst
    rcases hwords : words x with _ | ⟨w, ws⟩
    · rw [List.nil_append, Text.joinWith_cons, List.singleton_append, outcome_cons (by decide)]
      exact hrest
    · rw [hwords, Text.joinWith_cons] at hfirst
      rw [List.cons_append, Text.joinWith_cons, Text.padded_append_cons, ← List.append_assoc,
        List.singleton_append, outcome_concealed hfirst]
      exact hrest

end Isolated

end PhraseRepair.Cql
