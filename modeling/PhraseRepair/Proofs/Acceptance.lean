import PhraseRepair.Cql.Fragment
import PhraseRepair.Cql.Validity
import PhraseRepair.Proofs.Operators
import PhraseRepair.Proofs.Scanning
import PhraseRepair.Proofs.Spacing
import PhraseRepair.Placeholder

/-!
# Reading a phrase from left to right

Whether a phrase is a query can be told in one pass over the items of its operator scan. Between two
operators there may be one run without spaces, with blanks around it, so it is enough to remember
how far this run has got: it has not begun, it goes on, a space has followed it, or something has
followed that space, and then the phrase is no query (`phraseIsCql_iff`).

The pass over a longer text continues the pass over a shorter one wherever no operator lies across
the joint, as at a quote, a sign or a hidden fragment.
-/

namespace PhraseRepair.Cql

/-! ## Stages

Blanks at the ends of an operand are trimmed before it is looked at, and a space anywhere else shows
that it is more than one run. Whether a space is at the end is not known when it is read. So the
stage behind it is one of its own, `gap`, from which only a further character leads to `broken`
(`foldl_feed_blank`). -/

/-- How far the operand that is being read has got. -/
inductive Stage
  | blank
  | word
  | gap
  | broken
  deriving DecidableEq, Repr

namespace Stage

/-- The stage after one more character of the operand. -/
def feed : Stage → Char → Stage
  | blank, c => if Text.isBlank c then blank else word
  | word, c => if c = ' ' then gap else word
  | gap, c => if Text.isBlank c then gap else broken
  | broken, _ => broken

/-- The stage after an operator. -/
def reset : Stage → Stage
  | broken => broken
  | _ => blank

/-- The stage after one more item. -/
def advance (s : Stage) : Item → Stage
  | .plain c => s.feed c
  | .hit _ => s.reset

@[simp] theorem foldl_feed_broken (t : Text) : t.foldl feed broken = broken := by
  induction t with
  | nil => rfl
  | cons c t ih => exact ih

theorem foldl_advance_broken (items : List Item) : items.foldl advance broken = broken := by
  induction items with
  | nil => rfl
  | cons item items ih => rcases item with c | m <;> exact ih

private theorem foldl_feed_gap {t : Text} :
    t.foldl feed gap = broken ↔ ∃ d ∈ t, Text.isBlank d = false := by
  induction t with
  | nil => simp
  | cons c t ih =>
    rw [List.foldl_cons, feed]
    by_cases hc : Text.isBlank c = true
    · simp [hc, ih]
    · simp [hc]

private theorem foldl_feed_word {t : Text} :
    t.foldl feed word = broken ↔ ∃ x y, t = x ++ ' ' :: y ∧ ∃ d ∈ y, Text.isBlank d = false := by
  induction t with
  | nil => simp
  | cons c t ih =>
    rw [List.foldl_cons, feed]
    by_cases hc : c = ' '
    · rw [if_pos hc, foldl_feed_gap]
      constructor
      · exact fun h ↦ ⟨[], t, by rw [hc]; rfl, h⟩
      · rintro ⟨x, y, hxy, d, hd, hblank⟩
        rcases x with _ | ⟨e, x⟩
        · rw [List.nil_append, List.cons.injEq] at hxy
          exact ⟨d, hxy.2 ▸ hd, hblank⟩
        · rw [List.cons_append, List.cons.injEq] at hxy
          exact ⟨d, hxy.2 ▸ List.mem_append_right _ (List.mem_cons_of_mem _ hd), hblank⟩
    · rw [if_neg hc, ih]
      constructor
      · rintro ⟨x, y, rfl, h⟩
        exact ⟨c :: x, y, rfl, h⟩
      · rintro ⟨x, y, hxy, h⟩
        rcases x with _ | ⟨e, x⟩
        · exact absurd (List.cons.inj hxy).1 hc
        · exact ⟨x, y, (List.cons.inj hxy).2, h⟩

theorem foldl_feed_blank {t : Text} :
    t.foldl feed blank = broken ↔ ' ' ∈ Text.trim t := by
  rw [Text.mem_trim_iff (by decide)]
  induction t with
  | nil => simp
  | cons c t ih =>
    rw [List.foldl_cons, feed]
    by_cases hc : Text.isBlank c = true
    · rw [if_pos hc, ih]
      constructor
      · rintro ⟨x, y, rfl, ⟨d, hd, hblank⟩, hy⟩
        exact ⟨c :: x, y, rfl, ⟨d, List.mem_cons_of_mem _ hd, hblank⟩, hy⟩
      · rintro ⟨x, y, hxy, ⟨d, hd, hblank⟩, hy⟩
        rcases x with _ | ⟨e, x⟩
        · exact absurd hd List.not_mem_nil
        · -- The blank at the head does not count as something before the space.
          obtain ⟨rfl, rfl⟩ := List.cons.inj hxy
          rcases List.mem_cons.mp hd with rfl | hd
          · rw [hc] at hblank
            exact absurd hblank (by decide)
          · exact ⟨x, y, rfl, ⟨d, hd, hblank⟩, hy⟩
    · rw [if_neg hc, foldl_feed_word]
      -- From here on any space counts that has something behind it.
      have hblank : Text.isBlank c = false := Bool.eq_false_iff.mpr hc
      constructor
      · rintro ⟨x, y, rfl, hy⟩
        exact ⟨c :: x, y, rfl, ⟨c, List.mem_cons_self, hblank⟩, hy⟩
      · rintro ⟨x, y, hxy, -, hy⟩
        rcases x with _ | ⟨e, x⟩
        · rw [(List.cons.inj hxy).1] at hc
          exact absurd (by decide) hc
        · exact ⟨x, y, (List.cons.inj hxy).2, hy⟩

end Stage

/-! ## Operands

An operator in an operand would start at a place that the scan of the phrase has passed over. But
what is read in a text is read in every longer text, so it would have been read there. Hence of the
two ways to stand as CQL, to hold an operator and to be a single run, an operand has only the
second. -/

private theorem exists_between_eq_cons (items : List Item) :
    ∃ o os, Recognizer.between items = o :: os := by
  refine List.exists_cons_of_ne_nil fun hnil ↦ ?_
  have hlength := Recognizer.length_between items
  rw [hnil] at hlength
  exact absurd hlength (by simp)

private theorem between_cons_isPrefix {t o : Text} {os : List Text}
    (h : Recognizer.between (operator.scan t) = o :: os) : o <+: t := by
  induction t using operator.scan_induction generalizing o os with
  | nil =>
    obtain rfl : [] = o := (List.cons.inj h).1
    exact List.nil_prefix
  | plain c t hread ih =>
    rw [operator.scan_of_read_none hread, Recognizer.between] at h
    obtain ⟨o', os', hrest⟩ := exists_between_eq_cons (operator.scan t)
    rw [hrest, List.modifyHead_cons, List.cons.injEq] at h
    obtain ⟨rfl, -⟩ := h
    exact List.cons_prefix_cons.mpr ⟨rfl, ih hrest⟩
  | hit m t hread ih =>
    rw [operator.scan_match_append hread, Recognizer.between, List.cons.injEq] at h
    rw [← h.1]
    exact List.nil_prefix

/-- No operator is left in an operand. -/
theorem containsOperator_of_mem_operands {t o : Text} (ho : o ∈ operands t) :
    containsOperator o = false := by
  rw [containsOperator, operator.matchesIn_eq_false_iff]
  rw [operands, Recognizer.segments] at ho
  induction t using operator.scan_induction generalizing o with
  | nil =>
    obtain rfl : o = [] := by simpa [Recognizer.between] using ho
    intro u hu
    rw [List.suffix_nil.mp hu]
    decide
  | plain c t hread ih =>
    rw [operator.scan_of_read_none hread, Recognizer.between] at ho
    obtain ⟨o', os', hrest⟩ := exists_between_eq_cons (operator.scan t)
    rw [hrest] at ih ho
    rw [List.modifyHead_cons, List.mem_cons] at ho
    rcases ho with rfl | ho
    · -- An operator at the head of the operand would have been read in the phrase.
      intro u hu
      rcases List.suffix_cons_iff.mp hu with rfl | hu
      · obtain ⟨rest, rfl⟩ := between_cons_isPrefix hrest
        rw [Option.eq_none_iff_forall_ne_some]
        intro m hm
        have hlong := read_operator_append hm rest
        rw [List.cons_append, hread] at hlong
        exact absurd hlong (by simp)
      · exact ih List.mem_cons_self u hu
    · exact ih (List.mem_cons_of_mem _ ho)
  | hit m t hread ih =>
    rw [operator.scan_match_append hread, Recognizer.between, List.mem_cons] at ho
    rcases ho with rfl | ho
    · intro u hu
      rw [List.suffix_nil.mp hu]
      decide
    · exact ih ho

/-! ## The pass

An operator sets the stage back for the next operand, unless the operand before it is broken. So at
the end of the phrase the stage still tells whether any operand was. In the induction along the
items the first operand is read from any stage, since it is begun already when an item has been
taken off. -/

/-- The stage after a text has been read, from the given stage. -/
def outcome (s : Stage) (t : Text) : Stage := (operator.scan t).foldl Stage.advance s

@[simp] theorem outcome_nil (s : Stage) : outcome s [] = s := rfl

@[simp] theorem outcome_broken (t : Text) : outcome .broken t = .broken :=
  Stage.foldl_advance_broken _

private theorem foldl_advance_eq_broken {items : List Item} {s : Stage} {o : Text} {os : List Text}
    (h : Recognizer.between items = o :: os) :
    items.foldl Stage.advance s = .broken ↔
      o.foldl Stage.feed s = .broken ∨ ∃ o' ∈ os, o'.foldl Stage.feed .blank = .broken := by
  induction items generalizing s o os with
  | nil =>
    obtain ⟨rfl, rfl⟩ := List.cons.inj h
    simp
  | cons item items ih =>
    rcases item with c | m
    · obtain ⟨o', os', hrest⟩ := exists_between_eq_cons items
      rw [Recognizer.between, hrest, List.modifyHead_cons, List.cons.injEq] at h
      obtain ⟨rfl, rfl⟩ := h
      exact ih hrest
    · obtain ⟨o', os', hrest⟩ := exists_between_eq_cons items
      rw [Recognizer.between, List.cons.injEq] at h
      obtain ⟨rfl, rfl⟩ := h
      rw [hrest, List.foldl_cons, ih hrest]
      cases s <;> simp [Stage.advance, Stage.reset]

/-- **Validity in one pass.** A phrase is a query exactly if no operand of it is broken. -/
theorem phraseIsCql_iff {t : Text} : phraseIsCql t = true ↔ outcome .blank t ≠ .broken := by
  have hall : phraseIsCql t = true ↔ ∀ o ∈ operands t, o.foldl Stage.feed .blank ≠ .broken := by
    rw [phraseIsCql, List.all_eq_true]
    refine forall_congr' fun o ↦ imp_congr_right fun ho ↦ ?_
    rw [isCql, containsOperator_of_mem_operands ho, Bool.or_false, Bool.not_eq_true',
      ← Bool.not_eq_true, List.contains_iff_mem, ne_eq, Stage.foldl_feed_blank]
  obtain ⟨o, os, hitems⟩ := exists_between_eq_cons (operator.scan t)
  rw [hall, operands, Recognizer.segments, outcome, ne_eq, foldl_advance_eq_broken hitems, hitems]
  simp [not_or]

theorem isCql_of_outcome {t : Text} (h : outcome .blank t ≠ .broken) : isCql t = true := by
  by_cases hop : containsOperator t = true
  · rw [isCql, hop, Bool.or_true]
  · rcases operator.scan_eq_map_plain_or_exists_first_hit t with hscan | ⟨s, m, u, -, -, hscan⟩
    · have hfold : ∀ (s : Stage) (x : Text),
          (x.map Item.plain).foldl Stage.advance s = x.foldl Stage.feed s := by
        intro s x
        rw [List.foldl_map]
        rfl
      rw [outcome, hscan, hfold, ne_eq, Stage.foldl_feed_blank] at h
      rw [isCql, Bool.or_eq_true]
      left
      simpa using h
    · refine absurd ?_ hop
      rw [containsOperator, Recognizer.matchesIn, hscan]
      simp [Item.isHit]

/-! ## Going on

To read a text behind another one is to go on from the stage that the first one leaves, provided
that no operator lies across the joint. Keywords hold the spaces around them, so a joint at a space
needs a reason of its own. There is one where a second space follows, since no operator has two
spaces in it. -/

theorem outcome_of_read_none {c : Char} {t : Text} (h : operator.read (c :: t) = none) (s : Stage) :
    outcome s (c :: t) = outcome (s.feed c) t := by
  rw [outcome, operator.scan_of_read_none h, List.foldl_cons]
  rfl

theorem outcome_of_read {m : Match} {t : Text} (h : operator.read (m.text ++ t) = some m)
    (s : Stage) : outcome s (m.text ++ t) = outcome s.reset t := by
  rw [outcome, operator.scan_match_append h, List.foldl_cons]
  rfl

theorem outcome_cons {c : Char} (hc : opensOperator c = false) (s : Stage) (t : Text) :
    outcome s (c :: t) = outcome (s.feed c) t :=
  outcome_of_read_none (read_operator_cons_eq_none hc t) s

theorem outcome_sign {c : Char} (hc : c = '=' ∨ c = '(' ∨ c = ')') (s : Stage) (t : Text) :
    outcome s (c :: t) = outcome s.reset t :=
  outcome_of_read (m := ⟨[c], [c]⟩) (read_operator_sign hc t) s

theorem outcome_keyword {w : Text} (hw : w.map Char.toLower ∈ operators) (s : Stage) (t : Text) :
    outcome s (w ++ t) = outcome s.reset t :=
  outcome_of_read (m := ⟨w, w⟩) (read_operator_keyword hw t) s

/-- No operator goes on with the character. -/
def endsOperators (c : Char) : Bool := operators.all fun w ↦ !w.tail.contains c.toLower

private theorem read_operator_append_eq {u v : Text}
    (h : ∀ w, w.map Char.toLower ∈ operators → w <+: u ++ v → w <+: u) :
    operator.read (u ++ v) = operator.read u := by
  cases hread : operator.read u with
  | some m => exact read_operator_append hread v
  | none =>
    rw [Option.eq_none_iff_forall_ne_some]
    intro m hm
    obtain ⟨hvalue, hpre, hmem⟩ := read_operator_eq_some_iff.mp hm
    have hshort := read_operator_eq_some_iff.mpr ⟨hvalue, h m.text hmem hpre, hmem⟩
    rw [hread] at hshort
    exact absurd hshort (by simp)

private theorem exists_of_prefix_append {w u v : Text} (h : w <+: u ++ v) (hne : ¬ w <+: u) :
    ∃ z, z ≠ [] ∧ w = u ++ z ∧ z <+: v := by
  rcases List.prefix_or_prefix_of_prefix h (List.prefix_append u v) with hw | ⟨z, rfl⟩
  · exact absurd hw hne
  · refine ⟨z, ?_, rfl, (List.prefix_append_right_inj u).mp h⟩
    rintro rfl
    rw [List.append_nil] at hne
    exact hne (List.prefix_refl u)

/-- **Joints.** Reading falls apart before a character that no operator goes on with. -/
theorem outcome_append_cons {c : Char} (hc : endsOperators c = true) (s : Stage) (x y : Text) :
    outcome s (x ++ c :: y) = outcome (outcome s x) (c :: y) := by
  have hscan : operator.scan (x ++ c :: y) = operator.scan x ++ operator.scan (c :: y) := by
    refine operator.scan_append fun u _ hne ↦ read_operator_append_eq fun w hw hpre ↦ ?_
    refine Classical.byContradiction fun hshort ↦ ?_
    obtain ⟨z, hz, rfl, hzpre⟩ := exists_of_prefix_append hpre hshort
    obtain ⟨d, z, rfl⟩ := List.exists_cons_of_ne_nil hz
    obtain ⟨rfl, -⟩ := List.cons_prefix_cons.mp hzpre
    obtain ⟨e, u, rfl⟩ := List.exists_cons_of_ne_nil hne
    have hends := List.all_eq_true.mp hc _ hw
    simp at hends
  rw [outcome, hscan, List.foldl_append]
  rfl

private theorem not_double_space : ∀ w ∈ operators, ¬ [' ', ' '] <:+: w := by decide

/-- Reading falls apart between two spaces. -/
theorem outcome_append_space_space (s : Stage) (x y : Text) :
    outcome s (x ++ ' ' :: ' ' :: y) = outcome (outcome s (x ++ [' '])) (' ' :: y) := by
  have hscan : operator.scan (x ++ [' '] ++ ' ' :: y)
      = operator.scan (x ++ [' ']) ++ operator.scan (' ' :: y) := by
    refine operator.scan_append fun u hu hne ↦ read_operator_append_eq fun w hw hpre ↦ ?_
    refine Classical.byContradiction fun hshort ↦ ?_
    obtain ⟨z, hz, rfl, hzpre⟩ := exists_of_prefix_append hpre hshort
    obtain ⟨d, z, rfl⟩ := List.exists_cons_of_ne_nil hz
    obtain ⟨rfl, -⟩ := List.cons_prefix_cons.mp hzpre
    -- The operator would have to lie across both spaces.
    obtain ⟨u, rfl⟩ : ∃ u', u = u' ++ [' '] := by
      rcases List.suffix_concat_iff.mp hu with rfl | ⟨u', rfl, -⟩
      · exact absurd rfl hne
      · exact ⟨u', rfl⟩
    refine not_double_space _ hw ⟨u.map Char.toLower, z.map Char.toLower, ?_⟩
    simp
  rw [List.append_assoc] at hscan
  rw [outcome, show x ++ ' ' :: ' ' :: y = x ++ ([' '] ++ ' ' :: y) from rfl, hscan,
    List.foldl_append]
  rfl

end PhraseRepair.Cql
