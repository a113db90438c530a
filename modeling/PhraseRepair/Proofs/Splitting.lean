import PhraseRepair.Proofs.Acceptance
import PhraseRepair.Proofs.Lettercase

/-!
# Splitting at the operators

A text is taken apart at its operators, and nothing is lost or missed (`IsSplit`). Neighbouring
keywords compete for the space between them. The first one takes it, and without its spaces the
second one is no operator any more.

So a phrase holds an operator if one occurs in it anywhere, and of what it takes to be a query only
the spaces within the segments remain (`split_exact`).
-/

namespace PhraseRepair.Cql

open Text (utf8Size slice? cut?)

/-! ## A text and its operators

An operator may well occur in a segment together with the characters around it. In `a and or b` the
segment behind the first operator is `or b`, which with the space in front of it would hold a second
one. What is ruled out is that an operator starts at a place of a gap, whether or not it ends in it.
-/

/-- A text that is an operator up to the case of its letters. -/
def IsOperator (w : Text) : Prop := w.map Char.toLower ∈ operators

/-- A text taken apart at all of its operators. -/
structure IsSplit (t : Text) (spans : List Span) (segments : List Text) : Prop where
  /-- An operator stops before the next one starts. -/
  ordered : spans.Pairwise fun s s' ↦ s.stop ≤ s'.start
  /-- Every operator stands in the text at its place. -/
  placed : ∀ s ∈ spans, slice? s.start s.stop t = some s.found.text ∧ IsOperator s.found.text
  /-- The segments are what stands in the gaps before, between and behind the operators. -/
  segments_eq : segments.map some
    = (Recognizer.gapsFrom (utf8Size t) 0 spans).map fun g ↦ slice? g.1 g.2 t
  /-- No operator starts in a gap. -/
  free : ∀ g ∈ Recognizer.gapsFrom (utf8Size t) 0 spans, ∀ place w, g.1 ≤ place → place < g.2 →
    slice? place (place + utf8Size w) t = some w → ¬ IsOperator w
  /-- The segments with the operators between them make up the text. -/
  interleaved : Text.interleave segments (spans.map (·.found.text)) = t

theorem isSplit_spans (t : Text) : IsSplit t (operator.spans t) (operands t) where
  ordered := operator.pairwise_spans t
  placed s hs := by
    obtain ⟨before, rest, -, hread, -⟩ := operator.exists_read_of_mem_spans hs
    exact ⟨operator.slice?_of_mem_spans hs, (read_operator_eq_some_iff.mp hread).2.2⟩
  segments_eq := operator.segments_eq_slices t
  free g hg place w hfirst hlast hw := by
    obtain ⟨before, after, rfl, rfl, -⟩ := Text.slice?_eq_some_iff.mp hw
    rw [List.append_assoc] at hg
    have hread := operator.read_eq_none_of_mem_gaps hg hfirst hlast
    exact read_operator_eq_none_iff.mp hread w (List.prefix_append w after)
  interleaved := operator.interleave_segments t

/-- An operator is found if there is one. -/
theorem containsOperator_iff {t : Text} :
    containsOperator t = true ↔ ∃ w, w <:+: t ∧ IsOperator w := by
  rw [← Bool.not_eq_false, containsOperator, operator.matchesIn_eq_false_iff]
  simp only [read_operator_eq_none_iff]
  constructor
  · intro h
    refine Classical.byContradiction fun hnone ↦ h fun u hu w hw hmem ↦ hnone ⟨w, ?_, hmem⟩
    exact hw.isInfix.trans hu.isInfix
  · rintro ⟨w, hw, hmem⟩ h
    obtain ⟨u, hpre, hsuf⟩ := List.infix_iff_prefix_suffix.mp hw
    exact h u hsuf w hpre hmem

theorem phraseIsCql_iff_forall_operands {t : Text} :
    phraseIsCql t = true ↔ ∀ u ∈ operands t, ' ' ∉ Text.trim u := by
  rw [phraseIsCql, List.all_eq_true]
  refine forall₂_congr fun u hu ↦ ?_
  rw [isCql, containsOperator_of_mem_operands hu, Bool.or_false, Bool.not_eq_true',
    ← Bool.not_eq_true, List.contains_iff_mem]

theorem isCql_of_phraseIsCql {t : Text} (h : phraseIsCql t = true) : isCql t = true :=
  isCql_of_outcome (phraseIsCql_iff.mp h)

/-- **Splitting is exact.** However letters are lowered, the same operators are read, and no
character is cut through. A text is split at all of them. It holds one if one occurs in it, and it
is a query if no space is left within a segment; then it can stand as CQL. -/
theorem split_exact (l : Lowering) (t : Text) :
    (∀ u, operator.read u = (l.operator? u).map fun w ↦ ⟨w, w⟩) ∧
      (∀ tag ∈ keywordTags, ∀ u, l.startsWith tag u = true →
        (cut? (utf8Size tag) u).isSome = true) ∧
      IsSplit t (operator.spans t) (operands t) ∧
      (containsOperator t = true ↔ ∃ w, w <:+: t ∧ IsOperator w) ∧
      (phraseIsCql t = true ↔ ∀ u ∈ operands t, ' ' ∉ Text.trim u) ∧
      (phraseIsCql t = true → isCql t = true) := by
  refine ⟨fun u ↦ ?_, fun tag htag u hu ↦ l.isSome_cut?_of_startsWith htag hu, isSplit_spans t,
    containsOperator_iff, phraseIsCql_iff_forall_operands, isCql_of_phraseIsCql⟩
  rw [l.operator?_eq]
  rfl

/-- Two keywords with one space between them, of which the first is taken. -/
theorem split_exact_of_competing_keywords :
    (cut? 5 " AND or=æ".toList).isSome = true ∧
      IsSplit "cats AND or=æ".toList
        [⟨4, 9, ⟨" AND ".toList, " AND ".toList⟩⟩, ⟨11, 12, ⟨['='], ['=']⟩⟩]
        ["cats".toList, "or".toList, "æ".toList] ∧
      isCql "cats AND or=æ".toList = true := by
  obtain ⟨-, hcut, hsplit, -, -, hcql⟩ := split_exact Lowering.basic "cats AND or=æ".toList
  exact ⟨hcut " and ".toList (by decide) " AND or=æ".toList (by decide), hsplit,
    hcql (by decide)⟩

end PhraseRepair.Cql
