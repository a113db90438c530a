import PhraseRepair.Proofs.Gathering

/-!
# Repair is local

A repair looks at a phrase from left to right, and where nothing is left open it starts afresh at
every space. Two phrases one behind the other are repaired to the tokens of the first and then those
of the second (`repair_local`), whatever numbers their placeholders are given.

What can reach across the space between them is a quoted run or a group. The first phrase leaves no
quote open if its quotes are paired, and it leaves no group open if the last parenthesis in sight
closes one. No step of a repair sees more of its surroundings than that: hiding, isolating and
cutting at spaces each fall apart there.
-/

namespace PhraseRepair

/-! ## Joints

Only the first phrase is asked for anything. What the second one leaves open stays within it, since
nothing reaches backwards. The condition on groups is about the text in sight, so that a parenthesis
between quotes does not count. -/

namespace Cql

/-- The last parenthesis of a text. -/
def lastParen? (t : Text) : Option Char := (t.filter isParen).getLast?

theorem lastParen?_of_suffix {u t : Text} (h : u <:+ t) :
    lastParen? u = none ∨ lastParen? u = lastParen? t := by
  obtain ⟨s, rfl⟩ := h
  rw [lastParen?, lastParen?, List.filter_append, List.getLast?_append]
  cases (u.filter isParen).getLast? with
  | none => exact Or.inl rfl
  | some c => exact Or.inr rfl

/-- A group does not reach beyond a text in which another parenthesis follows its opening one. -/
theorem read_innermostGroup_append {u : Text} (hne : u ≠ []) (hclosed : lastParen? u ≠ some '(')
    (t : Text) : innermostGroup.read (u ++ t) = innermostGroup.read u := by
  obtain ⟨c, u, rfl⟩ := List.exists_cons_of_ne_nil hne
  by_cases hc : c = '('
  · subst hc
    have hparen : ∃ d ∈ u, isParen d = true := by
      by_contra hfree
      have hnil : u.filter isParen = [] :=
        List.filter_eq_nil_iff.mpr fun d hd hdparen ↦ hfree ⟨d, hd, hdparen⟩
      refine hclosed ?_
      rw [lastParen?, List.filter_cons_of_pos (by decide), hnil, List.getLast?_singleton]
    obtain ⟨d, hd, hdparen⟩ := hparen
    have hend : (decide (d ≠ '(') && decide (d ≠ ')')) = false := by
      rcases eq_of_isParen hdparen with rfl | rfl <;> rfl
    exact congrArg (Option.map _) (enclosed?_append (t := '(' :: u) ⟨d, hd, hend⟩ t)
  · simp [innermostGroup, Text.enclosed?, hc]

end Cql

theorem hideRuns_append_of_even {s : Text} (heven : s.count '"' % 2 = 0) (t : Text) :
    hideRuns (s ++ t) = hideRuns s ++ hideRuns t := by
  have hfill := hideRuns_fill_append (fun a ↦ paired_of_mem_hideRuns heven) t
  rwa [fill_hideRuns] at hfill

/-- Where no quote and no group is left open, a space separates the parts of a phrase. -/
theorem parts_append_space (quoteBare : Bool) {s : Text} (heven : s.count '"' % 2 = 0)
    (hclosed : Cql.lastParen? (visible s) ≠ some '(') (t : Text) :
    parts quoteBare (s ++ ' ' :: t)
      = parts quoteBare s ++ .plain (.plain ' ') :: parts quoteBare t := by
  have hspace : hideRuns (' ' :: t) = .plain ' ' :: hideRuns t :=
    hideRuns_append (x := [' ']) (by decide) t
  have hcells : Cql.innermostGroup.cells (hideRuns s ++ hideRuns (' ' :: t))
      = Cql.innermostGroup.cells (hideRuns s)
        ++ Cql.innermostGroup.cells (hideRuns (' ' :: t)) := by
    refine Recognizer.cells_append_of_read _ fun u hu hne ↦ ?_
    -- Any end of the first phrase has the same last parenthesis, or none.
    refine Cql.read_innermostGroup_append (by simpa [Veiled.shape] using hne) ?_ _
    rcases Cql.lastParen?_of_suffix (hu.map Symbol.shape) with hlast | hlast
    · exact fun h ↦ absurd (hlast.symm.trans h) (by simp)
    · exact fun h ↦ hclosed (hlast.symm.trans h)
  have hread : Cql.innermostGroup.read (Veiled.shape (.plain ' ' :: hideRuns t)) = none := by
    simp [Cql.innermostGroup, Text.enclosed?, Symbol.shape]
  rw [parts, hideRuns_append_of_even heven, hcells, hspace,
    Cql.innermostGroup.cells_of_read_none hread, List.map_append, List.map_cons]
  rfl

namespace Veiled

variable {α : Type}

theorem tokens_append_space (f : α → Text) (s t : Veiled α) :
    tokens f (s ++ .plain ' ' :: t) = tokens f s ++ tokens f t := by
  have hpieces : pieces (s ++ .plain ' ' :: t) = pieces s ++ pieces t :=
    List.splitOnP_append_cons s t rfl
  rw [tokens, hpieces, List.map_append, List.filter_append]
  rfl

end Veiled

theorem isolateAll_append_space {α : Type} {cs : List Char}
    (hcs : ∀ c ∈ cs, Settings.reservable c = true) (s t : Veiled α) :
    isolateAll cs (s ++ .plain ' ' :: t) = isolateAll cs s ++ .plain ' ' :: isolateAll cs t := by
  have hspace : ' ' ∉ cs := Settings.notMem_of_reservable hcs (by decide +kernel)
  have hquote : '"' ∉ cs := Settings.notMem_of_reservable hcs (by decide +kernel)
  simp only [isolateAll_eq_flatMap_setApart hspace hquote]
  rw [List.flatMap_append, List.flatMap_cons]
  simp only [List.count_eq_zero_of_not_mem hspace]
  rfl

/-! ## Normalizing

A phrase of nothing but blanks and sentinels is normalized to nothing, and then there is no space
left that could be the joint. -/

theorem normalize_append_space (p q : Text) :
    normalize p = [] ∧ normalize (p ++ ' ' :: q) = normalize q ∨
      normalize q = [] ∧ normalize (p ++ ' ' :: q) = normalize p ∨
        normalize (p ++ ' ' :: q) = normalize p ++ ' ' :: normalize q := by
  have hwords : ∀ p q : Text, Text.words (p ++ ' ' :: q) = Text.words p ++ Text.words q :=
    Text.words_append_cons (by decide)
  simp only [normalize, List.filter_append, Text.normalizeSpace]
  rw [List.filter_cons_of_pos (by decide), hwords]
  cases Text.words (p.filter (! Placeholder.isSentinel ·)) with
  | nil => exact Or.inl ⟨rfl, rfl⟩
  | cons w ws =>
    cases Text.words (q.filter (! Placeholder.isSentinel ·)) with
    | nil => exact Or.inr (Or.inl ⟨rfl, by rw [List.append_nil]⟩)
    | cons v vs =>
      refine Or.inr (Or.inr ?_)
      rw [List.cons_append, Text.joinWith_cons, Text.padded_append_cons, Text.joinWith_cons,
        Text.joinWith_cons, List.append_assoc]

/-! ## The theorem -/

namespace Repairer

variable (r : Repairer)

/-- What a repair brings back of a normalized phrase. -/
def tokensOf (t : Text) : List Text :=
  Veiled.tokens (Veiled.fill id) (isolateAll r.settings.reserved
    (maskedParts (PhraseRepair.parts r.settings.quoteBareGroups t)))

theorem tokens_repair_eq_tokensOf (supply : KeySupply) {input : Text}
    (hlen : input.length < 2 ^ 64) :
    (r.repair supply input).tokens = r.tokensOf (normalize input) :=
  r.tokens_repair supply (r.length_hidden_outline_le hlen)

@[simp] theorem tokensOf_nil : r.tokensOf [] = [] := by
  rw [tokensOf, show maskedParts (PhraseRepair.parts r.settings.quoteBareGroups []) = [] from rfl,
    isolateAll_of_notMem fun c _ ↦ List.not_mem_nil]
  rfl

theorem tokensOf_append_space {s : Text} (heven : s.count '"' % 2 = 0)
    (hclosed : Cql.lastParen? (visible s) ≠ some '(') (t : Text) :
    r.tokensOf (s ++ ' ' :: t) = r.tokensOf s ++ r.tokensOf t := by
  rw [tokensOf, parts_append_space _ heven hclosed, maskedParts, List.flatMap_append,
    List.flatMap_cons, Part.masked, List.singleton_append, ← maskedParts, ← maskedParts,
    isolateAll_append_space r.valid.2.2, Veiled.tokens_append_space]
  rfl

end Repairer

/-- **Repair is local.** Of two phrases one behind the other, the tokens are those of the first and
then those of the second, if the quotes of the first are paired and its last parenthesis outside of
quoted runs is no opening one. Each may be repaired with numbers of its own. The placeholder numbers
last for every phrase that fits in memory. -/
theorem repair_local (r : Repairer) (supply supply₁ supply₂ : KeySupply) {p q : Text}
    (heven : (normalize p).count '"' % 2 = 0)
    (hclosed : Cql.lastParen? (visible (normalize p)) ≠ some '(')
    (hlen : (p ++ ' ' :: q).length < 2 ^ 64) :
    (r.repair supply (p ++ ' ' :: q)).tokens
      = (r.repair supply₁ p).tokens ++ (r.repair supply₂ q).tokens := by
  have hlength := hlen
  rw [List.length_append, List.length_cons] at hlength
  rw [r.tokens_repair_eq_tokensOf supply hlen, r.tokens_repair_eq_tokensOf supply₁ (by omega),
    r.tokens_repair_eq_tokensOf supply₂ (by omega)]
  rcases normalize_append_space p q with ⟨hnil, heq⟩ | ⟨hnil, heq⟩ | heq
  · rw [heq, hnil, r.tokensOf_nil, List.nil_append]
  · rw [heq, hnil, r.tokensOf_nil, List.append_nil]
  · rw [heq, r.tokensOf_append_space heven hclosed]

/-- A parenthesis in a quoted run leaves nothing open, and groups that are alike on both sides of
the space come back in their places. -/
theorem repair_local_between_alike_groups :
    (({} : Repairer).repair {} "a) \"(\" (b \"c d\") 1/2 ) (b \"c d\") (e \"f".toList).tokens
      = ["a)".toList, "\"(\"".toList, "\"(b \"c d\")\"".toList, "1".toList, "\"/\"".toList,
          "2".toList]
        ++ [")".toList, "\"(b \"c d\")\"".toList, "(e".toList, "\"f".toList] :=
  (repair_local {} {} {} ⟨0⟩ (p := "a) \"(\" (b \"c d\") 1/2".toList)
    (q := ") (b \"c d\") (e \"f".toList) (by decide +kernel) (by decide +kernel)
    (by decide +kernel)).trans (by decide +kernel)

end PhraseRepair
