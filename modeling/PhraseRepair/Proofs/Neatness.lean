import PhraseRepair.Proofs.Gathering

/-!
# The spacing of the output

The output of a repair has single spaces between its words and no other blanks, like the phrase once
it has been normalized (`repair_spaced`). Only parentheses must not be reserved.

On the way this does not hold. Isolating a character puts spaces beside the ones that are there
already, and the body of a group may begin or end with a space of its own. The first kind lies
between tokens and goes with the empty ones. The second kind never gets to the edge of a token,
because the parentheses around it belong to the same part of the phrase, and a part that is no space
is cut nowhere.

Isolating is done on the parts themselves (`isolateParts`), one character after the other, so that
nothing has to be said about the reserved characters among each other. Each of these steps keeps the
parts neat.
-/

namespace PhraseRepair

/-! ## Parts with characters isolated

A group that keeps its grouping has its parentheses in sight and its body hidden. If no parenthesis
is reserved, isolating touches neither, so it can be said of the parts instead of the masked phrase.
-/

/-- The part with a character isolated: five characters in place of the one, and any other part as
it is. -/
def Part.isolate (c : Char) : Part → List Part
  | plain (.plain d) =>
    (if d = c then [' ', '"', c, '"', ' '] else [d]).map fun e ↦ plain (.plain e)
  | p => [p]

/-- The parts with the characters isolated, one after the other. -/
def isolateParts (cs : List Char) (ps : List Part) : List Part :=
  cs.foldl (fun ps c ↦ ps.flatMap (Part.isolate c)) ps

private theorem isolate_maskedParts {c : Char} (hc : Cql.isParen c = false) (ps : List Part) :
    Outline.isolate c (maskedParts ps) = maskedParts (ps.flatMap (Part.isolate c)) := by
  have hopening : '(' ≠ c := by rintro rfl; exact absurd hc (by decide)
  have hclosing : ')' ≠ c := by rintro rfl; exact absurd hc (by decide)
  rw [maskedParts, maskedParts, Outline.isolate, List.flatMap_assoc, List.flatMap_assoc]
  refine List.flatMap_congr fun p _ ↦ ?_
  rcases p with a | body | body
  · rcases a with d | run
    · by_cases hd : d = c <;> simp [Part.masked, Part.isolate, Veiled.ofText, hd]
    · simp [Part.masked, Part.isolate]
  · simp only [Part.masked, Part.isolate, List.flatMap_singleton]
    split <;> simp [Veiled.ofText, hopening, hclosing]
  · simp [Part.masked, Part.isolate]

theorem isolateAll_eq_maskedParts {cs : List Char} (hcs : ∀ c ∈ cs, Cql.isParen c = false)
    (ps : List Part) : isolateAll cs (maskedParts ps) = maskedParts (isolateParts cs ps) := by
  induction cs generalizing ps with
  | nil => rfl
  | cons c cs ih =>
    obtain ⟨hc, hcs⟩ := List.forall_mem_cons.mp hcs
    rw [isolateAll, List.foldl_cons, isolate_maskedParts hc, ← isolateAll, ih hcs]
    rfl

theorem tokens_maskedParts_eq (ps : List Part) :
    Veiled.tokens (Veiled.fill id) (maskedParts ps)
      = ((ps.splitOnP Part.isSpace).map fun w ↦ w.flatMap Part.restored).filter (! ·.isEmpty) := by
  have hpieces := Text.splitOnP_flatMap (s := ps) (g := Part.masked) (q := Symbol.isSpace)
    (p := Part.isSpace) (fun p _ hp ↦ ⟨.plain ' ', by rw [eq_of_isSpace hp]; rfl, rfl⟩)
    fun p _ hp a ha ↦ isSpace_of_mem_masked hp ha
  rw [Veiled.tokens, Veiled.pieces, maskedParts, hpieces, List.map_map]
  exact congrArg _ (List.map_congr_left fun w _ ↦ fill_maskedParts w)

/-! ## Neat parts

Isolating puts in single characters only, so neatness is kept by every step, and a character that is
isolated again needs no argument of its own. -/

/-- A part that is restored to a text with no blanks but spaces, and these not at its edges, unless
it is a space itself. -/
structure Part.Neat (p : Part) : Prop where
  /-- The part goes into one token. -/
  solid : p.isSpace = false → Text.Solid p.restored
  /-- There are no blanks but spaces in it. -/
  blank : ∀ c ∈ p.restored, Text.isBlank c = true → c = ' '

theorem Part.neat_plain {c : Char} (hc : Text.isBlank c = true → c = ' ') :
    (plain (.plain c)).Neat where
  solid hspace := by
    refine Text.solid_of_forall_ne (by simp [restored, Symbol.write]) fun d hd ↦ ?_
    obtain rfl := List.mem_singleton.mp hd
    simpa [isSpace, Symbol.isSpace] using hspace
  blank d hd := by
    obtain rfl := List.mem_singleton.mp hd
    exact hc

theorem Part.Neat.isolate {p : Part} (hp : p.Neat) (c : Char) : ∀ q ∈ p.isolate c, q.Neat := by
  intro q hq
  rcases p with a | body | body
  · rcases a with d | run
    · -- Of the five characters only the one in the middle comes from the phrase.
      have hd := hp.blank d (List.mem_singleton_self d)
      rw [Part.isolate] at hq
      obtain ⟨e, he, rfl⟩ := List.mem_map.mp hq
      refine neat_plain ?_
      split at he
      · next heq =>
        subst heq
        have he : e = ' ' ∨ e = '"' ∨ e = d := by
          simp only [List.mem_cons, List.not_mem_nil, or_false] at he
          tauto
        rcases he with rfl | rfl | rfl
        · exact fun _ ↦ rfl
        · exact fun h ↦ absurd h (by decide)
        · exact hd
      · obtain rfl := List.mem_singleton.mp he
        exact hd
    · rwa [List.mem_singleton.mp hq]
  · rwa [List.mem_singleton.mp hq]
  · rwa [List.mem_singleton.mp hq]

/-- Neat parts stay neat, however many characters are isolated in them. -/
theorem neat_of_mem_isolateParts (cs : List Char) {ps : List Part} (hps : ∀ p ∈ ps, p.Neat) :
    ∀ p ∈ isolateParts cs ps, p.Neat := by
  induction cs generalizing ps with
  | nil => exact hps
  | cons c cs ih =>
    refine ih fun q hq ↦ ?_
    obtain ⟨p, hp, hq⟩ := List.mem_flatMap.mp hq
    exact (hps p hp).isolate c q hq

theorem neat_of_mem_parts {quoteBare : Bool} {t : Text} (ht : Text.Spaced t) {p : Part}
    (hp : p ∈ parts quoteBare t) : p.Neat where
  solid hspace := by
    refine Part.solid_restored hspace (single_of_mem_parts ht hp) fun run hrun ↦ ?_
    obtain ⟨body, rfl, -⟩ := exists_of_hidden_mem_hideRuns (mem_hideRuns_of_mem_parts hp hrun)
    exact ⟨body, rfl⟩
  blank c hc := by
    have hrestored : Veiled.fill id (p.reread []) = p.restored :=
      Part.fill_reread_of_notMem (List.forall_mem_nil _)
    rw [← hrestored] at hc
    rcases Part.mem_source_of_mem_fill hc with rfl | hc
    · exact fun h ↦ absurd h (by decide)
    · refine ht.1 c ?_
      rw [← flatMap_source_parts quoteBare t]
      exact List.mem_flatMap.mpr ⟨p, hp, hc⟩

/-! ## The output

A token is a run of parts none of which is a space, so it begins and ends as neat parts do. -/

theorem spaced_joinTokens_of_neat (isQuery : Bool) {ps : List Part} (hps : ∀ p ∈ ps, p.Neat) :
    Text.Spaced (joinTokens isQuery (Veiled.tokens (Veiled.fill id) (maskedParts ps))) := by
  -- A token is written from some parts between two spaces among them, and there is one at least.
  have hmem : ∀ token ∈ Veiled.tokens (Veiled.fill id) (maskedParts ps),
      ∃ w : List Part, token = w.flatMap Part.restored ∧ w ≠ [] ∧
        ∀ p ∈ w, p.Neat ∧ p.isSpace = false := by
    intro token htoken
    rw [tokens_maskedParts_eq] at htoken
    obtain ⟨hmem, hne⟩ := List.mem_filter.mp htoken
    obtain ⟨w, hw, rfl⟩ := List.mem_map.mp hmem
    refine ⟨w, rfl, ?_, fun p hp ↦ ⟨hps p (Text.mem_of_mem_splitOnP hw hp),
      Text.eq_false_of_mem_of_mem_splitOnP hw hp⟩⟩
    rintro rfl
    exact absurd hne (by decide)
  refine spaced_joinTokens isQuery (fun token htoken ↦ ?_) fun token htoken c hc ↦ ?_
  · obtain ⟨w, rfl, hne, hw⟩ := hmem token htoken
    exact Text.solid_flatMap hne fun p hp ↦ (hw p hp).1.solid (hw p hp).2
  · obtain ⟨w, rfl, -, hw⟩ := hmem token htoken
    obtain ⟨p, hp, hc⟩ := List.mem_flatMap.mp hc
    exact (hw p hp).1.blank c hc

section Neatness

variable (r : Repairer) (supply : KeySupply) {input : Text}

theorem spaced_output_repair (hcount : (r.outline (normalize input)).hidden.length ≤ 2 ^ 64)
    (hparen : ∀ c ∈ r.settings.reserved, Cql.isParen c = false) :
    Text.Spaced (r.repair supply input).output := by
  rw [Report.output, r.tokens_repair supply hcount, Repairer.maskedPhrase,
    isolateAll_eq_maskedParts hparen]
  exact spaced_joinTokens_of_neat _ (neat_of_mem_isolateParts _
    fun p hp ↦ neat_of_mem_parts (spaced_normalize input) hp)

/-- **The output has normal spacing.** Unless a parenthesis is reserved, the output of a repair
neither begins nor ends with a blank, has no blanks but spaces and no two of them side by side, and
so is not changed when it is normalized. It does not matter which other characters are reserved, how
often and in which order. The placeholder numbers last for every phrase that fits in memory. -/
theorem repair_spaced (hlen : input.length < 2 ^ 64)
    (hparen : '(' ∉ r.settings.reserved ∧ ')' ∉ r.settings.reserved) :
    (∀ c, (r.repair supply input).output.head? = some c → Text.isBlank c = false) ∧
      (∀ c, (r.repair supply input).output.getLast? = some c → Text.isBlank c = false) ∧
      (∀ c ∈ (r.repair supply input).output, Text.isBlank c = true → c = ' ') ∧
      ¬ [' ', ' '] <:+: (r.repair supply input).output ∧
      normalize (r.repair supply input).output = (r.repair supply input).output := by
  have hspaced := spaced_output_repair r supply (r.length_hidden_outline_le hlen)
    fun c ↦ Cql.isParen_of_mem hparen
  exact ⟨fun c ↦ hspaced.isBlank_of_head?, fun c ↦ hspaced.isBlank_of_getLast?, hspaced.1,
    hspaced.not_infix, normalize_of_spaced hspaced (hasSentinel_output_repair r supply input)⟩

end Neatness

/-- A character that is listed twice, next to a group with spaces at its edges and before a quote
that is left open. -/
theorem repair_spaced_around_group :
    normalize ((⟨{ reserved := ['/', '/'] }, Settings.fault?_eq_none_iff.mp (by decide +kernel)⟩ :
        Repairer).repair {} "a/\t( c=d )  \"x".toList).output
      = "a and \" and \"/\" and \" and ( c=d ) and \"x".toList :=
  (repair_spaced _ _ (by decide +kernel) (by decide)).2.2.2.2.trans (by decide +kernel)

/-- A reserved parenthesis is isolated from its group, and leaves the body without an edge. -/
example : ((⟨{ reserved := ['('] }, Settings.fault?_eq_none_iff.mp (by decide +kernel)⟩ :
    Repairer).repair {} "( a=b )".toList).output = "\"(\" and  a=b )".toList := by decide +kernel

end PhraseRepair
