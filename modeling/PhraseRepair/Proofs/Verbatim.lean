import PhraseRepair.Proofs.Opacity

/-!
# Fragments survive word for word

The *fragments* of a phrase are what its innermost groups hold, with their quoted runs written out,
and the quoted runs outside of these groups. They stand in the phrase one after the other, and they
do so in what the phrase is repaired to (`repair_keeps_fragments`): none of them is changed, dropped
or moved past another, also where two of them are the same text.

A text *shows* a list of texts if it holds them in order without overlap. This is kept by whatever
is done to the text around them, so it is enough to follow the names of the hidden fragments through
masking, isolating and cutting, none of which loses a name.
-/

namespace PhraseRepair

/-! ## Texts in a text

The texts that are shown may be empty or the same, and each of them takes up a place of its own. So
to show a list is more than to hold each of its members. Everything reduces to appending: a list
that falls into two is shown by two texts, one behind the other (`shows_append_iff`). -/

namespace Text

/-- The text holds the given ones in order, with any text before, between and after them. -/
inductive Shows : Text → List Text → Prop
  | nil (t : Text) : Shows t []
  | cons (gap x : Text) {rest : Text} {xs : List Text} :
      Shows rest xs → Shows (gap ++ x ++ rest) (x :: xs)

theorem shows_cons_iff {t x : Text} {xs : List Text} :
    Shows t (x :: xs) ↔ ∃ gap rest, t = gap ++ x ++ rest ∧ Shows rest xs := by
  refine ⟨fun h ↦ ?_, ?_⟩
  · cases h with
    | cons gap x hrest => exact ⟨gap, _, rfl, hrest⟩
  · rintro ⟨gap, rest, rfl, hrest⟩
    exact .cons gap x hrest

theorem shows_singleton_iff {t x : Text} : Shows t [x] ↔ x <:+: t := by
  refine shows_cons_iff.trans ⟨?_, ?_⟩
  · rintro ⟨gap, rest, rfl, -⟩
    exact ⟨gap, rest, rfl⟩
  · rintro ⟨gap, rest, rfl⟩
    exact ⟨gap, rest, rfl, .nil rest⟩

theorem Shows.prepend {t : Text} {xs : List Text} (h : Shows t xs) (s : Text) :
    Shows (s ++ t) xs := by
  cases h with
  | nil => exact .nil _
  | cons gap x hrest =>
    rw [← List.append_assoc, ← List.append_assoc]
    exact .cons (s ++ gap) x hrest

theorem shows_append_iff {t : Text} {xs ys : List Text} :
    Shows t (xs ++ ys) ↔ ∃ s u, t = s ++ u ∧ Shows s xs ∧ Shows u ys := by
  refine ⟨fun h ↦ ?_, ?_⟩
  · induction xs generalizing t with
    | nil => exact ⟨[], t, rfl, .nil [], h⟩
    | cons x xs ih =>
      obtain ⟨gap, rest, rfl, hrest⟩ := shows_cons_iff.mp h
      obtain ⟨s, u, rfl, hs, hu⟩ := ih hrest
      exact ⟨gap ++ x ++ s, u, (List.append_assoc _ _ _).symm, .cons gap x hs, hu⟩
  · rintro ⟨s, u, rfl, hs, hu⟩
    induction hs with
    | nil s => exact hu.prepend s
    | cons gap x _ ih =>
      rw [List.append_assoc]
      exact .cons gap x ih

theorem Shows.append {s t : Text} {xs ys : List Text} (hs : Shows s xs) (ht : Shows t ys) :
    Shows (s ++ t) (xs ++ ys) := shows_append_iff.mpr ⟨s, t, rfl, hs, ht⟩

section FlatMap

variable {β : Type} {l : List β} {g : β → List Text}

theorem shows_flatMap {w : β → Text} (h : ∀ b ∈ l, Shows (w b) (g b)) :
    Shows (l.flatMap w) (l.flatMap g) := by
  induction l with
  | nil => exact .nil []
  | cons b l ih =>
    obtain ⟨hb, hl⟩ := List.forall_mem_cons.mp h
    exact hb.append (ih hl)

/-- Joined texts show what each of them shows, and leaving the empty ones out makes no
difference. -/
theorem shows_joinWith {w : β → Text} (separator : Text) (h : ∀ b ∈ l, Shows (w b) (g b)) :
    Shows (joinWith separator ((l.map w).filter (! ·.isEmpty))) (l.flatMap g) := by
  induction l with
  | nil => exact .nil []
  | cons b l ih =>
    obtain ⟨hb, hl⟩ := List.forall_mem_cons.mp h
    have ih := ih hl
    rw [List.map_cons, List.filter_cons, List.flatMap_cons]
    split
    · cases hrest : (l.map w).filter (! ·.isEmpty) with
      | nil =>
        rw [hrest] at ih
        have hsingle : joinWith separator [w b] = w b ++ [] := by
          rw [joinWith, List.intercalate_singleton, List.append_nil]
        exact hsingle ▸ hb.append ih
      | cons v vs =>
        rw [hrest] at ih
        rw [joinWith, List.intercalate_cons_cons, List.append_assoc]
        exact hb.append (ih.prepend separator)
    · next hempty =>
      have hnil : w b = [] := by simpa using hempty
      exact (hnil ▸ hb).append ih

/-- Each list may be replaced by one that is shown wherever it is shown. -/
theorem Shows.flatMap_mono {t : Text} {g' : β → List Text} (h : Shows t (l.flatMap g))
    (hg : ∀ b ∈ l, ∀ s, Shows s (g b) → Shows s (g' b)) : Shows t (l.flatMap g') := by
  induction l generalizing t with
  | nil => exact h
  | cons b l ih =>
    obtain ⟨hb, hl⟩ := List.forall_mem_cons.mp hg
    obtain ⟨s, u, rfl, hs, hu⟩ := shows_append_iff.mp h
    exact (hb s hs).append (ih hu hl)

end FlatMap

end Text

/-! ## Names and what is written for them -/

namespace Veiled

variable {α : Type} (f : α → Text) (s : Veiled α)

/-- A veiled phrase is written out with its fragments in the order of their names. -/
theorem shows_fill : Text.Shows (fill f s) ((names s).map f) := by
  rw [names, List.map_flatMap]
  refine Text.shows_flatMap fun a _ ↦ ?_
  cases a with
  | plain c => exact .nil _
  | hidden a => exact Text.shows_singleton_iff.mpr List.infix_rfl

theorem shows_joinWith_tokens (separator : Text) :
    Text.Shows (Text.joinWith separator (tokens f s)) ((names s).map f) := by
  have hnames : (names s).map f = (pieces s).flatMap fun p ↦ (names p).map f := by
    rw [← names_flatten_pieces, ← List.flatMap_id, names_flatMap, List.map_flatMap]
    rfl
  rw [tokens, hnames]
  exact Text.shows_joinWith separator fun p _ ↦ shows_fill f p

end Veiled

/-! ## The fragments of a phrase

The fragment of a group is what stands between its parentheses, and it survives also where the group
with its parentheses is put between quotes. So the fragment is part of what is hidden, and not
always all of it. -/

/-- What a repair has to leave as it is: a quoted run, or what stands in a group. -/
def Cell.fragment? : Cell Text → Option Text
  | .plain (.plain _) => none
  | .plain (.hidden run) => some run
  | .hit u => some (Veiled.fill id (Cql.inner u))

/-- What stands in the innermost groups of a phrase, and the quoted runs outside of them. -/
def fragments (t : Text) : List Text :=
  (Cql.innermostGroup.cells (hideRuns t)).filterMap Cell.fragment?

theorem fragments_eq_flatMap (t : Text) : fragments t
    = (Cql.innermostGroup.cells (hideRuns t)).flatMap fun cell ↦ cell.fragment?.toList :=
  List.filterMap_eq_flatMap_toList _ _

theorem Part.shows_source (quoteBare : Bool) (cell : Cell Text) :
    Text.Shows (ofCell quoteBare cell).source cell.fragment?.toList := by
  cases cell with
  | plain a =>
    cases a with
    | plain c => exact .nil _
    | hidden run => exact Text.shows_singleton_iff.mpr List.infix_rfl
  | hit u =>
    refine Text.shows_singleton_iff.mpr ⟨['('], [')'], ?_⟩
    rw [ofCell]
    split <;> rfl

theorem shows_fragments (t : Text) : Text.Shows t (fragments t) := by
  have hparts : Text.Shows ((parts false t).flatMap Part.source) (fragments t) := by
    rw [parts, List.flatMap_map, fragments_eq_flatMap]
    exact Text.shows_flatMap fun cell _ ↦ Part.shows_source false cell
  rwa [flatMap_source_parts] at hparts

theorem Part.shows_fragment? (quoteBare : Bool) (cell : Cell Text) {t : Text}
    (h : Text.Shows t ((Veiled.names (ofCell quoteBare cell).masked).map (Veiled.fill id))) :
    Text.Shows t cell.fragment?.toList := by
  cases cell with
  | plain a =>
    cases a with
    | plain c => exact .nil t
    | hidden run => simpa [ofCell, masked, Cell.fragment?] using h
  | hit u =>
    rw [ofCell] at h
    split at h
    · rw [masked] at h
      split at h
      · -- Nothing is hidden of an empty group, and the empty text is shown anywhere.
        next hempty =>
        rw [Cell.fragment?, List.isEmpty_iff.mp hempty]
        exact Text.shows_singleton_iff.mpr List.nil_infix
      · exact h
    · -- The group is hidden with its parentheses, and its body stands between them.
      have hquoted := Text.shows_singleton_iff.mp h
      refine Text.shows_singleton_iff.mpr (List.IsInfix.trans ⟨['"', '('], [')', '"'], ?_⟩ hquoted)
      simp [group, Text.enclose]

/-! ## The theorem -/

section Repair

variable (r : Repairer) (supply : KeySupply) {input : Text}

/-- **Fragments survive word for word.** Whatever a phrase is repaired to holds the fragments of the
normalized phrase without overlap and in the order in which the phrase holds them. The placeholder
numbers last for every phrase that fits in memory. -/
theorem repair_keeps_fragments (hlen : input.length < 2 ^ 64) :
    Text.Shows (normalize input) (fragments (normalize input)) ∧
      Text.Shows (r.repair supply input).output (fragments (normalize input)) := by
  refine ⟨shows_fragments _, ?_⟩
  have htokens := r.tokens_repair supply (r.length_hidden_outline_le hlen)
  have hnames : Veiled.names (r.maskedPhrase input)
      = (Cql.innermostGroup.cells (hideRuns (normalize input))).flatMap fun cell ↦
          Veiled.names (Part.ofCell r.settings.quoteBareGroups cell).masked := by
    rw [Repairer.maskedPhrase, Veiled.names_isolateAll, maskedParts, Veiled.names_flatMap,
      Repairer.parts, parts, List.flatMap_map]
  have hshows := Veiled.shows_joinWith_tokens (Veiled.fill id) (r.maskedPhrase input)
    (separator (r.repair supply input).valid)
  rw [hnames, List.map_flatMap] at hshows
  rw [Report.output, joinTokens_eq, htokens, fragments_eq_flatMap]
  exact hshows.flatMap_mono fun cell _ _ ↦ Part.shows_fragment? _ cell

end Repair

/-- Quoted runs that are alike and touch, one of them again in a group, before a group that comes
back between quotes, a reserved character, and a quote and a parenthesis that are left open. -/
theorem repair_keeps_fragments_alike :
    Text.Shows "\"(a\"\"(a\" and b(\"c\" or \"(a\") and \"(d e)\" and \"/\" and (f and \"".toList
      ["\"(a\"".toList, "\"(a\"".toList, "\"c\" or \"(a\"".toList, "d e".toList] := by
  have hlen : "\"(a\"\"(a\" b(\"c\" or \"(a\") (d e)/ (f \"".toList.length < 2 ^ 64 := by
    decide +kernel
  refine (congrArg₂ Text.Shows ?_ ?_).mp (repair_keeps_fragments {} {} hlen).2
  · decide +kernel
  · decide +kernel

end PhraseRepair
