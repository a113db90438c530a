import PhraseRepair.Proofs.Gathering

/-!
# Quoted text is opaque

What stands between two quotes has no part in a repair. A *template* is a phrase with blanks for
what its quoted runs hold, and every phrase is a template with its blanks filled
(`exists_template`). Filling the blanks in two ways gives two phrases that are masked, judged and
cut into tokens alike (`Repairer.repair_opaque`). What they are repaired to are fillings of one
phrase with the same blanks in the same order.

A group that is quoted holds its quoted runs as part of its text, so the masked sides of the parts
do not show where they come from. Here fragments are known by the symbols that will stand for them,
with the runs still blank (`Outline.cellVeiled`), and that commutes with filling the blanks.
-/

namespace PhraseRepair

open Outline (handleGroup handleQuotedRun hideCells)

/-! ## Names -/

namespace Veiled

variable {α β : Type}

/-- The names of the hidden fragments in a veiled phrase, in order. -/
def names (s : Veiled α) : List α :=
  s.flatMap fun
    | .plain _ => []
    | .hidden a => [a]

@[simp] theorem names_nil : names ([] : Veiled α) = [] := rfl

@[simp] theorem names_plain (c : Char) (s : Veiled α) : names (.plain c :: s) = names s := rfl

@[simp] theorem names_hidden (a : α) (s : Veiled α) : names (.hidden a :: s) = a :: names s := rfl

@[simp] theorem names_append (s t : Veiled α) : names (s ++ t) = names s ++ names t :=
  List.flatMap_append

@[simp] theorem names_ofText (t : Text) : names (ofText t : Veiled α) = [] := by
  rw [names, ofText, List.flatMap_map]
  exact List.flatMap_eq_nil_iff.mpr fun c _ ↦ rfl

@[simp] theorem names_rename (f : α → β) (s : Veiled α) : names (rename f s) = (names s).map f := by
  rw [names, rename, List.flatMap_map, names, List.map_flatMap]
  refine List.flatMap_congr fun a _ ↦ ?_
  rcases a with c | a <;> rfl

theorem names_flatMap {γ : Type} (g : γ → Veiled α) (s : List γ) :
    names (s.flatMap g) = s.flatMap fun a ↦ names (g a) := List.flatMap_assoc

theorem names_expand (g : α → Veiled β) (s : Veiled α) :
    names (expand g s) = (names s).flatMap fun a ↦ names (g a) := by
  rw [expand, names_flatMap, names, List.flatMap_assoc]
  refine List.flatMap_congr fun a _ ↦ ?_
  rcases a with c | a
  · rfl
  · exact (List.append_nil _).symm

theorem names_isolate (c : Char) (s : Veiled α) : names (Outline.isolate c s) = names s := by
  rw [Outline.isolate, names_flatMap]
  refine List.flatMap_congr fun a _ ↦ ?_
  rcases a with d | a
  · exact names_ofText _
  · rfl

theorem names_isolateAll (cs : List Char) (s : Veiled α) : names (isolateAll cs s) = names s :=
  map_isolateAll_of_forall_eq names names_isolate cs s

theorem names_flatten_pieces (s : Veiled α) : names (pieces s).flatten = names s := by
  rw [pieces, ← Text.nil_intercalate, names, Text.flatMap_intercalate, List.flatMap_nil,
    Text.intercalate_map_splitOnP]
  refine List.flatMap_congr fun a _ ↦ ?_
  rcases a with c | a
  · exact ite_self _
  · rfl

/-! ## Tokens before they are written out

Empty tokens are dropped when they have been written out, and then it can no longer be told which
run stood where. A token that holds a run is never empty, since a run has its quotes. So they may be
dropped before. -/

/-- The tokens of a veiled phrase whose fragments are veiled themselves. -/
def unwritten (s : Veiled (Veiled α)) : List (Veiled α) :=
  ((pieces s).map (expand id)).filter (! ·.isEmpty)

theorem tokens_fill {f : α → Text} (hf : ∀ a, f a ≠ []) (s : Veiled (Veiled α)) :
    tokens (fill f) s = (unwritten s).map (fill f) := by
  have hempty : (fun t : Text ↦ !t.isEmpty) ∘ fill f = (! List.isEmpty ·) := by
    funext u
    rcases u with _ | ⟨a, u⟩
    · rfl
    · -- With something hidden or in sight, a token is written out as more than nothing.
      have hne : fill f (a :: u) ≠ [] := fun h ↦ absurd (eq_nil_of_fill_eq_nil hf h) (by simp)
      simpa using hne
  have hfill : fill (fill f) = fill f ∘ expand (id : Veiled α → Veiled α) :=
    funext fun p ↦ (fill_expand f id p).symm
  rw [tokens, unwritten, hfill, ← List.map_map, List.filter_map, hempty]

theorem names_flatten_unwritten (s : Veiled (Veiled α)) :
    names (unwritten s).flatten = (names s).flatMap names := by
  have hexpand : ((pieces s).map (expand id)).flatten = expand id (pieces s).flatten :=
    Text.flatten_map_flatMap _ _
  rw [unwritten, List.flatten_filter_not_isEmpty, hexpand, names_expand, names_flatten_pieces]
  rfl

end Veiled

/-! ## Templates

Bodies are given for all numbers, and a template uses those of its blanks. A quote that is left open
starts no run and belongs to the text of the template, with all that follows it. So the end of a
template may have a single quote in it, and nothing else in sight has any. -/

/-- A text that can stand between two quotes. -/
abbrev QuoteFree := {t : Text // '"' ∉ t}

/-- The quoted runs with the given bodies. -/
def quote (bodies : Nat → QuoteFree) (i : Nat) : Text := Text.enclose '"' '"' (bodies i).1

/-- A phrase with blanks for its quoted runs, and with at most one quote that is left open. -/
structure Template where
  /-- The phrase as far as quotes are paired. -/
  symbols : Veiled Nat
  /-- What follows. -/
  rest : Text
  /-- Every quote belongs to a blank. -/
  quote_notMem : .plain '"' ∉ symbols
  /-- No run is left. -/
  count_rest : rest.count '"' ≤ 1

namespace Template

/-- The phrase with its quoted runs out of sight. -/
def veiled (T : Template) : Veiled Nat := T.symbols ++ Veiled.ofText T.rest

/-- The template with its blanks filled. -/
def write (T : Template) (bodies : Nat → QuoteFree) : Text := Veiled.fill (quote bodies) T.veiled

end Template

theorem quote_ne_nil (bodies : Nat → QuoteFree) (i : Nat) : quote bodies i ≠ [] :=
  Text.enclose_ne_nil _ _ _

/-- Every phrase is a template with its blanks filled. -/
theorem exists_template (t : Text) :
    ∃ (T : Template) (bodies : Nat → QuoteFree), T.write bodies = t := by
  induction t using Cql.quotedRun.scan_induction with
  | nil => exact ⟨⟨[], [], by simp, by simp⟩, fun _ ↦ ⟨[], by simp⟩, rfl⟩
  | plain c t hread ih =>
    by_cases hc : c = '"'
    · subst hc
      have hrest := List.count_eq_zero_of_not_mem (Cql.quote_notMem_of_read_none hread)
      have hcount : ('"' :: t).count '"' = 1 := by rw [List.count_cons_self, hrest]
      exact ⟨⟨[], '"' :: t, by simp, Nat.le_of_eq hcount⟩, fun _ ↦ ⟨[], by simp⟩,
        Veiled.fill_ofText _ _⟩
    · obtain ⟨T, bodies, rfl⟩ := ih
      have hquote : .plain '"' ∉ Symbol.plain c :: T.symbols := by
        simpa [Ne.symm hc] using T.quote_notMem
      exact ⟨⟨.plain c :: T.symbols, T.rest, hquote, T.count_rest⟩, bodies, rfl⟩
  | hit m t hread ih =>
    obtain ⟨body, hbody, -, rfl⟩ := Cql.read_quotedRun_eq_some_iff.mp hread
    obtain ⟨T, bodies, rfl⟩ := ih
    -- The run takes the first blank, and the others move on by one.
    have hquote : .plain '"' ∉ Symbol.hidden 0 :: Veiled.rename (· + 1) T.symbols := by
      intro hmem
      obtain ⟨a, ha, heq⟩ := List.mem_map.mp ((List.mem_cons.mp hmem).resolve_left (by simp))
      rcases a with c | i
      · exact T.quote_notMem (heq ▸ ha)
      · exact absurd heq (by simp [Symbol.map])
    refine ⟨⟨_, T.rest, hquote, T.count_rest⟩, fun i ↦ Nat.casesOn i ⟨body, hbody⟩ bodies, ?_⟩
    rw [Template.write, Template.veiled, List.cons_append, Veiled.fill_hidden, Veiled.fill_append,
      Veiled.fill_rename, Veiled.fill_ofText, Template.write, Template.veiled, Veiled.fill_append,
      Veiled.fill_ofText]
    rfl

theorem hideRuns_of_count_le {t : Text} (ht : t.count '"' ≤ 1) : hideRuns t = Veiled.ofText t := by
  induction t using Cql.quotedRun.scan_induction with
  | nil => rfl
  | plain c t hread ih =>
    rw [hideRuns, Cql.quotedRun.scan_of_read_none hread, List.map_cons, ← hideRuns,
      ih (Nat.le_trans (List.count_le_count_cons) ht)]
    rfl
  | hit m t hread ih =>
    obtain ⟨body, -, -, rfl⟩ := Cql.read_quotedRun_eq_some_iff.mp hread
    rw [List.count_append, Text.count_enclose_quotes] at ht
    omega

/-- The quoted runs of a template are its blanks. -/
theorem Template.hideRuns_write (T : Template) (bodies : Nat → QuoteFree) :
    hideRuns (T.write bodies) = Veiled.rename (quote bodies) T.veiled := by
  have hpaired : ∀ a ∈ Veiled.rename (quote bodies) T.symbols, a.Paired := by
    intro a ha
    obtain ⟨b, hb, rfl⟩ := List.mem_map.mp ha
    rcases b with c | i
    · rintro rfl
      exact T.quote_notMem hb
    · exact ⟨(bodies i).1, rfl, (bodies i).2⟩
  have hfill := Veiled.fill_rename id (quote bodies) T.symbols
  rw [write, veiled, Veiled.fill_append, Veiled.fill_ofText, Veiled.rename_append,
    Veiled.rename_ofText, ← hideRuns_of_count_le T.count_rest, ← hideRuns_fill_append hpaired,
    hfill]
  rfl

/-! ## The masked phrase and its keys

Two phrases from one template need not have runs of the same length, so their scans cannot be
compared place by place. But with runs known by number their outlines are equal in sight and have as
many fragments, and hiding groups looks at nothing else. -/

/-- The veiled phrase with its hidden fragments numbered from `i` on. -/
def Veiled.number {α : Type} : Nat → Veiled α → Veiled Nat
  | _, [] => []
  | i, .plain c :: s => .plain c :: number i s
  | i, .hidden _ :: s => .hidden i :: number (i + 1) s

theorem Veiled.number_rename {α β : Type} (f : α → β) (i : Nat) (s : Veiled α) :
    number i (rename f s) = number i s := by
  induction s generalizing i with
  | nil => rfl
  | cons a s ih =>
    rcases a with c | a
    · exact congrArg (Symbol.plain c :: ·) (ih i)
    · exact congrArg (Symbol.hidden i :: ·) (ih (i + 1))

theorem Veiled.countP_number {α : Type} (i : Nat) (s : Veiled α) :
    (number i s).countP Symbol.isHidden = s.countP Symbol.isHidden := by
  induction s generalizing i with
  | nil => rfl
  | cons a s ih =>
    rcases a with c | a <;>
    · rw [number, List.countP_cons, List.countP_cons, ih]
      rfl

namespace Outline

/-- Two outlines that look the same: nothing but what is hidden tells them apart. -/
structure LooksLike (o o' : Outline) : Prop where
  /-- The phrases are the same. -/
  symbols : o.symbols = o'.symbols
  /-- As many fragments are hidden. -/
  length : o.hidden.length = o'.hidden.length

theorem LooksLike.hideMatches {o o' : Outline} (h : o.LooksLike o') (r : Recognizer)
    (handle : Veiled Nat → Handling) :
    (o.hideMatches r handle).LooksLike (o'.hideMatches r handle) := by
  rw [Outline.hideMatches, Outline.hideMatches, h.symbols, h.length]
  exact ⟨rfl, by rw [List.length_append, List.length_append, h.length]⟩

theorem symbols_hideCells_quotedRun (t : Text) (i : Nat) :
    (hideCells handleQuotedRun i (Cql.quotedRun.cells (Veiled.ofText t))).1
      = Veiled.number i (hideRuns t) := by
  rw [Recognizer.cells_ofText, hideRuns]
  induction Cql.quotedRun.scan t generalizing i with
  | nil => rfl
  | cons item items ih =>
    rcases item with c | m
    · exact congrArg (Symbol.plain c :: ·) (ih i)
    · exact congrArg (Symbol.hidden i :: ·) (ih (i + 1))

/-- Phrases with the same text around their quoted runs have outlines that look the same. -/
theorem looksLike_quotedRuns {t t' : Text}
    (h : Veiled.number 0 (hideRuns t) = Veiled.number 0 (hideRuns t')) :
    ((start t).step .quotedRuns).LooksLike ((start t').step .quotedRuns) := by
  have hlength : ∀ t : Text, ((start t).step .quotedRuns).hidden.length
      = (Veiled.number 0 (hideRuns t)).countP Symbol.isHidden := by
    intro t
    rw [Veiled.countP_number, ← length_filterMap_quotedRun, ← hidden_hideCells _ 0]
    rfl
  refine ⟨?_, by rw [hlength, hlength, h]⟩
  exact (symbols_hideCells_quotedRun t 0).trans (h.trans (symbols_hideCells_quotedRun t' 0).symm)

/-! ## What is masked, with the runs still blank

A fragment that holds others, as a quoted group does, is a veiled phrase itself. So the phrase that
is masked is veiled twice, and the blanks are filled at the inner level. What decides about tokens
and validity is at the outer level, where the two phrases are the same. -/

/-- What is left of a match, with every fragment known by the symbols that will stand for it. -/
def Handling.veiled (u : Veiled Nat) : Handling → Veiled (Veiled Nat)
  | leave => Veiled.rename (fun i ↦ [.hidden i]) u
  | hide before _ replacement after =>
    Veiled.rename (fun i ↦ [.hidden i]) before ++
      .hidden replacement :: Veiled.rename (fun i ↦ [.hidden i]) after

/-- What is left of a cell, with every fragment known by the symbols that will stand for it. -/
def cellVeiled (handle : Veiled Nat → Handling) : Cell Nat → Veiled (Veiled Nat)
  | .plain a => [a.map fun i ↦ [.hidden i]]
  | .hit u => (handle u).veiled u

theorem rename_fill_single (f : Nat → Text) (u : Veiled Nat) :
    Veiled.rename (Veiled.fill f) (Veiled.rename (fun i ↦ [.hidden i]) u) = Veiled.rename f u := by
  rw [Veiled.rename_rename]
  exact Veiled.rename_congr fun i _ ↦ List.append_nil (f i)

theorem rename_fill_cellVeiled (f : Nat → Text) (handle : Veiled Nat → Handling)
    (cell : Cell Nat) : Veiled.rename (Veiled.fill f) (cellVeiled handle cell)
      = cellReading f handle cell := by
  rcases cell with a | u
  · exact rename_fill_single f [a]
  · rw [cellVeiled, cellReading]
    cases handle u with
    | leave => exact rename_fill_single f u
    | hide before content replacement after =>
      rw [Handling.veiled, Veiled.rename_append, Veiled.rename_hidden, rename_fill_single,
        rename_fill_single]
      rfl

/-- Whatever becomes of a cell, the runs in it stay in order. -/
theorem names_cellVeiled (quoteBare : Bool) {s : Veiled Nat} {cell : Cell Nat}
    (hcell : cell ∈ Cql.innermostGroup.cells s) :
    (Veiled.names (cellVeiled (handleGroup quoteBare) cell)).flatMap Veiled.names
      = Veiled.names cell.symbols := by
  have hsingle : ∀ u : Veiled Nat, (Veiled.names (Veiled.rename
      (fun i ↦ ([.hidden i] : Veiled Nat)) u)).flatMap Veiled.names = Veiled.names u := by
    intro u
    rw [Veiled.names_rename, List.flatMap_map]
    exact List.flatMap_singleton' _
  rcases cell with a | u
  · exact hsingle [a]
  · have hu := Cql.eq_of_hit_mem_cells_innermostGroup hcell
    rw [cellVeiled, handleGroup, Cell.symbols]
    split
    · simp [Handling.veiled]
    · split
      · exact hsingle u
      · conv_rhs => rw [hu]
        simp [Handling.veiled]

end Outline

namespace Repairer

variable (r : Repairer)

/-- What a repair masks in a template. -/
def maskedTemplate (T : Template) : Veiled (Veiled Nat) :=
  isolateAll r.settings.reserved ((Cql.innermostGroup.cells T.veiled).flatMap
    (Outline.cellVeiled (handleGroup r.settings.quoteBareGroups)))

/-- What a repair makes of a template. -/
def repairedTemplate (T : Template) : Veiled Nat :=
  (Veiled.ofText (separator (Cql.phraseIsCql (Veiled.shape (r.maskedTemplate T))))).intercalate
    (Veiled.unwritten (r.maskedTemplate T))

theorem names_repairedTemplate (T : Template) :
    Veiled.names (r.repairedTemplate T) = Veiled.names T.symbols := by
  have hjoin : ∀ (x : Text) (us : List (Veiled Nat)),
      Veiled.names ((Veiled.ofText x).intercalate us) = Veiled.names us.flatten := by
    intro x us
    have hx : Veiled.names (Veiled.ofText x : Veiled Nat) = [] := Veiled.names_ofText x
    rw [Veiled.names] at hx
    rw [Veiled.names, Text.flatMap_intercalate, hx, Text.nil_intercalate, Text.flatten_map_flatMap,
      ← Veiled.names]
  have hveiled : Veiled.names T.veiled = Veiled.names T.symbols := by
    rw [Template.veiled, Veiled.names_append, Veiled.names_ofText, List.append_nil]
  rw [repairedTemplate, hjoin, Veiled.names_flatten_unwritten, maskedTemplate,
    Veiled.names_isolateAll, Veiled.names_flatMap, List.flatMap_assoc, ← hveiled]
  conv_rhs => rw [← Cql.innermostGroup.flatMap_symbols_cells T.veiled, Veiled.names_flatMap]
  exact List.flatMap_congr fun cell hcell ↦ Outline.names_cellVeiled _ hcell

section Write

variable (supply : KeySupply) {T : Template} {bodies : Nat → QuoteFree}
  (hnormal : normalize (T.write bodies) = T.write bodies)

include hnormal

theorem rename_maskedPhrase_write :
    Veiled.rename (Veiled.fill id) (r.maskedPhrase (T.write bodies))
      = Veiled.rename (Veiled.fill (quote bodies)) (r.maskedTemplate T) := by
  rw [maskedPhrase, maskedTemplate, rename_isolateAll, rename_isolateAll, parts, hnormal,
    maskedParts, PhraseRepair.parts, T.hideRuns_write, Recognizer.cells_rename, List.map_map,
    List.flatMap_map, Veiled.rename, List.map_flatMap, Veiled.rename, List.map_flatMap]
  refine congrArg _ (List.flatMap_congr fun cell hcell ↦ ?_)
  exact (Outline.cellReading_handleGroup _ _ hcell).symm.trans
    (Outline.rename_fill_cellVeiled _ _ cell).symm

theorem valid_repair_write : (r.repair supply (T.write bodies)).valid
    = Cql.phraseIsCql (Veiled.shape (r.maskedTemplate T)) := by
  have hshape := congrArg Veiled.shape (r.rename_maskedPhrase_write hnormal)
  rw [Veiled.shape_rename, Veiled.shape_rename] at hshape
  rw [r.valid_repair, hshape]

variable (hlen : (T.write bodies).length < 2 ^ 64)

include hlen

theorem tokens_repair_write : (r.repair supply (T.write bodies)).tokens
    = (Veiled.unwritten (r.maskedTemplate T)).map (Veiled.fill (quote bodies)) := by
  have htokens := r.tokens_repair supply (r.length_hidden_outline_le hlen)
  -- Both phrases are renamed to one that is veiled by texts before they are compared.
  have hname : ∀ {α : Type} (f : α → Text) (s : Veiled α),
      Veiled.tokens f s = Veiled.tokens id (Veiled.rename f s) := fun f s ↦
    (Veiled.tokens_rename id f s).symm
  rw [htokens, hname, r.rename_maskedPhrase_write hnormal, ← hname,
    Veiled.tokens_fill (quote_ne_nil bodies)]

theorem output_repair_write : (r.repair supply (T.write bodies)).output
    = Veiled.fill (quote bodies) (r.repairedTemplate T) := by
  have hseparator : ∀ x : Text, (Veiled.ofText x).flatMap (Symbol.write (quote bodies)) = x :=
    Veiled.fill_ofText (quote bodies)
  rw [Report.output, r.tokens_repair_write supply hnormal hlen,
    r.valid_repair_write supply hnormal, joinTokens_eq, Text.joinWith, repairedTemplate,
    Veiled.fill, Text.flatMap_intercalate, hseparator]
  rfl

end Write

/-- Templates written out in two ways have outlines that look the same. -/
theorem looksLike_outline_write (T : Template) (bodies bodies' : Nat → QuoteFree) :
    (r.outline (T.write bodies)).LooksLike (r.outline (T.write bodies')) := by
  refine (Outline.looksLike_quotedRuns ?_).hideMatches _ _
  rw [T.hideRuns_write, T.hideRuns_write, Veiled.number_rename, Veiled.number_rename]

/-- **Quoted text is opaque.** Two phrases with normal spacing that differ in the bodies of their
quoted runs only are masked as the same phrase with the same keys, and both or neither are queries.
Their tokens, and what they are repaired to, are written with the runs of either in the same places,
where each run stands once and in order. The placeholder numbers last for every phrase that fits in
memory. -/
theorem repair_opaque (supply : KeySupply) (T : Template) {bodies bodies' : Nat → QuoteFree}
    (hnormal : normalize (T.write bodies) = T.write bodies)
    (hnormal' : normalize (T.write bodies') = T.write bodies')
    (hlen : (T.write bodies).length < 2 ^ 64) (hlen' : (T.write bodies').length < 2 ^ 64) :
    (r.repair supply (T.write bodies)).masked.phrase
        = (r.repair supply (T.write bodies')).masked.phrase ∧
      (r.repair supply (T.write bodies)).valid = (r.repair supply (T.write bodies')).valid ∧
      (r.repair supply (T.write bodies)).masked.keys
        = (r.repair supply (T.write bodies')).masked.keys ∧
      (r.repair supply (T.write bodies)).tokens
        = (Veiled.unwritten (r.maskedTemplate T)).map (Veiled.fill (quote bodies)) ∧
      (r.repair supply (T.write bodies')).tokens
        = (Veiled.unwritten (r.maskedTemplate T)).map (Veiled.fill (quote bodies')) ∧
      (r.repair supply (T.write bodies)).output
        = Veiled.fill (quote bodies) (r.repairedTemplate T) ∧
      (r.repair supply (T.write bodies')).output
        = Veiled.fill (quote bodies') (r.repairedTemplate T) ∧
      Veiled.names (r.repairedTemplate T) = Veiled.names T.symbols := by
  have hlooks := r.looksLike_outline_write T bodies bodies'
  refine ⟨?_, ?_, ?_, r.tokens_repair_write supply hnormal hlen,
    r.tokens_repair_write supply hnormal' hlen', r.output_repair_write supply hnormal hlen,
    r.output_repair_write supply hnormal' hlen', r.names_repairedTemplate T⟩
  · rw [repair, repair, hnormal, hnormal', r.phrase_mask, r.phrase_mask, hlooks.symbols]
  · rw [r.valid_repair_write supply hnormal, r.valid_repair_write supply hnormal']
  · rw [r.keys_repair, r.keys_repair, hnormal, hnormal', hlooks.length]

end Repairer

/-- A word and a group that ends with a quoted run. -/
private def groupTemplate : Template where
  symbols := Veiled.ofText "dune (b ".toList ++ [.hidden 0, .plain ')']
  rest := []
  quote_notMem := by decide
  count_rest := by decide

/-- Parentheses, operators and reserved characters make no difference between quotes. -/
theorem repair_opaque_to_operators_and_groups :
    groupTemplate.write (fun _ ↦ ⟨"x) or (y/".toList, by decide⟩)
        = "dune (b \"x) or (y/\")".toList ∧
      (({} : Repairer).repair {}
          (groupTemplate.write fun _ ↦ ⟨"x) or (y/".toList, by decide⟩)).masked.phrase
        = (({} : Repairer).repair {}
          (groupTemplate.write fun _ ↦ ⟨['z'], by decide⟩)).masked.phrase :=
  ⟨by decide +kernel, (Repairer.repair_opaque {} {} groupTemplate (by decide +kernel)
    (by decide +kernel) (by decide +kernel) (by decide +kernel)).1⟩

end PhraseRepair
