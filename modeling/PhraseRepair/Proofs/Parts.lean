import PhraseRepair.Proofs.Resolving
import PhraseRepair.Proofs.Spacing

/-!
# The parts of a phrase

What masking makes of a phrase can be said without keys. With its quoted runs out of sight, the
phrase is cut along its innermost groups. Each of its parts is a character, a quoted run or a group,
and a group either keeps its grouping or comes back between quotes.

A part has three sides: the text that it is made of, the symbols that are left of it in the masked
phrase, and the text that it is restored to. Hiding quoted runs and groups gives an outline that
reads as the masked sides of the parts, one after the other (`reading_run`).
-/

namespace PhraseRepair

/-- A part of a phrase whose quoted runs are out of sight. -/
inductive Part
  | plain (a : Symbol Text)
  | kept (body : Veiled Text)
  | quoted (body : Veiled Text)

namespace Part

/-- A group with its parentheses. -/
def group (body : Veiled Text) : Text := Text.enclose '(' ')' (Veiled.fill id body)

/-- What the part is made of. -/
def source : Part → Text
  | plain a => a.write id
  | kept body => group body
  | quoted body => group body

/-- What the part is restored to. -/
def restored : Part → Text
  | plain a => a.write id
  | kept body => group body
  | quoted body => Text.enclose '"' '"' (group body)

/-- What is left of the part in the masked phrase. A hidden fragment is known by what it shows when
it is brought back, in which quoted runs are still out of sight. -/
def masked : Part → Veiled (Veiled Text)
  | plain (.plain c) => [.plain c]
  | plain (.hidden run) => [.hidden [.hidden run]]
  | kept body => if body.isEmpty then [.plain '(', .plain ')']
    else [.plain '(', .hidden body, .plain ')']
  | quoted body => [.hidden [.hidden (Text.enclose '"' '"' (group body))]]

/-- The part that a cell of the phrase is. -/
def ofCell (quoteBare : Bool) : Cell Text → Part
  | .plain a => plain a
  | .hit u => if keepsGrouping quoteBare (Veiled.shape (Cql.inner u)) then kept (Cql.inner u)
    else quoted (Cql.inner u)

end Part

/-- The phrase with its quoted runs out of sight. -/
def hideRuns (t : Text) : Veiled Text :=
  (Cql.quotedRun.scan t).map fun
    | .plain c => .plain c
    | .hit m => .hidden m.text

/-- The parts of a phrase. -/
def parts (quoteBare : Bool) (t : Text) : List Part :=
  (Cql.innermostGroup.cells (hideRuns t)).map (Part.ofCell quoteBare)

/-- The phrase with its fragments hidden. -/
def maskedParts (ps : List Part) : Veiled (Veiled Text) := ps.flatMap Part.masked

theorem fill_hideRuns (t : Text) : Veiled.fill id (hideRuns t) = t := by
  rw [hideRuns, Veiled.fill, List.flatMap_map]
  refine Eq.trans (List.flatMap_congr fun item _ ↦ ?_) (Cql.quotedRun.flatMap_text_scan t)
  rcases item with c | m <;> rfl

/-! ## What gives rise to a fragment

Fragments are counted without hiding them, so that the numbers can be shown to last before any are
given out. Each fragment comes with a symbol of its own, a quoted run or the opening parenthesis of
a group. -/

namespace Symbol

variable {α : Type}

/-- Whether a symbol is out of sight. -/
def isHidden : Symbol α → Bool
  | plain _ => false
  | hidden _ => true

/-- Whether a symbol is an opening parenthesis in sight. -/
def isOpening : Symbol α → Bool
  | plain c => c = '('
  | hidden _ => false

/-- Whether a symbol can give rise to a fragment. -/
def startsFragment (a : Symbol α) : Bool := a.isHidden || a.isOpening

theorem countP_startsFragment (s : Veiled α) :
    s.countP startsFragment = s.countP isHidden + s.countP isOpening := by
  induction s with
  | nil => rfl
  | cons a s ih =>
    rw [List.countP_cons, List.countP_cons, List.countP_cons, ih]
    rcases a with c | a
    · by_cases hc : c = '('
      · simp [startsFragment, isHidden, isOpening, hc, Nat.add_assoc]
      · simp [startsFragment, isHidden, isOpening, hc]
    · simp only [startsFragment, isHidden, isOpening, Bool.true_or, Bool.false_eq_true, if_true,
        if_false]
      omega

end Symbol

/-! ## Innermost groups

The scan for groups is made on the shape of the phrase, in which a quoted run is a sentinel like any
other character. So the delimiters of a group are in sight, and its body is a run of symbols that
may have quoted runs among them. -/

theorem Symbol.eq_plain_of_shape_eq {α : Type} {a : Symbol α} {c : Char} (h : a.shape = c)
    (hc : c ≠ Placeholder.opening) : a = .plain c := by
  rcases a with d | i
  · exact congrArg Symbol.plain h
  · exact absurd h.symm hc

/-- What is read as an innermost group is a pair of parentheses with no parenthesis between them. -/
theorem Cql.exists_of_hit_mem_cells_innermostGroup {α : Type} {s u : Veiled α}
    (h : .hit u ∈ innermostGroup.cells s) :
    ∃ body, u = .plain '(' :: body ++ [.plain ')'] ∧
      ∀ c ∈ Veiled.shape body, isParen c = false := by
  obtain ⟨t, m, hread, hm⟩ := innermostGroup.exists_read_of_hit_mem_cells h
  obtain ⟨body, hbody, -, rfl⟩ := read_innermostGroup_eq_some_iff.mp hread
  -- The match is the shape of `u`, so `u` falls apart as the match does.
  obtain ⟨v, w, rfl, hv, hw⟩ := List.map_eq_append_iff.mp (show Veiled.shape u = _ from hm.symm)
  obtain ⟨a, v', rfl, ha, hv'⟩ := List.map_eq_cons_iff.mp hv
  obtain ⟨b, w', rfl, hb, hw'⟩ := List.map_eq_cons_iff.mp hw
  rw [List.map_eq_nil_iff.mp hw', Symbol.eq_plain_of_shape_eq ha (by decide),
    Symbol.eq_plain_of_shape_eq hb (by decide)]
  refine ⟨v', rfl, fun c hc ↦ ?_⟩
  rw [Veiled.shape, hv'] at hc
  exact hbody c hc

theorem Cql.eq_of_hit_mem_cells_innermostGroup {α : Type} {s u : Veiled α}
    (h : .hit u ∈ innermostGroup.cells s) : u = .plain '(' :: inner u ++ [.plain ')'] := by
  obtain ⟨body, rfl, -⟩ := exists_of_hit_mem_cells_innermostGroup h
  rw [inner_cons_append]

theorem flatMap_source_parts (quoteBare : Bool) (t : Text) :
    (parts quoteBare t).flatMap Part.source = t := by
  rw [parts, List.flatMap_map]
  conv_rhs => rw [← fill_hideRuns t, ← Cql.innermostGroup.flatMap_symbols_cells (hideRuns t)]
  rw [Veiled.fill, List.flatMap_assoc]
  refine List.flatMap_congr fun cell hcell ↦ ?_
  rcases cell with a | u
  · simp [Part.ofCell, Part.source, Cell.symbols]
  · have hu : Part.group (Cql.inner u) = Veiled.fill id u := by
      rw [Part.group, ← Cql.fill_enclose, ← Cql.eq_of_hit_mem_cells_innermostGroup hcell]
    rw [Part.ofCell]
    split <;> exact hu

/-! ## Groups with other names

While a phrase is being masked, fragments are known by their places, and in the parts they are known
by their texts. The two views are related by renaming, and neither the cells nor the handling of a
group see a difference. -/

namespace Part

variable {α : Type} (f : α → Text) (body : Veiled α)

theorem group_rename :
    group (Veiled.rename f body) = Text.enclose '(' ')' (Veiled.fill f body) := by
  rw [group, Veiled.fill_rename]
  rfl

theorem ofCell_rename_group (quoteBare : Bool) :
    ofCell quoteBare (Cell.rename f (.hit (.plain '(' :: body ++ [.plain ')'])))
      = if keepsGrouping quoteBare (Veiled.shape body) then kept (Veiled.rename f body)
        else quoted (Veiled.rename f body) := by
  have hrename : Veiled.rename f (.plain '(' :: body ++ [.plain ')'])
      = .plain '(' :: Veiled.rename f body ++ [.plain ')'] := by
    rw [List.cons_append, Veiled.rename_plain, Veiled.rename_append]
    rfl
  rw [Cell.rename, ofCell, hrename, Cql.inner_cons_append, Veiled.shape_rename]

end Part

namespace Outline

/-! ## What an outline reads

What the fragment in a place reads can be said only for the fragments of all steps together. So the
lemmas take the list of all fragments as it is in the end, and those of the step at hand are known
to stand in it from their first place on. -/

/-- What is left of a match, with every fragment known by what it reads in the end. -/
def Handling.reading (f : Nat → Text) (u : Veiled Nat) : Handling → Veiled Text
  | leave => Veiled.rename f u
  | hide before _ replacement after =>
    Veiled.rename f before ++ .hidden (Veiled.fill f replacement) :: Veiled.rename f after

/-- The fragment that a match leaves. -/
def Handling.hidden? : Handling → Option Hidden
  | leave => none
  | hide _ content replacement _ => some ⟨content, replacement⟩

/-- What is left of a cell. -/
def cellReading (f : Nat → Text) (handle : Veiled Nat → Handling) : Cell Nat → Veiled Text
  | .plain a => [a.map f]
  | .hit u => (handle u).reading f u

/-- The fragment that a cell leaves. -/
def cellHidden? (handle : Veiled Nat → Handling) : Cell Nat → Option Hidden
  | .plain _ => none
  | .hit u => (handle u).hidden?

theorem hidden_hideCells (handle : Veiled Nat → Handling) (i : Nat) (cells : List (Cell Nat)) :
    (hideCells handle i cells).2 = cells.filterMap (cellHidden? handle) := by
  induction cells generalizing i with
  | nil => rfl
  | cons cell cells ih =>
    rw [List.filterMap_cons]
    rcases cell with a | u
    · exact ih i
    · rw [hideCells, cellHidden?]
      cases handle u with
      | leave => exact ih i
      | hide before content replacement after => exact congrArg _ (ih (i + 1))

private theorem rename_meaning_hideCells {handle : Veiled Nat → Handling} {hs : List Hidden}
    (hwithin : ∀ i h, hs[i]? = some h → ∀ a ∈ h.replacement, Within i a) {i : Nat}
    {cells : List (Cell Nat)} (hplace : (hideCells handle i cells).2 <+: hs.drop i) :
    Veiled.rename (meaning hs) (hideCells handle i cells).1
      = cells.flatMap (cellReading (meaning hs) handle) := by
  induction cells generalizing i with
  | nil => rfl
  | cons cell cells ih =>
    rw [List.flatMap_cons]
    rcases cell with a | u
    · rw [← ih hplace]
      rfl
    · rw [cellReading]
      rw [hideCells] at hplace ⊢
      cases hu : handle u with
      | leave =>
        rw [hu] at hplace
        rw [← ih hplace, Handling.reading, ← Veiled.rename_append]
      | hide before content replacement after =>
        -- The fragment stands in place `i`, and the others follow it.
        rw [hu] at hplace
        obtain ⟨rest, hrest⟩ := hplace
        rw [List.cons_append] at hrest
        have hi : hs[i]? = some ⟨content, replacement⟩ := by
          rw [← Nat.add_zero i, ← List.getElem?_drop, ← hrest, List.getElem?_cons_zero]
        have hnext : (hideCells handle (i + 1) cells).2 <+: hs.drop (i + 1) := by
          rw [← List.drop_drop, ← hrest, List.drop_succ_cons, List.drop_zero]
          exact List.prefix_append _ _
        simp only [Handling.reading, Veiled.rename_append, ← ih hnext,
          Veiled.rename_hidden, meaning_eq hi (hwithin i _ hi), List.append_assoc,
          List.cons_append]

theorem reading_hideMatches {o : Outline} {r : Recognizer} {handle : Veiled Nat → Handling}
    (ho : (o.hideMatches r handle).WellFormed) :
    Veiled.rename (meaning (o.hideMatches r handle).hidden) (o.hideMatches r handle).symbols
      = (r.cells o.symbols).flatMap
          (cellReading (meaning (o.hideMatches r handle).hidden) handle) := by
  refine rename_meaning_hideCells (fun i h hi ↦ (ho.replacement i h hi).2) ?_
  simp [hideMatches]

theorem reading_quotedRuns {t : Text} (ho : ((start t).step .quotedRuns).WellFormed) :
    Veiled.rename (meaning ((start t).step .quotedRuns).hidden) ((start t).step .quotedRuns).symbols
      = hideRuns t := by
  rw [step] at ho ⊢
  rw [reading_hideMatches ho, start, Recognizer.cells_ofText, List.flatMap_map, hideRuns,
    List.map_eq_flatMap]
  refine List.flatMap_congr fun item _ ↦ ?_
  rcases item with c | m
  · rfl
  · simp [Cell.ofItem, cellReading, handleQuotedRun, Handling.reading, Veiled.rename]

/-- The quoted runs still read what they read when groups have been hidden after them. -/
theorem reading_quotedRuns_of_run {t : Text} (ht : Placeholder.hasSentinel t = false)
    (quoteBare : Bool) :
    Veiled.rename (meaning ((start t).run [.quotedRuns, .groups quoteBare]).hidden)
      ((start t).step .quotedRuns).symbols = hideRuns t := by
  have hruns := wellFormed_step (wellFormed_start ht) (s := .quotedRuns) (by simp)
  rw [← reading_quotedRuns hruns]
  exact Veiled.rename_congr fun i hi ↦ meaning_append (hruns.symbols _ hi)

theorem cellReading_handleGroup (quoteBare : Bool) (f : Nat → Text) {s : Veiled Nat}
    {cell : Cell Nat} (hcell : cell ∈ Cql.innermostGroup.cells s) :
    cellReading f (handleGroup quoteBare) cell
      = Veiled.rename (Veiled.fill id) (Part.ofCell quoteBare (cell.rename f)).masked := by
  rcases cell with a | u
  · rcases a with c | i
    · rfl
    · simp [cellReading, Cell.rename, Part.ofCell, Part.masked, Symbol.map, Veiled.rename]
  · obtain ⟨body, rfl, -⟩ := Cql.exists_of_hit_mem_cells_innermostGroup hcell
    rw [cellReading, handleGroup, Part.ofCell_rename_group, Cql.inner_cons_append]
    cases keepsGrouping quoteBare (Veiled.shape body) with
    | false => simp [Handling.reading, Part.masked, Part.group_rename, Text.enclose]
    | true =>
      have hfill : Veiled.fill id (Veiled.rename f body) = Veiled.fill f body :=
        Veiled.fill_rename id f body
      by_cases hnil : body = []
      · rw [hnil]
        rfl
      · have hempty : body.isEmpty = false := List.isEmpty_eq_false_iff.mpr hnil
        have hempty' : (Veiled.rename f body).isEmpty = false := by
          rw [Veiled.rename, List.isEmpty_map, hempty]
        simp [Handling.reading, Part.masked, hempty, hempty', hfill]

/-- **Reading a masked phrase.** Once quoted runs and groups have been hidden, an outline reads as
the masked sides of the parts of the phrase. -/
theorem reading_run {t : Text} (ht : Placeholder.hasSentinel t = false) (quoteBare : Bool) :
    Veiled.rename (meaning ((start t).run [.quotedRuns, .groups quoteBare]).hidden)
        ((start t).run [.quotedRuns, .groups quoteBare]).symbols
      = Veiled.rename (Veiled.fill id) (maskedParts (parts quoteBare t)) := by
  have hruns := wellFormed_step (wellFormed_start ht) (s := .quotedRuns) (by simp)
  have hgroups : (((start t).step .quotedRuns).hideMatches Cql.innermostGroup
      (handleGroup quoteBare)).WellFormed :=
    wellFormed_step hruns (s := .groups quoteBare) (by simp)
  have hread := reading_quotedRuns_of_run ht quoteBare
  refine Eq.trans (reading_hideMatches hgroups) ?_
  rw [maskedParts, parts, ← hread, Recognizer.cells_rename, List.map_map, List.flatMap_map,
    Veiled.rename, List.map_flatMap]
  exact List.flatMap_congr fun cell hcell ↦ cellReading_handleGroup quoteBare _ hcell

/-! ## The fragments of a phrase -/

/-- The fragments are the quoted runs, and then the groups. -/
theorem hidden_run (t : Text) (quoteBare : Bool) :
    ((start t).run [.quotedRuns, .groups quoteBare]).hidden
      = (Cql.quotedRun.cells (Veiled.ofText t)).filterMap (cellHidden? handleQuotedRun)
        ++ (Cql.innermostGroup.cells ((start t).step .quotedRuns).symbols).filterMap
            (cellHidden? (handleGroup quoteBare)) := by
  rw [← hidden_hideCells _ 0, ← hidden_hideCells _ ((start t).step .quotedRuns).hidden.length]
  rfl

private theorem length_filterMap_cellHidden?_le {handle : Veiled Nat → Handling}
    {g : Symbol Nat → Bool} {cells : List (Cell Nat)}
    (hcells : ∀ u, .hit u ∈ cells → ∃ a ∈ u, g a = true) :
    (cells.filterMap (cellHidden? handle)).length ≤ (cells.flatMap Cell.symbols).countP g := by
  induction cells with
  | nil => exact Nat.le_refl 0
  | cons cell cells ih =>
    have ih := ih fun u hu ↦ hcells u (List.mem_cons_of_mem _ hu)
    rw [List.flatMap_cons, List.countP_append]
    rcases cell with a | u
    · exact Nat.le_trans ih (Nat.le_add_left _ _)
    · have hpos := List.countP_pos_iff.mpr (hcells u List.mem_cons_self)
      -- Hiding a cell makes one fragment at most.
      have hone : ((Cell.hit u :: cells).filterMap (cellHidden? handle)).length
          ≤ 1 + (cells.filterMap (cellHidden? handle)).length := by
        rw [List.filterMap_cons]
        split
        · exact Nat.le_add_left _ _
        · exact Nat.le_of_eq (Nat.add_comm _ _)
      rw [Cell.symbols]
      omega

theorem length_filterMap_quotedRun (t : Text) :
    ((Cql.quotedRun.cells (Veiled.ofText t)).filterMap (cellHidden? handleQuotedRun)).length
      = (hideRuns t).countP Symbol.isHidden := by
  rw [Recognizer.cells_ofText, hideRuns]
  induction Cql.quotedRun.scan t with
  | nil => rfl
  | cons item items ih =>
    rw [List.map_cons, List.map_cons, List.countP_cons, ← ih]
    rcases item with c | m <;> rfl

/-- The fragments of a phrase are its quoted runs, and some of its groups, each of which has an
opening parenthesis. -/
theorem length_hidden_run_le_countP {t : Text} (ht : Placeholder.hasSentinel t = false)
    (quoteBare : Bool) : ((start t).run [.quotedRuns, .groups quoteBare]).hidden.length
      ≤ (hideRuns t).countP Symbol.startsFragment := by
  have hgroups : ((Cql.innermostGroup.cells ((start t).step .quotedRuns).symbols).filterMap
      (cellHidden? (handleGroup quoteBare))).length
        ≤ (hideRuns t).countP Symbol.isOpening := by
    have hwell := wellFormed_step (wellFormed_start ht) (s := .quotedRuns) (by simp)
    have hread := reading_quotedRuns hwell
    refine Nat.le_trans (length_filterMap_cellHidden?_le (g := Symbol.isOpening) fun u hu ↦ ?_) ?_
    · rw [Cql.eq_of_hit_mem_cells_innermostGroup hu]
      exact ⟨_, List.mem_cons_self, rfl⟩
    · rw [Recognizer.flatMap_symbols_cells, ← hread, Veiled.rename, List.countP_map]
      refine Nat.le_of_eq (List.countP_congr fun a _ ↦ ?_)
      rcases a with c | i <;> rfl
  rw [hidden_run, List.length_append, length_filterMap_quotedRun, Symbol.countP_startsFragment]
  omega

theorem length_hidden_run_le {t : Text} (ht : Placeholder.hasSentinel t = false)
    (quoteBare : Bool) :
    ((start t).run [.quotedRuns, .groups quoteBare]).hidden.length ≤ t.length := by
  have hlength : (hideRuns t).length ≤ t.length := by
    have hcells := Cql.quotedRun.length_cells_le (Veiled.ofText t : Veiled Nat)
    rw [Recognizer.cells_ofText, List.length_map, Veiled.ofText, List.length_map] at hcells
    rwa [hideRuns, List.length_map]
  exact Nat.le_trans (length_hidden_run_le_countP ht quoteBare)
    (Nat.le_trans List.countP_le_length hlength)

end Outline

end PhraseRepair
