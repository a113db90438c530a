import PhraseRepair.Proofs.Blindness

/-!
# Outlines

An *outline* is a masked phrase before its keys are chosen: the phrase and its hidden fragments,
with every fragment named by its place in the order of hiding. It is masked by the same steps as a
text is. Spelling an outline with letters and a supply of numbers commutes with every step
(`spell_step`), so a masked phrase is a spelt outline, and neither the letters nor the numbers have
a part in what is hidden.

What a step can do to an outline is told by two invariants: sentinels never come in sight, and a
fragment holds fragments hidden earlier only (`WellFormed`).
-/

namespace PhraseRepair

/-- A hidden fragment of an outline. -/
structure Outline.Hidden where
  /-- What was taken out of the phrase. -/
  content : Veiled Nat
  /-- What will stand for it in the end. -/
  replacement : Veiled Nat

/-- A masked phrase whose keys have not been chosen yet. -/
structure Outline where
  /-- The phrase. -/
  symbols : Veiled Nat
  /-- The hidden fragments in the order in which they were hidden. -/
  hidden : List Outline.Hidden

namespace Outline

/-- What is done to the symbols that a match covers. -/
inductive Handling
  | leave
  | hide (before content replacement after : Veiled Nat)

/-- The outline of `treatQuotedRun`. -/
def handleQuotedRun (u : Veiled Nat) : Handling := .hide [] u u []

/-- The outline of `treatGroup`. -/
def handleGroup (quoteBare : Bool) (u : Veiled Nat) : Handling :=
  if !keepsGrouping quoteBare (Veiled.shape (Cql.inner u)) then
    .hide [] u (.plain '"' :: u ++ [.plain '"']) []
  else if (Cql.inner u).isEmpty then .leave
  else .hide [.plain '('] (Cql.inner u) (Cql.inner u) [.plain ')']

/-- The symbols of the cells with each match handled, and the fragments hidden in them, counted from
`i`. -/
def hideCells (handle : Veiled Nat → Handling) : Nat → List (Cell Nat) → Veiled Nat × List Hidden
  | _, [] => ([], [])
  | i, .plain a :: cells =>
    let rest := hideCells handle i cells
    (a :: rest.1, rest.2)
  | i, .hit u :: cells => match handle u with
    | .leave =>
      let rest := hideCells handle i cells
      (u ++ rest.1, rest.2)
    | .hide before content replacement after =>
      let rest := hideCells handle (i + 1) cells
      (before ++ .hidden i :: after ++ rest.1, ⟨content, replacement⟩ :: rest.2)

/-- A text with nothing hidden yet. -/
def start (t : Text) : Outline := ⟨Veiled.ofText t, []⟩

def hideMatches (o : Outline) (r : Recognizer) (handle : Veiled Nat → Handling) : Outline :=
  let hidden := hideCells handle o.hidden.length (r.cells o.symbols)
  ⟨hidden.1, o.hidden ++ hidden.2⟩

/-- The symbols with each occurrence of `c` in sight quoted and set apart by spaces. -/
def isolate {α : Type} (c : Char) (s : Veiled α) : Veiled α :=
  s.flatMap fun
    | .plain d => Veiled.ofText (if d = c then [' ', '"', c, '"', ' '] else [d])
    | .hidden a => [.hidden a]

/-- Takes one step. -/
def step (o : Outline) : MaskedPhrase.Step → Outline
  | .quotedRuns => o.hideMatches Cql.quotedRun handleQuotedRun
  | .groups quoteBare => o.hideMatches Cql.innermostGroup (handleGroup quoteBare)
  | .reserved characters =>
    { o with symbols := characters.foldl (fun s c ↦ isolate c s) o.symbols }

/-- Takes the steps in order. -/
def run (o : Outline) (steps : List MaskedPhrase.Step) : Outline := steps.foldl step o

/-! ## Spelling

A key is a veil, so the recognisers read the same in a spelt outline as in its shape, and what is
done to a match is compared symbol by symbol. The reserved characters are the only ones that could
be in a key. That they are not is the condition under which they may be reserved at all. -/

/-- The key of the fragment hidden in place `i`. -/
def key (letters : Text) (supply : KeySupply) (i : Nat) : Text :=
  Placeholder.text letters (supply.advance i).next

/-- The hidden fragments with their keys, counted from `i`. -/
def spellHidden (key : Nat → Text) : Nat → List Hidden → List Fragment
  | _, [] => []
  | i, h :: hidden =>
    ⟨Veiled.fill key h.content, key i, Veiled.fill key h.replacement⟩
      :: spellHidden key (i + 1) hidden

/-- The masked phrase that an outline becomes with letters and a supply. -/
def spell (letters : Text) (supply : KeySupply) (o : Outline) : MaskedPhrase where
  letters := letters
  phrase := Veiled.fill (key letters supply) o.symbols
  fragments := spellHidden (key letters supply) 0 o.hidden
  supply := supply.advance o.hidden.length

theorem spellHidden_append (key : Nat → Text) (i : Nat) (hs hs' : List Hidden) :
    spellHidden key i (hs ++ hs')
      = spellHidden key i hs ++ spellHidden key (i + hs.length) hs' := by
  induction hs generalizing i with
  | nil => simp [spellHidden]
  | cons h hs ih =>
    rw [List.cons_append, spellHidden, ih, spellHidden, List.cons_append, List.length_cons,
      Nat.add_assoc, Nat.add_comm 1]

@[simp] theorem length_spellHidden (key : Nat → Text) (i : Nat) (hs : List Hidden) :
    (spellHidden key i hs).length = hs.length := by
  induction hs generalizing i with
  | nil => rfl
  | cons h hs ih => rw [spellHidden, List.length_cons, ih, List.length_cons]

theorem getElem?_spellHidden (key : Nat → Text) (i j : Nat) (hs : List Hidden) :
    (spellHidden key i hs)[j]? = hs[j]?.map fun h ↦
      ⟨Veiled.fill key h.content, key (i + j), Veiled.fill key h.replacement⟩ := by
  induction hs generalizing i j with
  | nil => rfl
  | cons h hs ih =>
    cases j with
    | zero => rfl
    | succ j =>
      rw [spellHidden, List.getElem?_cons_succ, ih, List.getElem?_cons_succ, Nat.add_assoc,
        Nat.add_comm 1]

/-- The treatment of a match, spelt. -/
def Handling.spell (key : Nat → Text) : Handling → Treatment
  | leave => .leave
  | hide before content replacement after =>
    .hide (Veiled.fill key before) (Veiled.fill key content) (Veiled.fill key replacement)
      (Veiled.fill key after)

theorem treatQuotedRun_fill (f : Nat → Text) (u : Veiled Nat) (value : Text) :
    treatQuotedRun ⟨Veiled.fill f u, value⟩ = (handleQuotedRun u).spell f := rfl

theorem treatGroup_fill {f : Nat → Text} (hf : ∀ i, IsVeil (f i)) (quoteBare : Bool)
    (u : Veiled Nat) :
    treatGroup quoteBare ⟨Veiled.fill f u, Veiled.fill f (Cql.inner u)⟩
      = (handleGroup quoteBare u).spell f := by
  have hempty : (Veiled.fill f (Cql.inner u)).isEmpty = (Cql.inner u).isEmpty := by
    rw [Bool.eq_iff_iff, List.isEmpty_iff, List.isEmpty_iff]
    refine ⟨Veiled.eq_nil_of_fill_eq_nil fun i ↦ (hf i).ne_nil, fun h ↦ ?_⟩
    rw [h, Veiled.fill_nil]
  rw [treatGroup, handleGroup, Cql.keepsGrouping_fill hf, hempty]
  split
  · rw [Handling.spell, Cql.fill_enclose]
    rfl
  · split <;> rfl

theorem isolate_cons {α : Type} (c : Char) (a : Symbol α) (s : Veiled α) :
    isolate c (a :: s) = isolate c [a] ++ isolate c s := by
  rw [isolate, isolate, isolate, ← List.flatMap_append, List.singleton_append]

private theorem isolate_of_notMem {c : Char} {x : Text} (hx : c ∉ x) :
    MaskedPhrase.isolate c x = x := by
  induction x with
  | nil => rfl
  | cons d x ih =>
    rw [List.mem_cons, not_or] at hx
    rw [MaskedPhrase.isolate, List.flatMap_cons, ← MaskedPhrase.isolate, ih hx.2,
      if_neg (Ne.symm hx.1), List.singleton_append]

/-- Isolating a character commutes with filling where it is in sight only. -/
theorem isolate_fill {α : Type} {f : α → Text} {c : Char} (hc : ∀ a, c ∉ f a) (s : Veiled α) :
    MaskedPhrase.isolate c (Veiled.fill f s) = Veiled.fill f (isolate c s) := by
  induction s with
  | nil => rfl
  | cons a s ih =>
    rw [Veiled.fill_cons, MaskedPhrase.isolate, List.flatMap_append, ← MaskedPhrase.isolate,
      ← MaskedPhrase.isolate, ih, isolate_cons, Veiled.fill_append]
    cases a with
    | plain d => simp [Symbol.write, MaskedPhrase.isolate, isolate]
    | hidden a => simp [Symbol.write, isolate, isolate_of_notMem (hc a)]

theorem foldl_isolate_fill {α : Type} {f : α → Text} {cs : List Char}
    (hcs : ∀ c ∈ cs, ∀ a, c ∉ f a) (s : Veiled α) :
    cs.foldl (fun t c ↦ MaskedPhrase.isolate c t) (Veiled.fill f s)
      = Veiled.fill f (cs.foldl (fun s c ↦ isolate c s) s) := by
  induction cs generalizing s with
  | nil => rfl
  | cons c cs ih =>
    obtain ⟨hc, hcs⟩ := List.forall_mem_cons.mp hcs
    rw [List.foldl_cons, List.foldl_cons, isolate_fill hc, ih hcs]

section Spell

variable {letters : Text} (hletters : ∀ c ∈ letters, c.isAlpha = true) {supply : KeySupply}

include hletters

theorem isVeil_key (i : Nat) : IsVeil (key letters supply i) :=
  Placeholder.isVeil_text hletters _

omit hletters in
private theorem hideItems_map_plain_append (treat : Match → Treatment) (supply : KeySupply)
    (x : Text) (items : List Item) :
    hideItems letters treat supply (x.map .plain ++ items)
      = (x ++ (hideItems letters treat supply items).1,
          (hideItems letters treat supply items).2) := by
  induction x with
  | nil => rfl
  | cons c x ih => rw [List.map_cons, List.cons_append, hideItems, ih, List.cons_append]

omit hletters in
theorem hideItems_items {treat : Match → Treatment} {handle : Veiled Nat → Handling}
    {value : Veiled Nat → Text}
    (htreat : ∀ u, treat ⟨Veiled.fill (key letters supply) u, value u⟩
      = (handle u).spell (key letters supply)) (i : Nat) (cells : List (Cell Nat)) :
    hideItems letters treat (supply.advance i)
        (cells.flatMap (Cell.items (key letters supply) value))
      = (Veiled.fill (key letters supply) (hideCells handle i cells).1,
          spellHidden (key letters supply) i (hideCells handle i cells).2) := by
  induction cells generalizing i with
  | nil => rfl
  | cons cell cells ih =>
    rw [List.flatMap_cons]
    cases cell with
    | plain a => rw [Cell.items, hideItems_map_plain_append, ih, hideCells, Veiled.fill_cons]
    | hit u =>
      rw [Cell.items, List.singleton_append, hideItems, htreat, hideCells]
      cases handle u with
      | leave => simp only [Handling.spell, ih, Veiled.fill_append]
      | hide before content replacement after =>
        simp only [Handling.spell, KeySupply.advance_advance, ih, Veiled.fill_append,
          Veiled.fill_hidden, spellHidden, List.cons_append, List.append_assoc]
        rfl

/-- Hiding matches commutes with spelling. -/
theorem spell_hideMatches (o : Outline) {r : Recognizer} (hskip : r.SkipsInert)
    {value : Veiled Nat → Text} (hblind : r.BlindTo (key letters supply) value)
    {treat : Match → Treatment} {handle : Veiled Nat → Handling}
    (htreat : ∀ u, treat ⟨Veiled.fill (key letters supply) u, value u⟩
      = (handle u).spell (key letters supply)) :
    (o.hideMatches r handle).spell letters supply
      = (o.spell letters supply).hideMatches r treat := by
  rw [MaskedPhrase.hideMatches, spell, spell]
  rw [Recognizer.scan_fill
    (fun i ↦ Recognizer.passesOver_of_isVeil hskip (isVeil_key hletters i)) hblind,
    hideItems_items htreat]
  simp only [hideMatches, spellHidden_append, Nat.zero_add, KeySupply.advance_advance,
    List.length_append, length_spellHidden]

/-- **Spelling commutes with every step.** -/
theorem spell_step (o : Outline) {s : MaskedPhrase.Step}
    (hs : ∀ cs, s = .reserved cs → ∀ c ∈ cs, Settings.reservable c = true) :
    (o.step s).spell letters supply = (o.spell letters supply).step s := by
  cases s with
  | quotedRuns =>
    exact spell_hideMatches hletters o Cql.skipsInert_quotedRun
      (Cql.blindTo_quotedRun (isVeil_key hletters)) fun u ↦ treatQuotedRun_fill _ u _
  | groups quoteBare =>
    exact spell_hideMatches hletters o Cql.skipsInert_innermostGroup
      (Cql.blindTo_innermostGroup (isVeil_key hletters))
      (treatGroup_fill (isVeil_key hletters) quoteBare)
  | reserved cs =>
    have hfold := foldl_isolate_fill (f := key letters supply) fun c hc i ↦
      Placeholder.notMem_text_of_reservable hletters (hs cs rfl c hc) _
    rw [MaskedPhrase.step, MaskedPhrase.isolateReserved, step, spell, spell, hfold]

/-- A masked phrase is a spelt outline. -/
theorem spell_run (o : Outline) {steps : List MaskedPhrase.Step}
    (hsteps : ∀ cs, .reserved cs ∈ steps → ∀ c ∈ cs, Settings.reservable c = true) :
    (o.run steps).spell letters supply = (o.spell letters supply).run steps := by
  induction steps generalizing o with
  | nil => rfl
  | cons s steps ih =>
    rw [run, List.foldl_cons, ← run, ih _ fun cs hcs ↦ hsteps cs (List.mem_cons_of_mem _ hcs),
      spell_step hletters o fun cs hcs ↦ hsteps cs (hcs ▸ List.mem_cons_self)]
    rfl

omit hletters in
theorem spell_start (t : Text) :
    (start t).spell letters supply = MaskedPhrase.start letters supply t := by
  simp [spell, start, MaskedPhrase.start, spellHidden]

end Spell

/-! ## What every step keeps

The places of fragments are counted through all steps, and new fragments are appended. So when a
match is hidden, whatever the phrase holds at that time has a lower place than the fragment that is
made of it. This is the whole reason why no fragment holds itself, directly or through others, and
it does not depend on which matches are hidden or how often a step is taken. -/

/-- A symbol in sight is no sentinel, and a hidden fragment stands in a place before `n`. -/
def Within (n : Nat) : Symbol Nat → Prop
  | .plain c => Placeholder.isSentinel c = false
  | .hidden i => i < n

instance (n : Nat) : (a : Symbol Nat) → Decidable (Within n a)
  | .plain c => inferInstanceAs (Decidable (Placeholder.isSentinel c = false))
  | .hidden i => inferInstanceAs (Decidable (i < n))

/-- **The invariant of masking.** No sentinel is in sight, and fragments hold earlier ones only. -/
structure WellFormed (o : Outline) : Prop where
  /-- The phrase holds the fragments of the outline only. -/
  symbols : ∀ a ∈ o.symbols, Within o.hidden.length a
  /-- A fragment is not empty and holds only fragments that were hidden before it. -/
  replacement : ∀ i h, o.hidden[i]? = some h →
    h.replacement ≠ [] ∧ ∀ a ∈ h.replacement, Within i a

theorem Within.mono {m n : Nat} (hmn : m ≤ n) {a : Symbol Nat} (h : Within m a) : Within n a := by
  cases a with
  | plain c => exact h
  | hidden i => exact Nat.lt_of_lt_of_le h hmn

theorem clean_of_within {n : Nat} {s : Veiled Nat} (h : ∀ a ∈ s, Within n a) : s.Clean :=
  fun c hc ↦ h (.plain c) hc

/-- A handling that brings nothing unknown into the phrase. -/
def Handling.Keeps (n : Nat) : Handling → Prop
  | leave => True
  | hide before _ replacement after =>
    replacement ≠ [] ∧ (∀ a ∈ replacement, Within n a) ∧ ∀ a ∈ before ++ after, Within n a

theorem keeps_handleQuotedRun {n : Nat} {u : Veiled Nat} (hne : u ≠ [])
    (hu : ∀ a ∈ u, Within n a) : (handleQuotedRun u).Keeps n :=
  ⟨hne, hu, by simp⟩

theorem keeps_handleGroup {n : Nat} (quoteBare : Bool) {u : Veiled Nat}
    (hu : ∀ a ∈ u, Within n a) : (handleGroup quoteBare u).Keeps n := by
  have hinner : ∀ a ∈ Cql.inner u, Within n a := fun a ha ↦
    hu a (Cql.mem_of_mem_inner ha)
  have hsign : ∀ c, c = '"' ∨ c = '(' ∨ c = ')' → Placeholder.isSentinel c = false := by
    rintro c (rfl | rfl | rfl) <;> decide
  rw [handleGroup]
  split
  · refine ⟨by simp, fun a ha ↦ ?_, by simp⟩
    simp only [List.cons_append, List.mem_cons, List.mem_append, List.not_mem_nil, or_false] at ha
    rcases ha with rfl | ha | rfl
    · exact hsign _ (Or.inl rfl)
    · exact hu a ha
    · exact hsign _ (Or.inl rfl)
  · split
    · trivial
    · next hempty =>
      refine ⟨by simpa using hempty, hinner, fun a ha ↦ ?_⟩
      rcases (by simpa using ha : a = .plain '(' ∨ a = .plain ')') with rfl | rfl
      · exact hsign _ (Or.inr (Or.inl rfl))
      · exact hsign _ (Or.inr (Or.inr rfl))

theorem within_hideCells {handle : Veiled Nat → Handling} {n i : Nat} (hni : n ≤ i)
    {cells : List (Cell Nat)} (hcells : ∀ cell ∈ cells, ∀ a ∈ cell.symbols, Within n a)
    (hhandle : ∀ u, .hit u ∈ cells → (∀ a ∈ u, Within n a) → (handle u).Keeps n) :
    (∀ a ∈ (hideCells handle i cells).1, Within (i + (hideCells handle i cells).2.length) a) ∧
      ∀ h ∈ (hideCells handle i cells).2, h.replacement ≠ [] ∧ ∀ a ∈ h.replacement, Within n a := by
  induction cells generalizing i with
  | nil => simp [hideCells]
  | cons cell cells ih =>
    have hrest := fun {j : Nat} (hj : n ≤ j) ↦
      ih hj (fun d hd ↦ hcells d (List.mem_cons_of_mem _ hd))
        fun u hu ↦ hhandle u (List.mem_cons_of_mem _ hu)
    have hcell := hcells cell List.mem_cons_self
    cases cell with
    | plain a =>
      obtain ⟨hsymbols, hhidden⟩ := hrest hni
      refine ⟨fun b hb ↦ ?_, hhidden⟩
      rcases List.mem_cons.mp hb with rfl | hb
      · exact (hcell b List.mem_cons_self).mono (by omega)
      · exact hsymbols b hb
    | hit u =>
      have hkeeps := hhandle u List.mem_cons_self hcell
      rw [hideCells]
      cases hu : handle u with
      | leave =>
        obtain ⟨hsymbols, hhidden⟩ := hrest hni
        refine ⟨fun b hb ↦ ?_, hhidden⟩
        rcases List.mem_append.mp hb with hb | hb
        · exact (hcell b hb).mono (by omega)
        · exact hsymbols b hb
      | hide before content replacement after =>
        rw [hu] at hkeeps
        obtain ⟨hne, hreplacement, haround⟩ := hkeeps
        -- The new fragment is in place `i`, which its own replacement does not name.
        obtain ⟨hsymbols, hhidden⟩ := hrest (j := i + 1) (by omega)
        refine ⟨fun b hb ↦ ?_, fun h hh ↦ ?_⟩
        · simp only [List.append_assoc, List.cons_append, List.mem_append, List.mem_cons] at hb
          rw [List.length_cons]
          rcases hb with hb | rfl | hb | hb
          · exact (haround b (List.mem_append_left _ hb)).mono (by omega)
          · exact Nat.lt_add_of_pos_right (Nat.succ_pos _)
          · exact (haround b (List.mem_append_right _ hb)).mono (by omega)
          · exact (hsymbols b hb).mono (by omega)
        · rcases List.mem_cons.mp hh with rfl | hh
          · exact ⟨hne, hreplacement⟩
          · exact hhidden h hh

theorem wellFormed_hideMatches {o : Outline} (ho : o.WellFormed) {r : Recognizer}
    {handle : Veiled Nat → Handling}
    (hhandle : ∀ u, u ≠ [] → (∀ a ∈ u, Within o.hidden.length a) →
      (handle u).Keeps o.hidden.length) : (o.hideMatches r handle).WellFormed := by
  have hcells : ∀ cell ∈ r.cells o.symbols, ∀ a ∈ cell.symbols, Within o.hidden.length a :=
    fun cell hcell a ha ↦ ho.symbols a (by
      rw [← r.flatMap_symbols_cells o.symbols]
      exact List.mem_flatMap.mpr ⟨cell, hcell, ha⟩)
  obtain ⟨hsymbols, hhidden⟩ := within_hideCells (Nat.le_refl _) hcells
    fun u hu ↦ hhandle u (r.ne_nil_of_hit_mem_cells hu)
  refine ⟨fun a ha ↦ ?_, fun i h hi ↦ ?_⟩
  · rw [hideMatches, List.length_append]
    exact hsymbols a ha
  · rw [hideMatches] at hi
    by_cases hlt : i < o.hidden.length
    · rw [List.getElem?_append_left hlt] at hi
      exact ho.replacement i h hi
    · rw [List.getElem?_append_right (Nat.le_of_not_lt hlt)] at hi
      obtain ⟨hne, hwithin⟩ := hhidden h (List.mem_of_getElem? hi)
      exact ⟨hne, fun a ha ↦ (hwithin a ha).mono (Nat.le_of_not_lt hlt)⟩

theorem within_isolate {n : Nat} {c : Char} (hc : Placeholder.isSentinel c = false)
    {s : Veiled Nat} (hs : ∀ a ∈ s, Within n a) : ∀ a ∈ isolate c s, Within n a := by
  intro a ha
  obtain ⟨b, hb, hab⟩ := List.mem_flatMap.mp ha
  cases b with
  | hidden i => exact List.mem_singleton.mp hab ▸ hs _ hb
  | plain d =>
    obtain ⟨e, he, rfl⟩ := List.mem_map.mp hab
    have hspace : Placeholder.isSentinel ' ' = false := by decide
    have hquote : Placeholder.isSentinel '"' = false := by decide
    have hd := hs _ hb
    split at he
    · simp only [List.mem_cons, List.not_mem_nil, or_false] at he
      rcases he with rfl | rfl | rfl | rfl | rfl <;> assumption
    · rw [List.mem_singleton.mp he]
      exact hd

/-- **Every step keeps an outline well formed.** -/
theorem wellFormed_step {o : Outline} (ho : o.WellFormed) {s : MaskedPhrase.Step}
    (hs : ∀ cs, s = .reserved cs → ∀ c ∈ cs, Settings.reservable c = true) :
    (o.step s).WellFormed := by
  cases s with
  | quotedRuns => exact wellFormed_hideMatches ho fun u ↦ keeps_handleQuotedRun
  | groups quoteBare => exact wellFormed_hideMatches ho fun u _ ↦ keeps_handleGroup quoteBare
  | reserved cs =>
    have hcs : ∀ c ∈ cs, Placeholder.isSentinel c = false := by
      intro c hc
      have hc := hs cs rfl c hc
      simp only [Settings.reservable, Bool.not_eq_true', Bool.or_eq_false_iff] at hc
      exact hc.2
    refine ⟨?_, ho.replacement⟩
    have hfold : ∀ s : Veiled Nat, (∀ a ∈ s, Within o.hidden.length a) →
        ∀ a ∈ cs.foldl (fun s c ↦ isolate c s) s, Within o.hidden.length a := by
      clear hs
      induction cs with
      | nil => exact fun _ h ↦ h
      | cons c cs ih =>
        intro s h
        exact ih (fun d hd ↦ hcs d (List.mem_cons_of_mem _ hd)) _
          (within_isolate (hcs c List.mem_cons_self) h)
    exact hfold _ ho.symbols

theorem wellFormed_start {t : Text} (ht : Placeholder.hasSentinel t = false) :
    (start t).WellFormed := by
  refine ⟨fun a ha ↦ ?_, by simp [start]⟩
  obtain ⟨c, hc, rfl⟩ := List.mem_map.mp ha
  exact Placeholder.hasSentinel_eq_false_iff.mp ht c hc

theorem wellFormed_run {o : Outline} (ho : o.WellFormed) {steps : List MaskedPhrase.Step}
    (hsteps : ∀ cs, .reserved cs ∈ steps → ∀ c ∈ cs, Settings.reservable c = true) :
    (o.run steps).WellFormed := by
  induction steps generalizing o with
  | nil => exact ho
  | cons s steps ih =>
    exact ih (wellFormed_step ho fun cs hcs ↦ hsteps cs (hcs ▸ List.mem_cons_self))
      fun cs hcs ↦ hsteps cs (List.mem_cons_of_mem _ hcs)

end Outline

end PhraseRepair
