import PhraseRepair.Cql.Fragment
import PhraseRepair.Cql.Operator
import PhraseRepair.Proofs.Keys
import PhraseRepair.Proofs.Scanning

/-!
# Scanning a veiled phrase

A recogniser is tried on the shape of a veiled phrase, and the phrase is cut along the items of the
shape. The *cells* are the symbols that belong to no match and the runs of symbols that a match
covers.

For the recognisers of quoted runs, groups and operators, no match depends on what is hidden or
starts inside it. So the scan of a phrase filled with veils is the filled list of its cells
(`scan_fill`), whatever the veils are.
-/

namespace PhraseRepair

/-- One step of a scan of a veiled phrase: a symbol that belongs to no match, or what a match
covers. -/
inductive Cell (α : Type)
  | plain (a : Symbol α)
  | hit (s : Veiled α)

namespace Cell

variable {α : Type}

/-- The symbols that a cell covers. -/
def symbols : Cell α → Veiled α
  | plain a => [a]
  | hit s => s

/-- Whether a cell is a match. -/
def isHit : Cell α → Bool
  | plain _ => false
  | hit _ => true

/-- The cell with another name for each hidden fragment. -/
def rename {β : Type} (f : α → β) : Cell α → Cell β
  | plain a => plain (a.map f)
  | hit s => hit (Veiled.rename f s)

/-- The cell of an item of a text all of which is in sight. -/
def ofItem : Item → Cell α
  | .plain c => plain (.plain c)
  | .hit m => hit (Veiled.ofText m.text)

/-- The items of a filled cell, where `value` is the value of the match covering some symbols. -/
def items (f : α → Text) (value : Veiled α → Text) : Cell α → List Item
  | plain a => (a.write f).map .plain
  | hit s => [.hit ⟨Veiled.fill f s, value s⟩]

end Cell

namespace Recognizer

variable {α : Type} (r : Recognizer)

/-- A veiled phrase cut along items of its shape. -/
def cut : List Item → Veiled α → List (Cell α)
  | [], _ => []
  | .plain _ :: _, [] => []
  | .plain _ :: items, a :: s => .plain a :: cut items s
  | .hit m :: items, s => .hit (s.take m.text.length) :: cut items (s.drop m.text.length)

/-- The cells of a veiled phrase from left to right. -/
def cells (s : Veiled α) : List (Cell α) := cut (r.scan (Veiled.shape s)) s

/-! ## Taking cells apart

The equations for `cells` follow the three ways in which a scan can begin, so a proof about the
cells of a phrase does not speak about items. The covered symbols are cut off by their number, which
is the length of the match, since the shape has one character for every symbol. -/

@[simp] theorem cells_nil : r.cells ([] : Veiled α) = [] := rfl

theorem cells_of_read_none {a : Symbol α} {s : Veiled α}
    (h : r.read (Veiled.shape (a :: s)) = none) : r.cells (a :: s) = .plain a :: r.cells s := by
  rw [Veiled.shape_cons] at h
  rw [cells, Veiled.shape_cons, r.scan_of_read_none h]
  rfl

theorem cells_append {u t : Veiled α} {m : Match} (h : r.read (Veiled.shape (u ++ t)) = some m)
    (hu : m.text = Veiled.shape u) : r.cells (u ++ t) = .hit u :: r.cells t := by
  have hlen : m.text.length = u.length := by rw [hu, Veiled.length_shape]
  rw [cells, r.scan_of_read h, cut, hlen, List.take_left, List.drop_left, Veiled.shape_append,
    ← Veiled.length_shape u, List.drop_left]
  rfl

/-- **Induction along the scan of a veiled phrase.** -/
@[elab_as_elim]
theorem cells_induction {motive : Veiled α → Prop} (nil : motive [])
    (plain : ∀ a s, r.read (Veiled.shape (a :: s)) = none → motive s → motive (a :: s))
    (hit : ∀ u t m, r.read (Veiled.shape (u ++ t)) = some m → m.text = Veiled.shape u →
      motive t → motive (u ++ t)) (s : Veiled α) : motive s := by
  induction hn : s.length using Nat.strongRecOn generalizing s with
  | ind n ih =>
    cases s with
    | nil => exact nil
    | cons a s =>
      cases h : r.read (Veiled.shape (a :: s)) with
      | none => exact plain a s h (ih s.length (by rw [← hn]; exact Nat.lt_succ_self _) s rfl)
      | some m =>
        -- The match is a prefix of the shape, so it is the shape of a prefix.
        obtain ⟨rest, hrest⟩ := r.isPrefix h
        obtain ⟨u, t, hut, hu, ht⟩ := List.map_eq_append_iff.mp hrest.symm
        have hpos := List.length_pos_iff.mpr (r.ne_nil h)
        have hlen := congrArg List.length hut
        rw [← hu, List.length_map] at hpos
        rw [List.length_append, hn] at hlen
        rw [hut] at h ⊢
        exact hit u t m h hu.symm (ih t.length (by omega) t rfl)

/-- The cells of a veiled phrase cover it. -/
theorem flatMap_symbols_cells (s : Veiled α) : (r.cells s).flatMap Cell.symbols = s := by
  induction s using r.cells_induction with
  | nil => rfl
  | plain a s h ih => rw [r.cells_of_read_none h, List.flatMap_cons, ih]; rfl
  | hit u t m h hu ih => rw [r.cells_append h hu, List.flatMap_cons, ih]; rfl

theorem exists_read_of_hit_mem_cells {s u : Veiled α} (h : .hit u ∈ r.cells s) :
    ∃ t m, r.read (Veiled.shape (u ++ t)) = some m ∧ m.text = Veiled.shape u := by
  induction s using r.cells_induction with
  | nil => simp at h
  | plain a s hread ih =>
    rw [r.cells_of_read_none hread, List.mem_cons] at h
    exact ih (h.resolve_left (by simp))
  | hit v t m hread hv ih =>
    rw [r.cells_append hread hv, List.mem_cons] at h
    rcases h with h | h
    · rw [Cell.hit.injEq] at h
      exact ⟨t, m, h ▸ hread, h ▸ hv⟩
    · exact ih h

theorem length_cells_le (s : Veiled α) : (r.cells s).length ≤ s.length := by
  induction s using r.cells_induction with
  | nil => exact Nat.le_refl 0
  | plain a s h ih =>
    rw [r.cells_of_read_none h]
    exact Nat.succ_le_succ ih
  | hit u t m h hu ih =>
    have hpos := List.length_pos_iff.mpr (r.ne_nil h)
    rw [hu, Veiled.length_shape] at hpos
    rw [r.cells_append h hu, List.length_cons, List.length_append]
    omega

theorem cells_rename {β : Type} (f : α → β) (s : Veiled α) :
    r.cells (Veiled.rename f s) = (r.cells s).map (Cell.rename f) := by
  induction s using r.cells_induction with
  | nil => rfl
  | plain a s h ih =>
    rw [r.cells_of_read_none h, List.map_cons, ← ih]
    refine r.cells_of_read_none ?_
    rw [← h]
    exact congrArg r.read (Veiled.shape_rename f (a :: s))
  | hit u t m h hu ih =>
    have hread : r.read (Veiled.shape (Veiled.rename f u ++ Veiled.rename f t)) = some m := by
      rw [← h, ← Veiled.shape_rename f (u ++ t)]
      simp only [Veiled.rename, List.map_append]
    rw [r.cells_append h hu, List.map_cons, ← ih, Veiled.rename, List.map_append]
    exact r.cells_append hread (hu.trans (Veiled.shape_rename f u).symm)

theorem cells_ofText (t : Text) :
    r.cells (Veiled.ofText t : Veiled α) = (r.scan t).map Cell.ofItem := by
  induction t using r.scan_induction with
  | nil => rfl
  | plain c t h ih =>
    rw [r.scan_of_read_none h, List.map_cons, ← ih]
    refine r.cells_of_read_none ?_
    rwa [← List.map_cons, ← Veiled.ofText, Veiled.shape_ofText]
  | hit m t h ih =>
    rw [r.scan_match_append h, List.map_cons, ← ih, Veiled.ofText, List.map_append]
    refine r.cells_append (m := m) ?_ (Veiled.shape_ofText m.text).symm
    rwa [← List.map_append, ← Veiled.ofText, Veiled.shape_ofText]

/-- Cutting falls apart where no match is different for what follows. -/
theorem cells_append_of_read {s t : Veiled α} (h : ∀ u, u <:+ s → u ≠ [] →
      r.read (Veiled.shape u ++ Veiled.shape t) = r.read (Veiled.shape u)) :
    r.cells (s ++ t) = r.cells s ++ r.cells t := by
  induction s using r.cells_induction with
  | nil => rfl
  | plain a s hread ih =>
    have ha := h (a :: s) (List.suffix_refl _) (by simp)
    rw [hread, ← Veiled.shape_append, List.cons_append] at ha
    rw [List.cons_append, r.cells_of_read_none ha, r.cells_of_read_none hread,
      ih fun u hu ↦ h u (hu.trans (List.suffix_cons a s)), List.cons_append]
  | hit u s m hread hu ih =>
    have hus := h (u ++ s) (List.suffix_refl _) fun hnil ↦ r.ne_nil hread (by simp_all)
    rw [hread, ← Veiled.shape_append, List.append_assoc] at hus
    rw [List.append_assoc, r.cells_append hus hu, r.cells_append hread hu,
      ih fun v hv ↦ h v (hv.trans (List.suffix_append u s)), List.cons_append]

theorem ne_nil_of_hit_mem_cells {s u : Veiled α} (h : .hit u ∈ r.cells s) : u ≠ [] := by
  obtain ⟨t, m, hread, hu⟩ := r.exists_read_of_hit_mem_cells h
  rintro rfl
  exact r.ne_nil hread hu

/-! ## Filling

A recogniser has to pass over what a hidden fragment is filled with, wherever that stands
(`PassesOver`), so that no match starts out of sight. And it has to read the same whatever fragments
are filled with (`BlindTo`), so that no match that starts in sight depends on it. -/

/-- Nothing starts at a character without a meaning. -/
def SkipsInert : Prop := ∀ c t, Cql.isInert c = true → r.read (c :: t) = none

/-- A scan passes over a text whatever follows it. -/
def PassesOver (x : Text) : Prop := ∀ t, r.scan (x ++ t) = x.map .plain ++ r.scan t

/-- Filling a phrase changes neither where something matches nor what the match covers, and
`value s` is the value of the match covering `s`. -/
def BlindTo (f : α → Text) (value : Veiled α → Text) : Prop :=
  ∀ s : Veiled α, r.read (Veiled.fill f s) = (r.read (Veiled.shape s)).map fun m ↦
    ⟨Veiled.fill f (s.take m.text.length), value (s.take m.text.length)⟩

variable {r}

theorem passesOver_of_read_none {x : Text} (h : ∀ c ∈ x, ∀ t, r.read (c :: t) = none) :
    r.PassesOver x := by
  intro t
  refine r.scan_append_of_read_none fun u hu hne ↦ ?_
  obtain ⟨c, u', rfl⟩ := List.exists_cons_of_ne_nil hne
  exact h c (hu.subset List.mem_cons_self) _

theorem substitute_append {x : Text} (hx : r.PassesOver x) (f : Match → Text) (t : Text) :
    r.substitute f (x ++ t) = x ++ r.substitute f t := by
  rw [substitute, hx t, List.flatMap_append, List.flatMap_map]
  exact congrArg (· ++ _) (List.flatMap_singleton' x)

theorem passesOver_of_isVeil (hskip : r.SkipsInert) {x : Text} (hx : IsVeil x) :
    r.PassesOver x := by
  refine passesOver_of_read_none fun c hc t ↦ hskip c t ?_
  obtain ⟨rest, rfl, hrest⟩ := hx
  rcases List.mem_cons.mp hc with rfl | hc
  · exact Placeholder.isInert_opening
  · exact hrest c hc

/-- **Scanning is blind to what is hidden.** The scan of a filled phrase is its filled cells. -/
theorem scan_fill {f : α → Text} (hf : ∀ a, r.PassesOver (f a))
    {value : Veiled α → Text} (hblind : r.BlindTo f value) (s : Veiled α) :
    r.scan (Veiled.fill f s) = (r.cells s).flatMap (Cell.items f value) := by
  induction s using r.cells_induction with
  | nil => rfl
  | plain a s h ih =>
    rw [r.cells_of_read_none h, List.flatMap_cons, ← ih]
    rcases a with c | a
    · have hread := hblind (.plain c :: s)
      rw [h, Option.map_none, Veiled.fill_plain] at hread
      rw [Veiled.fill_plain, r.scan_of_read_none hread]
      rfl
    · rw [Veiled.fill_hidden, hf a]
      rfl
  | hit u t m h hu ih =>
    have hread := hblind (u ++ t)
    have hlen : m.text.length = u.length := by rw [hu, Veiled.length_shape]
    rw [h, Option.map_some, hlen, List.take_left, Veiled.fill_append] at hread
    rw [r.cells_append h hu, List.flatMap_cons, ← ih, Veiled.fill_append,
      r.scan_match_append (m := ⟨Veiled.fill f u, value u⟩) hread]
    rfl

theorem matchesIn_fill {f : α → Text} (hf : ∀ a, r.PassesOver (f a))
    {value : Veiled α → Text} (hblind : r.BlindTo f value) (s : Veiled α) :
    r.matchesIn (Veiled.fill f s) = (r.cells s).any Cell.isHit := by
  rw [matchesIn, scan_fill hf hblind, List.any_flatMap]
  congr 1
  funext c
  cases c with
  | plain a => simp [Cell.items, Cell.isHit, Item.isHit]
  | hit s => rfl

end Recognizer

end PhraseRepair
