import PhraseRepair.Proofs.Rendering

/-!
# Which name is refused

Rendering a value reports a single name that cannot be written. Which one this is can be said
without going through the value: it is the first in document order (`render_refuses`).

A *place* in a value tells the way down to it, as the numbers of the children to enter one after the
other. Places are ordered as in a dictionary. So a place comes before all places below it, and what
is below a child comes before the next child, which is the order of the opening tags in a document.
The items of a list are children that have the name of the list, and there they are checked again.
-/

namespace PhraseRepair.Soap.Value

/-! ## Places

The three kinds of values are treated alike by looking at the children of a value, with the names
that they are written under. So a place is a list of numbers, and everything here goes by induction
along the children. -/

/-- The children of a value that is written under a name, with the names that they are written
under. -/
def children (name : Text) : Value → List (Text × Value)
  | text _ => []
  | list items => items.map (name, ·)
  | fields entries => entries

/-- The name that is written at a place of a value. -/
def nameAt? (name : Text) (v : Value) : List Nat → Option Text
  | [] => some name
  | i :: place => (v.children name)[i]?.bind fun c ↦ nameAt? c.1 c.2 place

theorem nameAt?_cons {name : Text} {v : Value} {i : Nat} {c : Text × Value}
    (hc : (v.children name)[i]? = some c) (place : List Nat) :
    v.nameAt? name (i :: place) = c.2.nameAt? c.1 place := by
  rw [nameAt?, hc]
  rfl

/-- The second name in the only item of a list. -/
example : nameAt? ['a'] (.list [.fields [(['b'], .list []), (['c'], .text [])]]) [0, 1]
    = some ['c'] := rfl

theorem exists_of_nameAt?_cons {name key : Text} {v : Value} {i : Nat} {place : List Nat}
    (h : v.nameAt? name (i :: place) = some key) :
    ∃ c, (v.children name)[i]? = some c ∧ c.2.nameAt? c.1 place = some key :=
  Option.bind_eq_some_iff.mp h

/-- **Induction along the children of a value.** -/
theorem children_induction {motive : Text → Value → Prop}
    (step : ∀ name v, (∀ c ∈ children name v, motive c.1 c.2) → motive name v) (name : Text)
    (v : Value) : motive name v := by
  induction v using induction generalizing name with
  | text content => exact step name _ (List.forall_mem_nil _)
  | list items ih =>
    refine step name _ fun c hc ↦ ?_
    obtain ⟨v, hv, rfl⟩ := List.mem_map.mp hc
    exact ih v hv name
  | fields entries ih => exact step name _ fun c hc ↦ ih c hc c.1

/-! ## The names at the places

Places and `keys` list the same names, but not equally often: a list of three items has the name of
the list at four places. For the first name that is refused this makes no difference. -/

private theorem mem_keysOfItems {key : Text} {items : List Value} :
    key ∈ keysOfItems items ↔ ∃ v ∈ items, key ∈ v.keys := by
  induction items with
  | nil => simp [keysOfItems]
  | cons v items ih => simp [keysOfItems, ih]

private theorem mem_keysOfFields {key : Text} {entries : List (Text × Value)} :
    key ∈ keysOfFields entries ↔ ∃ c ∈ entries, key ∈ c.1 :: c.2.keys := by
  induction entries with
  | nil => simp [keysOfFields]
  | cons c entries ih =>
    rw [keysOfFields, List.mem_append, ih]
    simp

theorem mem_cons_keys_iff {name key : Text} {v : Value} :
    key ∈ name :: v.keys ↔ key = name ∨ ∃ c ∈ v.children name, key ∈ c.1 :: c.2.keys := by
  rw [List.mem_cons]
  cases v with
  | text content => simp [keys, children]
  | list items =>
    rw [keys, mem_keysOfItems, children]
    refine ⟨?_, ?_⟩
    · rintro (rfl | ⟨v, hv, hkey⟩)
      · exact Or.inl rfl
      · exact Or.inr ⟨_, List.mem_map_of_mem hv, List.mem_cons_of_mem _ hkey⟩
    · rintro (rfl | ⟨c, hc, hkey⟩)
      · exact Or.inl rfl
      · obtain ⟨v, hv, rfl⟩ := List.mem_map.mp hc
        exact (List.mem_cons.mp hkey).imp_right fun hkey ↦ ⟨v, hv, hkey⟩
  | fields entries => rw [keys, mem_keysOfFields, children]

/-- The names at the places of a value are the one that it is written under and those in it. -/
theorem exists_nameAt?_eq_some_iff {name key : Text} {v : Value} :
    (∃ place, v.nameAt? name place = some key) ↔ key ∈ name :: v.keys := by
  induction name, v using children_induction with
  | step name v ih =>
    rw [mem_cons_keys_iff]
    constructor
    · rintro ⟨place, hkey⟩
      cases place with
      | nil => exact Or.inl (Option.some.inj hkey).symm
      | cons i place =>
        obtain ⟨c, hc, hkey⟩ := exists_of_nameAt?_cons hkey
        have hmem := List.mem_of_getElem? hc
        exact Or.inr ⟨c, hmem, (ih c hmem).mp ⟨place, hkey⟩⟩
    · rintro (rfl | ⟨c, hmem, hkey⟩)
      · exact ⟨[], rfl⟩
      · obtain ⟨place, hkey⟩ := (ih c hmem).mpr hkey
        obtain ⟨i, hc⟩ := List.mem_iff_getElem?.mp hmem
        exact ⟨i :: place, (nameAt?_cons hc place).trans hkey⟩

/-! ## Rendering the children -/

theorem exists_render_eq_ok_iff {name : Text} {v : Value} :
    (∃ t, render name v = .ok t) ↔ ∀ key ∈ name :: v.keys, Xml.isName key = true := by
  constructor
  · rintro ⟨t, h⟩
    exact isName_of_render_eq_ok h
  · intro h
    exact ⟨v.write name, (render_eq name v).trans (checked_of_forall_isName h _)⟩

private theorem renderItems_eq_renderFields (name : Text) (items : List Value) :
    renderItems name items = renderFields (items.map (name, ·)) := by
  induction items with
  | nil => rfl
  | cons v items ih => rw [renderItems, ih, List.map_cons, renderFields]

private theorem exists_of_renderFields_eq_error {entries : List (Text × Value)} {e : Error}
    (h : renderFields entries = .error e) :
    ∃ before c after, entries = before ++ c :: after ∧ render c.1 c.2 = .error e ∧
      ∀ d ∈ before, ∃ t, render d.1 d.2 = .ok t := by
  induction entries with
  | nil => exact absurd h (by simp [renderFields])
  | cons c entries ih =>
    rw [renderFields] at h
    cases hfirst : render c.1 c.2 with
    | error e' =>
      rw [hfirst] at h
      exact ⟨[], c, entries, rfl, hfirst.trans h, List.forall_mem_nil _⟩
    | ok t =>
      rw [hfirst] at h
      -- The first error of the rest is the first of all, as this one is written.
      cases hrest : renderFields entries with
      | ok u => exact absurd h (by simp [hrest, bind, Except.bind])
      | error e' =>
        obtain rfl : e' = e := by simpa [hrest, bind, Except.bind] using h
        obtain ⟨before, d, after, rfl, hd, hbefore⟩ := ih hrest
        exact ⟨c :: before, d, after, rfl, hd, List.forall_mem_cons.mpr ⟨⟨t, hfirst⟩, hbefore⟩⟩

private theorem renderFields_children_eq_error {name : Text} {v : Value} {e : Error}
    (hname : Xml.isName name = true) (h : render name v = .error e) :
    renderFields (v.children name) = .error e := by
  cases v with
  | text content =>
    rw [render, if_pos hname] at h
    exact absurd h (by simp)
  | list items =>
    rw [render, if_pos hname, renderItems_eq_renderFields] at h
    exact h
  | fields entries =>
    rw [render.eq_def, if_pos hname] at h
    cases entries with
    | nil => exact absurd h (by simp)
    | cons c entries =>
      rw [children]
      cases hall : renderFields (c :: entries) with
      | ok t => exact absurd h (by simp [hall, bind, Except.bind])
      | error e' => simpa [hall, bind, Except.bind] using h

/-! ## The name that is refused

At most one name is refused first, since places are totally ordered. Hence it is enough to show that
the reported name stands at such a place. The other direction follows: an error is reported, and it
can be about no other name. -/

/-- A name that cannot be written stands at the place, and all names before it can be written. -/
def FirstRefused (name : Text) (v : Value) (place : List Nat) (key : Text) : Prop :=
  v.nameAt? name place = some key ∧ Xml.isName key = false ∧
    ∀ earlier < place, ∀ other, v.nameAt? name earlier = some other → Xml.isName other = true

theorem FirstRefused.unique {name : Text} {v : Value} {place place' : List Nat} {key key' : Text}
    (h : v.FirstRefused name place key) (h' : v.FirstRefused name place' key') : key = key' := by
  rcases Std.lt_trichotomy place place' with hlt | rfl | hlt
  · exact absurd (h'.2.2 place hlt key h.1) (by simp [h.2.1])
  · exact Option.some.inj (h.1.symm.trans h'.1)
  · exact absurd (h.2.2 place' hlt key' h'.1) (by simp [h'.2.1])

theorem FirstRefused.of_child {name key : Text} {v : Value} {before after : List (Text × Value)}
    {c : Text × Value} {place : List Nat} (hname : Xml.isName name = true)
    (hchildren : v.children name = before ++ c :: after)
    (hbefore : ∀ d ∈ before, ∃ t, render d.1 d.2 = .ok t) (h : c.2.FirstRefused c.1 place key) :
    v.FirstRefused name (before.length :: place) key := by
  have hc : (v.children name)[before.length]? = some c := by simp [hchildren]
  refine ⟨(nameAt?_cons hc place).trans h.1, h.2.1, fun earlier hearlier other hother ↦ ?_⟩
  cases earlier with
  | nil => exact Option.some.inj hother ▸ hname
  | cons i earlier =>
    rcases List.cons_lt_cons_iff.mp hearlier with hlt | ⟨rfl, hlt⟩
    · obtain ⟨d, hd, hother⟩ := exists_of_nameAt?_cons hother
      rw [hchildren, List.getElem?_append_left hlt] at hd
      exact exists_render_eq_ok_iff.mp (hbefore d (List.mem_of_getElem? hd)) other
        (exists_nameAt?_eq_some_iff.mp ⟨earlier, hother⟩)
    · exact h.2.2 earlier hlt other ((nameAt?_cons hc earlier).symm.trans hother)

theorem exists_firstRefused_of_render_eq_error {name : Text} {v : Value} {e : Error}
    (h : render name v = .error e) :
    ∃ place key, e = .badElementName key ∧ v.FirstRefused name place key := by
  induction name, v using children_induction with
  | step name v ih =>
    cases hname : Xml.isName name with
    | false =>
      rw [render_eq, checked_cons_of_isName_eq_false hname] at h
      exact ⟨[], name, (Except.error.inj h).symm, rfl, hname, fun earlier hearlier ↦
        absurd hearlier (List.not_lt_nil earlier)⟩
    | true =>
      obtain ⟨before, c, after, hchildren, hc, hbefore⟩ :=
        exists_of_renderFields_eq_error (renderFields_children_eq_error hname h)
      obtain ⟨place, key, he, hfirst⟩ := ih c (by simp [hchildren]) hc
      exact ⟨_, key, he, hfirst.of_child hname hchildren hbefore⟩

/-- **Refused names.** A value is rendered exactly if the name that it is written under and all names
in it can be written. Otherwise the name that is reported is the first one in document order that
cannot. -/
theorem render_refuses (name : Text) (v : Value) :
    ((∃ t, render name v = .ok t) ↔ ∀ key ∈ name :: v.keys, Xml.isName key = true) ∧
      ∀ e, render name v = .error e ↔
        ∃ place key, e = .badElementName key ∧ v.FirstRefused name place key := by
  refine ⟨exists_render_eq_ok_iff, fun e ↦ ⟨exists_firstRefused_of_render_eq_error, ?_⟩⟩
  rintro ⟨place, key, rfl, hfirst⟩
  cases h : render name v with
  | ok t =>
    have hkey := isName_of_render_eq_ok h key (exists_nameAt?_eq_some_iff.mp ⟨place, hfirst.1⟩)
    exact absurd hkey (by simp [hfirst.2.1])
  | error e =>
    obtain ⟨place', key', rfl, hfirst'⟩ := exists_firstRefused_of_render_eq_error h
    rw [hfirst.unique hfirst']

end PhraseRepair.Soap.Value
