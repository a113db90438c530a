import PhraseRepair.Soap.Value

/-!
# Values and the names they are written with

Writing a value is two things at once: its text is put together, and its names are checked on the
way. Here they are taken apart. `Value.write` puts the text together whatever the names are,
`Value.keys` lists the names in the order in which they are reached, and `render_eq` says that
rendering is the former if the latter can all be written, and otherwise names the first that cannot.

A list checks the name that it is written under once for itself and once for each of its items.
That is the same name every time, so it is listed once only.
-/

namespace PhraseRepair.Soap

namespace Value

/-- **Induction on values.** What holds of a list if it holds of its items, and of named values if
it holds of each of them, holds of every value. -/
@[elab_as_elim]
theorem induction {motive : Value → Prop} (text : ∀ content, motive (.text content))
    (list : ∀ items : List Value, (∀ v ∈ items, motive v) → motive (.list items))
    (fields : ∀ entries : List (Text × Value), (∀ e ∈ entries, motive e.2) →
      motive (.fields entries)) (v : Value) : motive v :=
  @Value.rec motive (fun items ↦ ∀ v ∈ items, motive v) (fun entries ↦ ∀ e ∈ entries, motive e.2)
    (fun e ↦ motive e.2) text list fields (by simp) (by simp +contextual) (by simp)
    (by simp +contextual) (fun _ _ h ↦ h) v

/-! ## Names -/

mutual

/-- The names in a value, from the outside in and from left to right. -/
def keys : Value → List Text
  | .text _ => []
  | .list items => keysOfItems items
  | .fields entries => keysOfFields entries

/-- The names in the values of a list. -/
def keysOfItems : List Value → List Text
  | [] => []
  | v :: items => keys v ++ keysOfItems items

/-- The names of named values, each before the names in its value. -/
def keysOfFields : List (Text × Value) → List Text
  | [] => []
  | (name, v) :: entries => name :: keys v ++ keysOfFields entries

end

/-! ## Text

What is written is defined for all values, whether or not their names can be written. The induction
comes with it for the three functions at once, since a property of a value is usually proved along
with one of its items or fields. -/

mutual

/-- The value written under a name, whatever the names in it are. -/
def write (name : Text) : Value → Text
  | .text content =>
    if content.isEmpty then emptyElement name else element name (Xml.escape content)
  | .list items => writeItems name items
  | .fields [] => emptyElement name
  | .fields (entry :: entries) => element name (writeFields (entry :: entries))

/-- The values written one after the other, each under the same name. -/
def writeItems (name : Text) : List Value → Text
  | [] => []
  | v :: items => write name v ++ writeItems name items

/-- The values written one after the other, each under its own name. -/
def writeFields : List (Text × Value) → Text
  | [] => []
  | (name, v) :: entries => write name v ++ writeFields entries

end

/-- **Induction along what is written.** Where all names can be written, a property of values under
a name may be proved along with one of the items of a list and one of named values, as they are
written one after the other. -/
theorem write_induction (one : Text → Value → Prop) (items : Text → List Value → Prop)
    (fields : List (Text × Value) → Prop)
    (text : ∀ name content, Xml.isName name = true → one name (.text content))
    (list : ∀ name vs, items name vs → one name (.list vs))
    (record : ∀ name entries, Xml.isName name = true → fields entries → one name (.fields entries))
    (noItem : ∀ name, items name [])
    (item : ∀ name v vs, one name v → items name vs → items name (v :: vs))
    (noField : fields [])
    (field : ∀ name v entries, one name v → fields entries → fields ((name, v) :: entries))
    {name : Text} {v : Value} (h : ∀ key ∈ name :: v.keys, Xml.isName key = true) :
    one name v := by
  induction v using induction generalizing name with
  | text content => exact text name content (List.forall_mem_cons.mp h).1
  | list vs ih =>
    obtain ⟨hname, hkeys⟩ := List.forall_mem_cons.mp h
    refine list name vs ?_
    rw [keys] at hkeys
    -- The items of a list go by a second induction, under the same name.
    clear h
    induction vs with
    | nil => exact noItem name
    | cons v vs ihitems =>
      obtain ⟨hv, hvs⟩ := List.forall_mem_cons.mp ih
      rw [keysOfItems, List.forall_mem_append] at hkeys
      exact item name v vs (hv (List.forall_mem_cons.mpr ⟨hname, hkeys.1⟩)) (ihitems hvs hkeys.2)
  | fields entries ih =>
    obtain ⟨hname, hkeys⟩ := List.forall_mem_cons.mp h
    refine record name entries hname ?_
    rw [keys] at hkeys
    clear h hname
    induction entries with
    | nil => exact noField
    | cons e entries ihfields =>
      obtain ⟨he, hentries⟩ := List.forall_mem_cons.mp ih
      rw [keysOfFields, List.forall_mem_append] at hkeys
      exact field e.1 e.2 entries (he hkeys.1) (ihfields hentries hkeys.2)

/-! ## Rendering

The checks that rendering makes on the way are collected into one (`checked_append`). So the
induction has an equation to go by instead of two cases, success and failure, at each step. -/

/-- A text, provided that all of some names can be written, or else the first one that cannot. -/
def checked (names : List Text) (t : Text) : Except Error Text :=
  match names.find? (! Xml.isName ·) with
  | some name => .error (.badElementName name)
  | none => .ok t

theorem checked_cons_of_isName {name : Text} (h : Xml.isName name = true) (names : List Text)
    (t : Text) : checked (name :: names) t = checked names t := by
  rw [checked, List.find?_cons_of_neg (by simp [h]), ← checked]

theorem checked_cons_of_isName_eq_false {name : Text} (h : Xml.isName name = false)
    (names : List Text) (t : Text) :
    checked (name :: names) t = .error (.badElementName name) := by
  rw [checked, List.find?_cons_of_pos (by simp [h])]

theorem forall_isName_or_exists (names : List Text) :
    (∀ name ∈ names, Xml.isName name = true) ∨ ∃ name ∈ names, Xml.isName name = false := by
  cases h : names.all Xml.isName with
  | true => exact Or.inl (List.all_eq_true.mp h)
  | false => exact Or.inr (by simpa using h)

theorem checked_of_forall_isName {names : List Text}
    (h : ∀ name ∈ names, Xml.isName name = true) (t : Text) : checked names t = .ok t := by
  have hnone : names.find? (! Xml.isName ·) = none := by
    rw [List.find?_eq_none]
    exact fun name hname ↦ by simp [h name hname]
  rw [checked, hnone]

theorem exists_checked_eq_error {names : List Text}
    (h : ∃ name ∈ names, Xml.isName name = false) (t : Text) :
    ∃ name ∈ names, Xml.isName name = false ∧
      checked names t = .error (.badElementName name) := by
  obtain ⟨name, hname⟩ := Option.isSome_iff_exists.mp
    (List.find?_isSome (p := (! Xml.isName ·)).mpr (by simpa using h))
  refine ⟨name, List.mem_of_find?_eq_some hname, by simpa using List.find?_some hname, ?_⟩
  rw [checked, hname]

theorem map_checked (f : Text → Text) (names : List Text) (t : Text) :
    (checked names t).map f = checked names (f t) := by
  rw [checked, checked]
  split <;> rfl

/-- Two checks one after the other are one check of all names. -/
theorem checked_append (names names' : List Text) (s t : Text) :
    checked (names ++ names') (s ++ t) = (do
      let first ← checked names s
      let rest ← checked names' t
      .ok (first ++ rest)) := by
  rw [checked, List.find?_append, checked, checked]
  cases names.find? (! Xml.isName ·) with
  | some name => rfl
  | none => cases names'.find? (! Xml.isName ·) <;> rfl

private theorem renderItems_eq {name : Text} (hname : Xml.isName name = true) {items : List Value}
    (h : ∀ v ∈ items, render name v = checked (name :: v.keys) (v.write name)) :
    renderItems name items = checked (keysOfItems items) (writeItems name items) := by
  induction items with
  | nil => rfl
  | cons v items ih =>
    rw [renderItems, h v List.mem_cons_self, ih fun w hw ↦ h w (List.mem_cons_of_mem v hw),
      checked_cons_of_isName hname, keysOfItems, writeItems, checked_append]

private theorem renderFields_eq {entries : List (Text × Value)}
    (h : ∀ e ∈ entries, ∀ name, render name e.2 = checked (name :: e.2.keys) (e.2.write name)) :
    renderFields entries = checked (keysOfFields entries) (writeFields entries) := by
  induction entries with
  | nil => rfl
  | cons e entries ih =>
    obtain ⟨name, v⟩ := e
    rw [renderFields, h _ List.mem_cons_self, ih fun e he ↦ h e (List.mem_cons_of_mem _ he),
      keysOfFields, writeFields, checked_append]

/-- **Rendering.** A value is written under a name if this name and all names in the value can be
written. Otherwise the first of them that cannot is reported. -/
theorem render_eq (name : Text) (v : Value) :
    render name v = checked (name :: v.keys) (v.write name) := by
  induction v using induction generalizing name with
  | text content =>
    rw [render, keys, write]
    by_cases hname : Xml.isName name = true
    · rw [if_pos hname, checked_cons_of_isName hname]
      rfl
    · rw [if_neg hname, checked_cons_of_isName_eq_false (Bool.eq_false_iff.mpr hname)]
  | list items ih =>
    rw [render, keys, write]
    by_cases hname : Xml.isName name = true
    · rw [if_pos hname, checked_cons_of_isName hname, renderItems_eq hname fun v hv ↦ ih v hv name]
    · rw [if_neg hname, checked_cons_of_isName_eq_false (Bool.eq_false_iff.mpr hname)]
  | fields entries ih =>
    rw [render.eq_def, keys]
    by_cases hname : Xml.isName name = true
    · rw [if_pos hname, checked_cons_of_isName hname]
      -- Without entries there is nothing to check and nothing between the tags.
      cases entries with
      | nil => rfl
      | cons entry entries =>
        rw [write, ← map_checked, ← renderFields_eq fun e he name ↦ ih e he name]
        rfl
    · rw [if_neg hname, checked_cons_of_isName_eq_false (Bool.eq_false_iff.mpr hname)]

theorem isName_of_render_eq_ok {name t : Text} {v : Value} (h : render name v = .ok t) :
    ∀ key ∈ name :: v.keys, Xml.isName key = true := by
  rw [render_eq, checked] at h
  split at h
  · exact absurd h (by simp)
  · next hnone => simpa using List.find?_eq_none.mp hnone

end Value

end PhraseRepair.Soap
