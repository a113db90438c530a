import PhraseRepair.Xml.Escape
import PhraseRepair.Xml.Name
import PhraseRepair.Xml.Reader

/-!
# What a reader makes of a document

A text is content if a reader that comes to it between two tags is between two tags again behind it,
with the same elements open, and has read some nodes in between (`Reads`). Texts without `<` and
elements with content between their tags are such, and so is one behind the other. That is all it
takes to read a document that is put together from them.

Names and escaped texts have none of the characters that end them: this is where the name check and
the escaping come in (`isReadable_of_isName`, `notMem_escape`).
-/

namespace PhraseRepair.Xml

/-! ## Names and escaped texts

What ends a name for a reader is any character that stands behind one in a tag. Names are checked by
what letters and numbers are, and that says nothing of this. The two are compatible because of a few
characters, none of which is accepted in a name. -/

private theorem notMem_escapeChar {c : Char} (hc : c ∈ ['<', '>', '"', '\'']) (d : Char)
    (rest : Text) : c ∉ escapeChar d rest := by
  have hreference : ∀ t ∈ ["&", "&amp;", "&lt;", "&gt;", "&quot;", "&#039;"], c ∉ t.toList := by
    have hall : (['<', '>', '"', '\''].all fun c ↦
        ["&", "&amp;", "&lt;", "&gt;", "&quot;", "&#039;"].all (! ·.toList.contains c)) = true := by
      decide
    simpa using List.all_eq_true.mp hall c hc
  unfold escapeChar
  repeat' split
  · exact hreference "&" (by decide)
  · exact hreference "&amp;" (by decide)
  · exact hreference "&lt;" (by decide)
  · exact hreference "&gt;" (by decide)
  · exact hreference "&quot;" (by decide)
  · exact hreference "&#039;" (by decide)
  · grind

/-- Escaping leaves none of the characters that delimit tags and attribute values. -/
theorem notMem_escape {c : Char} (hc : c ∈ ['<', '>', '"', '\'']) (t : Text) : c ∉ escape t := by
  induction t with
  | nil => exact List.not_mem_nil
  | cons d t ih => exact List.not_mem_append (notMem_escapeChar hc d t) ih

theorem endsName_of_isNamePart {c : Char} (h : isNamePart c = true) : endsName c = false := by
  have hends : ([' ', '\t', '\n', '\x0d'] ++ ['<', '>', '/', '=', '"', '\'', '&', '?', '!']).all
      (! isNamePart ·) = true := by decide +kernel
  refine Bool.eq_false_iff.mpr fun hc ↦ ?_
  rw [endsName, isSpace, Bool.or_eq_true, List.contains_iff_mem, List.contains_iff_mem,
    ← List.mem_append] at hc
  have hnone := List.all_eq_true.mp hends c hc
  rw [h] at hnone
  exact Bool.false_ne_true hnone

theorem isNamePart_of_isNameStart {c : Char} (h : isNameStart c = true) : isNamePart c = true := by
  rcases (Bool.or_eq_true _ _).mp h with h | h
  · simp [isNamePart, h]
  · simp [isNamePart, h]

/-- A name that can be read: it has characters, and none of them ends it. -/
def IsReadable (name : Text) : Prop := name ≠ [] ∧ ∀ c ∈ name, endsName c = false

theorem isReadable_of_isName {name : Text} (h : isName name = true) : IsReadable name := by
  refine ⟨ne_nil_of_isName h, fun c hc ↦ endsName_of_isNamePart ?_⟩
  cases name with
  | nil => exact absurd hc List.not_mem_nil
  | cons d name =>
    obtain ⟨hstart, hparts⟩ := (Bool.and_eq_true _ _).mp h
    rcases List.mem_cons.mp hc with rfl | hc
    · exact isNamePart_of_isNameStart hstart
    · exact List.all_eq_true.mp hparts c hc

theorem IsReadable.append {s t : Text} (hs : IsReadable s) (ht : IsReadable t) :
    IsReadable (s ++ t) :=
  ⟨List.append_ne_nil_of_left_ne_nil hs.1 t,
    fun c hc ↦ (List.mem_append.mp hc).elim (hs.2 c) (ht.2 c)⟩

theorem IsReadable.ne {name : Text} (hname : IsReadable name) {c d : Char} (hc : c ∈ name)
    (hd : endsName d = true := by decide) : c ≠ d := by
  rintro rfl
  exact Bool.false_ne_true ((hname.2 c hc).symm.trans hd)

/-! ## Runs of a reader

While a reader is inside a name or a value, it collects characters. Such a stretch is read by one
lemma (`run_grow`), in which the state is a function of what has been collected. -/

namespace Reader

theorem run_append (r : Reader) (s t : Text) : r.run (s ++ t) = (r.run s).bind (·.run t) :=
  List.foldlM_append

theorem run_cons (r : Reader) (c : Char) (t : Text) : r.run (c :: t) = (r.step c).bind (·.run t) :=
  List.foldlM_cons

/-- If each character of a text is put behind what there is, then so is the text. -/
theorem run_grow (grown : Text → Reader) {t : Text}
    (h : ∀ c ∈ t, ∀ x, (grown x).step c = some (grown (x ++ [c]))) (x : Text) :
    (grown x).run t = some (grown (x ++ t)) := by
  induction t generalizing x with
  | nil => rw [List.append_nil]; rfl
  | cons c t ih =>
    obtain ⟨hc, ht⟩ := List.forall_mem_cons.mp h
    rw [run_cons, hc, Option.bind_some, ih ht, List.append_assoc]
    rfl

/-- A first character that begins something and further ones that go on with it read a text. -/
theorem run_begin (grown : Text → Reader) {r : Reader} {t : Text} (hne : t ≠ [])
    (hbegin : ∀ c ∈ t, r.step c = some (grown [c]))
    (hgrow : ∀ c ∈ t, ∀ x, (grown x).step c = some (grown (x ++ [c]))) :
    r.run t = some (grown t) := by
  obtain ⟨c, t, rfl⟩ := List.exists_cons_of_ne_nil hne
  rw [run_cons, hbegin c List.mem_cons_self, Option.bind_some,
    run_grow grown (List.forall_mem_cons.mp hgrow).2]
  rfl

/-! ## Tags

The lemmas on names leave open what comes next, since the character behind a name is what ends it.
So they compose by appending texts, and no tag has to be split in advance. -/

section Tags

variable (content : List Node) (pending : List OpenElement) {name : Text} (hname : IsReadable name)

include hname

theorem run_startName :
    run ⟨.content, content, pending⟩ ('<' :: name) = some ⟨.startName name, content, pending⟩ := by
  refine run_begin (fun x ↦ ⟨.startName x, content, pending⟩) (r := ⟨.tag, content, pending⟩)
    hname.1 (fun c hc ↦ ?_) fun c hc x ↦ ?_
  · simp [step, goto, hname.2 c hc, hname.ne hc (d := '/'), hname.ne hc (d := '?')]
  · simp [step, goto, hname.2 c hc]

theorem run_endName :
    run ⟨.content, content, pending⟩ ('<' :: '/' :: name)
      = some ⟨.endTag name, content, pending⟩ := by
  refine run_grow (fun x ↦ ⟨.endTag x, content, pending⟩) (fun c hc x ↦ ?_) []
  simp [step, goto, hname.2 c hc, hname.ne hc (d := '>')]

theorem run_label (tag : Tag) :
    run ⟨.startTag tag false, content, pending⟩ (' ' :: name)
      = some ⟨.label tag name, content, pending⟩ := by
  refine run_begin (fun x ↦ ⟨.label tag x, content, pending⟩)
    (r := ⟨.startTag tag true, content, pending⟩) hname.1 (fun c hc ↦ ?_) fun c hc x ↦ ?_
  · have hspace := (Bool.or_eq_false_iff.mp (hname.2 c hc)).1
    simp [step, stepTag, goto, hname.2 c hc, hspace, hname.ne hc (d := '>'), hname.ne hc (d := '/')]
  · simp [step, goto, hname.2 c hc, hname.ne hc (d := '=')]

end Tags

/-- What ends the name of a start tag is read as behind the name. -/
theorem run_startName_cons {c : Char} (hc : endsName c = true) (content : List Node)
    (pending : List OpenElement) (name t : Text) :
    run ⟨.startName name, content, pending⟩ (c :: t)
      = run ⟨.startTag ⟨name, []⟩ false, content, pending⟩ (c :: t) := by
  rw [run_cons, run_cons]
  exact congrArg (Option.bind · _) (if_pos hc)

theorem run_value {value : Text} (hvalue : ∀ c ∈ value, c ≠ '"' ∧ c ≠ '<') (content : List Node)
    (pending : List OpenElement) (tag : Tag) (label : Text) :
    run ⟨.equals tag label, content, pending⟩ ('"' :: value ++ ['"'])
      = some ⟨.startTag ⟨tag.name, tag.attributes ++ [(label, value)]⟩ false, content,
          pending⟩ := by
  have hgrow := run_grow (fun x ↦ ⟨.value tag label '"' x, content, pending⟩) (t := value)
    (fun c hc x ↦ by simp [step, goto, hvalue c hc]) []
  rw [run_append]
  exact congrArg (Option.bind · _) hgrow

end Reader

/-! ## Tags with attributes -/

/-- An attribute as it is written, with a space before it. -/
def assignment (a : Text × Text) : Text := ' ' :: a.1 ++ '=' :: '"' :: a.2 ++ ['"']

/-- A start tag as it is written. -/
def Tag.opening (tag : Tag) : Text := '<' :: tag.name ++ tag.attributes.flatMap assignment ++ ['>']

/-- The end tag to a start tag as it is written. -/
def Tag.closing (tag : Tag) : Text := '<' :: '/' :: tag.name ++ ['>']

/-- An attribute that can be read: its value goes on to the closing quote, and no tag begins in
it. -/
structure IsReadableAttribute (a : Text × Text) : Prop where
  /-- The name of the attribute can be read. -/
  name : IsReadable a.1
  /-- Nothing in the value ends it. -/
  value : ∀ c ∈ a.2, c ≠ '"' ∧ c ≠ '<'

namespace Reader

theorem run_attribute {a : Text × Text} (ha : IsReadableAttribute a) (content : List Node)
    (pending : List OpenElement) (tag : Tag) :
    run ⟨.startTag tag false, content, pending⟩ (assignment a)
      = some ⟨.startTag ⟨tag.name, tag.attributes ++ [a]⟩ false, content, pending⟩ := by
  rw [assignment, List.append_assoc, run_append, run_label content pending ha.name,
    Option.bind_some]
  exact run_value ha.value content pending tag a.1

theorem run_attributes {attributes : List (Text × Text)}
    (h : ∀ a ∈ attributes, IsReadableAttribute a) (content : List Node)
    (pending : List OpenElement) (tag : Tag) :
    run ⟨.startTag tag false, content, pending⟩ (attributes.flatMap assignment)
      = some ⟨.startTag ⟨tag.name, tag.attributes ++ attributes⟩ false, content, pending⟩ := by
  induction attributes generalizing tag with
  | nil => rw [List.append_nil]; rfl
  | cons a attributes ih =>
    obtain ⟨ha, hattributes⟩ := List.forall_mem_cons.mp h
    rw [List.flatMap_cons, run_append, run_attribute ha, Option.bind_some, ih hattributes,
      List.append_assoc]
    rfl

theorem run_opening {tag : Tag} (hname : IsReadable tag.name)
    (h : ∀ a ∈ tag.attributes, IsReadableAttribute a) (content : List Node)
    (pending : List OpenElement) :
    run ⟨.content, content, pending⟩ tag.opening
      = some ⟨.content, [], ⟨tag, content⟩ :: pending⟩ := by
  obtain ⟨name, attributes⟩ := tag
  have hrest : run ⟨.startName name, content, pending⟩ (attributes.flatMap assignment ++ ['>'])
      = run ⟨.startTag ⟨name, []⟩ false, content, pending⟩
        (attributes.flatMap assignment ++ ['>']) := by
    cases attributes with
    | nil => exact run_startName_cons (by decide) ..
    | cons a attributes => exact run_startName_cons (by decide) ..
  rw [Tag.opening, List.append_assoc, run_append, run_startName content pending hname,
    Option.bind_some, hrest, run_append, run_attributes h, Option.bind_some]
  rfl

theorem run_closing {tag : Tag} (hname : IsReadable tag.name) (content before : List Node)
    (pending : List OpenElement) :
    run ⟨.content, content, ⟨tag, before⟩ :: pending⟩ tag.closing
      = some ⟨.content, before ++ [.element tag content], pending⟩ := by
  rw [Tag.closing, run_append, run_endName content _ hname, Option.bind_some, run_cons]
  exact congrArg (Option.bind · _) (if_pos rfl)

end Reader

/-! ## Content

To say of a text that it is content is to say what happens to every reader that comes to it, with
any content before it and any elements open. Quantifying over these is what makes the induction over
a value go through: inside an element other elements are open. -/

/-- A text is read as the given content, whatever has been read before and whatever is open. -/
def Reads (t : Text) (content : List Node) : Prop :=
  ∀ before pending, Reader.run ⟨.content, before, pending⟩ t
    = some ⟨.content, before ++ content, pending⟩

theorem read?_of_reads {t : Text} {content : List Node} (h : Reads t content) :
    read? t = some content := by
  rw [read?, h [] []]
  rfl

theorem reads_nil : Reads [] [] := fun before pending ↦ by rw [List.append_nil]; rfl

theorem Reads.append {s t : Text} {first rest : List Node} (hs : Reads s first)
    (ht : Reads t rest) : Reads (s ++ t) (first ++ rest) := fun before pending ↦ by
  rw [Reader.run_append, hs, Option.bind_some, ht, List.append_assoc]

/-- Text in which no tag begins is read as it is. -/
theorem reads_text {t : Text} (h : '<' ∉ t) : Reads t (Node.text t) := fun before pending ↦ by
  have hgrow := Reader.run_grow (fun x ↦ ⟨.content, before ++ Node.text x, pending⟩) (t := t)
    (fun c hc x ↦ by
      have hne : c ≠ '<' := fun h' ↦ h (h' ▸ hc)
      simp [Reader.step, hne, Node.text]) []
  rw [Node.text, List.map_nil, List.append_nil] at hgrow
  exact hgrow

/-- Content between a start tag and its end tag is read as an element. -/
theorem Reads.element {t : Text} {content : List Node} (ht : Reads t content) (tag : Tag)
    (hname : IsReadable tag.name) (h : ∀ a ∈ tag.attributes, IsReadableAttribute a) :
    Reads (tag.opening ++ t ++ tag.closing) [.element tag content] := fun before pending ↦ by
  rw [Reader.run_append, Reader.run_append, Reader.run_opening hname h, Option.bind_some, ht,
    Option.bind_some, List.nil_append, Reader.run_closing hname]

theorem reads_emptyElement {name : Text} (hname : IsReadable name) :
    Reads ('<' :: name ++ ['/', '>']) [.element ⟨name, []⟩ []] := fun before pending ↦ by
  rw [Reader.run_append, Reader.run_startName before pending hname, Option.bind_some,
    Reader.run_startName_cons (by decide)]
  rfl

end PhraseRepair.Xml
