import PhraseRepair.Proofs.Exchanges
import PhraseRepair.Proofs.Reading

/-!
# The documents that calls send

A call sends a document that reads back as the envelope around the elements of its parameters, and
only the prefixes of its bindings and the names in its parameters decide about the tags in it
(`exists_document_step`). Each value is read as the elements that it stands for (`reads_write`).
This goes by induction on the value, since what a text is read as does not depend on where it
stands.
-/

namespace PhraseRepair

namespace Xml

/-! ## Markup

That texts have no part in the tags of a document is said with a view of it in which they are gone:
the elements with their names and those of their attributes, but neither characters nor the values
of attributes. -/

/-- The tag with the values of its attributes emptied. -/
def Tag.bare (tag : Tag) : Tag := ⟨tag.name, tag.attributes.map fun a ↦ (a.1, [])⟩

namespace Node

mutual

/-- What markup there is in a node: its elements with their names and those of their attributes. -/
def markup : Node → List Node
  | char _ => []
  | element tag content => [element tag.bare (markupOf content)]

/-- What markup there is in some content. -/
def markupOf : List Node → List Node
  | [] => []
  | node :: content => markup node ++ markupOf content

end

theorem markupOf_append (first rest : List Node) :
    markupOf (first ++ rest) = markupOf first ++ markupOf rest := by
  induction first with
  | nil => rfl
  | cons node first ih => rw [List.cons_append, markupOf, markupOf, ih, List.append_assoc]

theorem markupOf_text (t : Text) : markupOf (text t) = [] := by
  induction t with
  | nil => rfl
  | cons c t ih => exact ih

end Node

end Xml

namespace Soap

open Xml (Node Reads IsReadable)

/-! ## Values as elements

The items of a list are written under its name without a tag around them, so a value is read as a
forest. A document does not tell a list from several fields of one name, and neither does the
forest. -/

namespace Value

mutual

/-- The elements that a value stands for under a name: one for a text, with the escaped text as its
content, one for named values, with their elements as its content, and those of all items for a
list. -/
def forest (name : Text) : Value → List Node
  | .text content => [.element ⟨name, []⟩ (Node.text (Xml.escape content))]
  | .list items => forestOfItems name items
  | .fields entries => [.element ⟨name, []⟩ (forestOfFields entries)]

/-- The elements of the values of a list, each under the same name. -/
def forestOfItems (name : Text) : List Value → List Node
  | [] => []
  | v :: items => forest name v ++ forestOfItems name items

/-- The elements of named values, each under its own name. -/
def forestOfFields : List (Text × Value) → List Node
  | [] => []
  | (name, v) :: entries => forest name v ++ forestOfFields entries

end

mutual

/-- The value with all its texts emptied. -/
def bare : Value → Value
  | .text _ => .text []
  | .list items => .list (bareItems items)
  | .fields entries => .fields (bareFields entries)

/-- The values of a list with all their texts emptied. -/
def bareItems : List Value → List Value
  | [] => []
  | v :: items => bare v :: bareItems items

/-- Named values with all their texts emptied. -/
def bareFields : List (Text × Value) → List (Text × Value)
  | [] => []
  | (name, v) :: entries => (name, bare v) :: bareFields entries

end

theorem markup_forest (name : Text) (v : Value) :
    Node.markupOf (v.forest name) = v.bare.forest name := by
  induction v using induction generalizing name with
  | text content =>
    rw [forest, Node.markupOf, Node.markup, Node.markupOf_text]
    rfl
  | list items ih =>
    -- The items are written under the name of the list, which does not change along them.
    rw [forest, bare, forest]
    induction items with
    | nil => rfl
    | cons v items ihitems =>
      obtain ⟨hv, hitems⟩ := List.forall_mem_cons.mp ih
      rw [forestOfItems, Node.markupOf_append, hv, ihitems hitems]
      rfl
  | fields entries ih =>
    have hentries : Node.markupOf (forestOfFields entries)
        = forestOfFields (bareFields entries) := by
      induction entries with
      | nil => rfl
      | cons e entries ihentries =>
        obtain ⟨he, hentries⟩ := List.forall_mem_cons.mp ih
        rw [forestOfFields, Node.markupOf_append, he, ihentries hentries]
        rfl
    rw [forest, Node.markupOf, Node.markup, hentries]
    rfl

theorem reads_element {name content : Text} {nodes : List Node} (hname : Xml.isName name = true)
    (h : Reads content nodes) : Reads (element name content) [.element ⟨name, []⟩ nodes] := by
  have hwritten : element name content
      = Xml.Tag.opening ⟨name, []⟩ ++ content ++ Xml.Tag.closing ⟨name, []⟩ := by
    rw [element, Xml.Tag.opening, Xml.Tag.closing, List.flatMap_nil, List.append_nil,
      List.append_assoc _ _ ['>'], List.append_assoc _ "</".toList]
    rfl
  rw [hwritten]
  exact h.element _ (Xml.isReadable_of_isName hname) (List.forall_mem_nil _)

/-- **Reading a value back.** A value whose names can be written is read as the elements that it
stands for. -/
theorem reads_write {name : Text} {v : Value}
    (h : ∀ key ∈ name :: v.keys, Xml.isName key = true) : Reads (v.write name) (v.forest name) := by
  refine write_induction (fun name v ↦ Reads (v.write name) (v.forest name))
    (fun name vs ↦ Reads (writeItems name vs) (forestOfItems name vs))
    (fun entries ↦ Reads (writeFields entries) (forestOfFields entries))
    (fun name content hname ↦ ?_) (fun name vs hvs ↦ ?_) (fun name entries hname hentries ↦ ?_)
    (fun _ ↦ Xml.reads_nil) (fun _ _ _ ↦ Reads.append) Xml.reads_nil (fun _ _ _ ↦ Reads.append) h
  · rw [write, forest]
    split
    · next hempty =>
      rw [List.isEmpty_iff.mp hempty]
      exact Xml.reads_emptyElement (Xml.isReadable_of_isName hname)
    · exact reads_element hname (Xml.reads_text (Xml.notMem_escape (by decide) content))
  · rwa [write, forest]
  · rw [write.eq_def, forest]
    cases entries with
    | nil => exact Xml.reads_emptyElement (Xml.isReadable_of_isName hname)
    | cons entry entries => exact reads_element hname hentries

end Value

/-! ## Envelopes -/

/-- The attribute that declares a binding. -/
def Binding.attribute (b : Binding) : Text × Text :=
  (if b.label.isEmpty then "xmlns".toList else "xmlns:".toList ++ b.label, Xml.escape b.uri)

/-- The content of an envelope with the given payload. -/
def document (bindings : List Binding) (payload : List Node) : List Node :=
  [.char '\n', .element ⟨envelopeLabel ++ ":Envelope".toList, bindings.map Binding.attribute⟩
    [.char '\n', .element ⟨envelopeLabel ++ ":Body".toList, []⟩
      (.char '\n' :: payload ++ [.char '\n']), .char '\n']]

theorem reads_xmlDeclaration : Reads xmlDeclaration [] := fun before pending ↦ by
  rw [List.append_nil]
  rfl

theorem declaration_eq (b : Binding) : b.declaration = Xml.assignment b.attribute := by
  rw [Binding.declaration, Binding.attribute, Xml.assignment]
  split <;> simp

theorem isReadableAttribute_attribute {b : Binding}
    (h : ClientSettings.usableLabel b.label = true) :
    Xml.IsReadableAttribute b.attribute := by
  refine ⟨?_, fun c hc ↦ ⟨?_, ?_⟩⟩
  · have hdefault : IsReadable "xmlns".toList := Xml.isReadable_of_isName (by decide +kernel)
    have hlabelled : IsReadable "xmlns:".toList := Xml.isReadable_of_isName (by decide +kernel)
    rw [Binding.attribute]
    split
    · exact hdefault
    · next hne =>
      have hname := ((Bool.or_eq_true _ _).mp h).resolve_left hne
      exact hlabelled.append (Xml.isReadable_of_isName hname)
  · exact fun heq ↦ Xml.notMem_escape (by decide) b.uri (heq ▸ hc)
  · exact fun heq ↦ Xml.notMem_escape (by decide) b.uri (heq ▸ hc)

/-- The start tag of an envelope. -/
def rootTag (bindings : List Binding) : Xml.Tag :=
  ⟨envelopeLabel ++ ":Envelope".toList, bindings.map Binding.attribute⟩

/-- The start tag of the body of an envelope. -/
def bodyTag : Xml.Tag := ⟨envelopeLabel ++ ":Body".toList, []⟩

theorem envelope_eq (bindings : List Binding) (payload : Text) :
    envelope bindings payload = xmlDeclaration ++ ['\n'] ++ ((rootTag bindings).opening
      ++ (['\n'] ++ (bodyTag.opening ++ (['\n'] ++ payload ++ ['\n']) ++ bodyTag.closing) ++ ['\n'])
      ++ (rootTag bindings).closing) := by
  have hdeclarations : bindings.flatMap Binding.declaration
      = (bindings.map Binding.attribute).flatMap Xml.assignment := by
    rw [List.flatMap_map, funext declaration_eq]
  simp [envelope, Text.joinWith, List.intercalate, Xml.Tag.opening, Xml.Tag.closing, rootTag,
    bodyTag, hdeclarations]

theorem isReadable_rootTag (bindings : List Binding) : IsReadable (rootTag bindings).name :=
  Xml.isReadable_of_isName (show Xml.isName "SOAP-ENV:Envelope".toList = true by decide +kernel)

theorem isReadableAttribute_of_mem_rootTag {bindings : List Binding}
    (hlabels : ∀ b ∈ bindings, ClientSettings.usableLabel b.label = true) :
    ∀ a ∈ (rootTag bindings).attributes, Xml.IsReadableAttribute a :=
  List.forall_mem_map.mpr fun b hb ↦ isReadableAttribute_attribute (hlabels b hb)

/-- An envelope around a payload is read as the document around what the payload is read as. -/
theorem reads_envelope {bindings : List Binding}
    (hlabels : ∀ b ∈ bindings, ClientSettings.usableLabel b.label = true) {payload : Text}
    {nodes : List Node} (h : Reads payload nodes) :
    Reads (envelope bindings payload) (document bindings nodes) := by
  have hbreak : Reads ['\n'] [.char '\n'] := Xml.reads_text (by decide)
  have hname : IsReadable bodyTag.name :=
    Xml.isReadable_of_isName (show Xml.isName "SOAP-ENV:Body".toList = true by decide +kernel)
  have hbody := ((hbreak.append h).append hbreak).element bodyTag hname (List.forall_mem_nil _)
  have henvelope := ((hbreak.append hbody).append hbreak).element (rootTag bindings)
    (isReadable_rootTag bindings) (isReadableAttribute_of_mem_rootTag hlabels)
  rw [envelope_eq]
  exact (reads_xmlDeclaration.append hbreak).append henvelope

/-- The texts and URIs in a document have no part in its markup. -/
theorem markup_document (bindings : List Binding) (payload : List Node) :
    Node.markupOf (document bindings payload)
      = [.element ⟨envelopeLabel ++ ":Envelope".toList, bindings.map fun b ↦ (b.attribute.1, [])⟩
        [.element ⟨envelopeLabel ++ ":Body".toList, []⟩ (Node.markupOf payload)]] := by
  simp [document, Node.markupOf, Node.markup, Node.markupOf_append, Xml.Tag.bare]

/-! ## Calls -/

/-- Settings that can be built have the chosen bindings, each with a usable prefix, and one for the
envelope. -/
theorem ClientSettings.of_build_eq_ok {choices : List Choice} {settings : ClientSettings}
    (h : build choices = .ok settings) :
    (∀ b ∈ choices.filterMap Choice.binding?, usableLabel b.label = true) ∧
      settings.bindings = withEnvelope (choices.filterMap Choice.binding?) := by
  rw [build] at h
  split at h
  · exact absurd h (by simp)
  · next hnone =>
    rw [← Except.ok.inj h]
    exact ⟨fun b hb ↦ by simpa using List.find?_eq_none.mp hnone b hb, rfl⟩

theorem ClientSettings.usableLabel_of_build_eq_ok {choices : List Choice}
    {settings : ClientSettings} (h : build choices = .ok settings) :
    ∀ b ∈ settings.bindings, usableLabel b.label = true := by
  obtain ⟨hchosen, hbindings⟩ := of_build_eq_ok h
  intro b hb
  rw [hbindings, withEnvelope] at hb
  split at hb
  · exact hchosen b hb
  · rcases List.mem_append.mp hb with hb | hb
    · exact hchosen b hb
    · obtain rfl := List.mem_singleton.mp hb
      decide +kernel

namespace Client

/-- **What a call sends.** Whenever a client with built settings makes a call that can be rendered,
it posts a document that reads back as the envelope around the elements of the parameters. The
envelope declares the bindings in order. Of the texts, URIs and phrases nothing is left in the
markup, which is that of the parameters with all texts emptied. The first element in that of a
search holds the repaired phrase. -/
theorem exists_document_step (client : Client) {choices : List ClientSettings.Choice}
    (hsettings : ClientSettings.build choices = .ok client.settings) (s : State) {step : Step}
    {action : Text} {parameters : Value} (hcalled : step.called? s = some (action, parameters))
    {payload : Text} (hpayload : parameters.render action = .ok payload) :
    ∃ exchange body, (client.step s step).1.exchange = some exchange ∧
      exchange.request.method = .post ∧ exchange.request.body = some body ∧
      Xml.read? body = some (document client.settings.bindings (parameters.forest action)) ∧
      Node.markupOf (document client.settings.bindings (parameters.forest action))
        = [.element ⟨envelopeLabel ++ ":Envelope".toList,
            client.settings.bindings.map fun b ↦ (b.attribute.1, [])⟩
          [.element ⟨envelopeLabel ++ ":Body".toList, []⟩ (parameters.bare.forest action)]] ∧
      ∀ repairer phrase given, step = .search action repairer phrase given →
        parameters.forest action = [.element ⟨action, []⟩
          (.element ⟨queryField, []⟩
            (Node.text (Xml.escape (repairer.repair s.supply phrase).output))
            :: Value.forestOfFields given)] := by
  have hnames := Value.isName_of_render_eq_ok hpayload
  obtain ⟨body, request, hbody, -, hmethod, hrequest, -, -, hexchange, -⟩ :=
    (client.calls_step hcalled).sends hnames
  rw [client.callEnvelope_of_forall_isName hnames] at hbody
  obtain rfl := Except.ok.inj hbody
  refine ⟨_, _, hexchange, hmethod, hrequest, ?_, ?_, ?_⟩
  · exact Xml.read?_of_reads (reads_envelope (ClientSettings.usableLabel_of_build_eq_ok hsettings)
      (Value.reads_write hnames))
  · rw [markup_document, Value.markup_forest]
  · rintro repairer phrase given rfl
    obtain ⟨-, rfl⟩ := Prod.mk.inj (Option.some.inj hcalled)
    rfl

/-- A search with markup in its parameters and in the URI of a namespace. -/
theorem exists_document_step_with_markup :
    ∃ exchange body, (Client.step ⟨"http://x/".toList,
        ⟨[⟨"m".toList, "\"><x/>".toList⟩, envelopeBinding], "u".toList⟩, fun _ _ ↦ .ok []⟩ {}
        (.search "m:find".toList {} "a (b c)".toList
          [("id".toList, .list [.text "</id>".toList, .fields []])])).1.exchange = some exchange ∧
      exchange.request.body = some body ∧
      Xml.read? body = some (document [⟨"m".toList, "\"><x/>".toList⟩, envelopeBinding]
        [.element ⟨"m:find".toList, []⟩
          [.element ⟨"query".toList, []⟩ (Node.text "a and &quot;(b c)&quot;".toList),
            .element ⟨"id".toList, []⟩ (Node.text "&lt;/id&gt;".toList),
            .element ⟨"id".toList, []⟩ []]]) := by
  have hrepaired : (({} : Repairer).repair {} "a (b c)".toList).output
      = "a and \"(b c)\"".toList := by decide +kernel
  obtain ⟨exchange, body, hexchange, -, hbody, hread, -, hforest⟩ := exists_document_step
    ⟨"http://x/".toList, ⟨[⟨"m".toList, "\"><x/>".toList⟩, envelopeBinding], "u".toList⟩,
      fun _ _ ↦ .ok []⟩
    (show ClientSettings.build [.binding ⟨"m".toList, "\"><x/>".toList⟩, .userAgent "u".toList]
      = .ok _ from rfl) {}
    (show Step.called? {} (.search "m:find".toList {} "a (b c)".toList
      [("id".toList, .list [.text "</id>".toList, .fields []])]) = some (_, _) from rfl)
    ((Value.render_eq _ _).trans (Value.checked_of_forall_isName (by decide +kernel) _))
  rw [hforest _ _ _ rfl, hrepaired] at hread
  exact ⟨exchange, body, hexchange, hbody, hread⟩

end Client

end Soap

end PhraseRepair
