import Mathlib.Data.List.Nodup
import PhraseRepair.Proofs.Documents

/-!
# Namespace declarations

A document has to declare the prefix of the envelope, and it is well formed only if no attribute of
its root tag is declared twice. Settings that can be built take care of the former. The binding of
the envelope is added if none was chosen for its prefix, so it is there in any case, and it is never
the reason that a prefix is there twice.

The latter is left to whoever chooses the bindings. A prefix is declared as often as it was chosen,
and so the attributes of the root tag differ from each other exactly if the chosen prefixes do
(`ClientSettings.root_of_build`).
-/

namespace PhraseRepair

/-- A text in which a reader first comes upon the given start tag. -/
def Xml.HasRoot (t : Text) (root : Tag) : Prop :=
  ∃ start rest before, t = start ++ rest ∧
    Reader.run {} start = some ⟨.content, [], [⟨root, Node.text before⟩]⟩

namespace Soap

/-- The name of the attribute that declares a prefix. -/
def declarationName (label : Text) : Text :=
  if label.isEmpty then "xmlns".toList else "xmlns:".toList ++ label

theorem declarationName_injective : Function.Injective declarationName := by
  intro label label' h
  rw [declarationName, declarationName] at h
  rcases label with _ | ⟨c, label⟩ <;> rcases label' with _ | ⟨c', label'⟩
  · rfl
  · exact absurd (congrArg List.length h) (by simp)
  · exact absurd (congrArg List.length h) (by simp)
  · exact List.append_cancel_left h

theorem map_fst_attribute (bindings : List Binding) :
    (bindings.map Binding.attribute).map Prod.fst
      = (bindings.map Binding.label).map declarationName := by
  rw [List.map_map, List.map_map]
  rfl

theorem hasRoot_envelope {bindings : List Binding}
    (hlabels : ∀ b ∈ bindings, ClientSettings.usableLabel b.label = true) (payload : Text) :
    Xml.HasRoot (envelope bindings payload) (rootTag bindings) := by
  have hbreak : Xml.Reads ['\n'] (Xml.Node.text ['\n']) := Xml.reads_text (by decide)
  have hwritten := envelope_eq bindings payload
  rw [List.append_assoc (rootTag bindings).opening, ← List.append_assoc] at hwritten
  refine ⟨_, _, ['\n'], hwritten, ?_⟩
  rw [Xml.Reader.run_append, reads_xmlDeclaration.append hbreak, Option.bind_some,
    Xml.Reader.run_opening (isReadable_rootTag bindings)
      (isReadableAttribute_of_mem_rootTag hlabels)]
  rfl

namespace ClientSettings

/-! ## Counting prefixes

How often a prefix is declared is counted, since this tells both whether it is there and whether it
is repeated. Adding the binding of the envelope takes the maximum with one for its prefix, and that
is above one exactly if the count was. -/

theorem count_withEnvelope (bindings : List Binding) (label : Text) :
    ((withEnvelope bindings).map Binding.label).count label
      = max ((bindings.map Binding.label).count label) (if label = envelopeLabel then 1 else 0) := by
  rw [withEnvelope]
  split
  · next hgiven =>
    have hmem : envelopeLabel ∈ bindings.map Binding.label := by simpa using hgiven
    split
    · next heq =>
      rw [heq, Nat.max_eq_left (List.count_pos_iff.mpr hmem)]
    · rw [Nat.max_zero]
  · next hmissing =>
    have hnotMem : envelopeLabel ∉ bindings.map Binding.label := by simpa using hmissing
    rw [List.map_append, List.count_append]
    split
    · next heq =>
      rw [heq, List.count_eq_zero_of_not_mem hnotMem]
      rfl
    · next hne => simp [envelopeBinding, Ne.symm hne]

theorem nodup_withEnvelope_iff (bindings : List Binding) :
    ((withEnvelope bindings).map Binding.label).Nodup ↔ (bindings.map Binding.label).Nodup := by
  rw [List.nodup_iff_count_le_one, List.nodup_iff_count_le_one]
  refine forall_congr' fun label ↦ ?_
  rw [count_withEnvelope]
  split <;> omega

/-- **Namespace declarations.** Settings that can be built bind the prefix of the envelope. Every
other prefix is bound as often as it was chosen, and so are the attributes of the root tag in any
envelope: the one that declares the prefix of the envelope is among them, and no attribute is
repeated exactly if no prefix was chosen twice. -/
theorem root_of_build {choices : List Choice} {settings : ClientSettings}
    (h : build choices = .ok settings) :
    (∃ b ∈ settings.bindings, b.label = envelopeLabel) ∧
      (∀ label, (settings.bindings.map Binding.label).count label
        = max (((choices.filterMap Choice.binding?).map Binding.label).count label)
          (if label = envelopeLabel then 1 else 0)) ∧
      ((settings.bindings.map Binding.label).Nodup
        ↔ ((choices.filterMap Choice.binding?).map Binding.label).Nodup) ∧
      ∀ payload, ∃ root, Xml.HasRoot (envelope settings.bindings payload) root ∧
        root.name = envelopeLabel ++ ":Envelope".toList ∧
        "xmlns:".toList ++ envelopeLabel ∈ root.attributes.map Prod.fst ∧
        ((root.attributes.map Prod.fst).Nodup
          ↔ ((choices.filterMap Choice.binding?).map Binding.label).Nodup) := by
  obtain ⟨-, hbindings⟩ := of_build_eq_ok h
  have henvelope : ∃ b ∈ settings.bindings, b.label = envelopeLabel :=
    hbindings ▸ exists_mem_withEnvelope _
  have hnodup := hbindings ▸ nodup_withEnvelope_iff (choices.filterMap Choice.binding?)
  refine ⟨henvelope, fun label ↦ hbindings ▸ count_withEnvelope _ label, hnodup, fun payload ↦
    ⟨rootTag settings.bindings, hasRoot_envelope (usableLabel_of_build_eq_ok h) payload, rfl, ?_,
      ?_⟩⟩
  · obtain ⟨b, hb, hlabel⟩ := henvelope
    rw [rootTag, map_fst_attribute]
    exact List.mem_map.mpr ⟨b.label, List.mem_map_of_mem hb, by rw [hlabel]; rfl⟩
  · rw [rootTag, map_fst_attribute, List.nodup_map_iff declarationName_injective, hnodup]

/-- A default namespace, a prefix of its own and one for the envelope. -/
theorem root_of_build_with_default_namespace :
    ∃ root, Xml.HasRoot (envelope [⟨[], "urn:d".toList⟩, ⟨"os".toList, "urn:o".toList⟩,
        envelopeBinding] "<ping/>".toList) root ∧
      root.name = "SOAP-ENV:Envelope".toList ∧
      "xmlns:SOAP-ENV".toList ∈ root.attributes.map Prod.fst ∧
      (root.attributes.map Prod.fst).Nodup := by
  obtain ⟨-, -, -, henvelope⟩ := root_of_build
    (show build [.binding ⟨[], "urn:d".toList⟩, .userAgent "me".toList,
        .binding ⟨"os".toList, "urn:o".toList⟩]
      = .ok ⟨[⟨[], "urn:d".toList⟩, ⟨"os".toList, "urn:o".toList⟩, envelopeBinding],
        "me".toList⟩ by decide +kernel)
  obtain ⟨root, hroot, hname, hmem, hnodup⟩ := henvelope "<ping/>".toList
  exact ⟨root, hroot, hname, hmem, hnodup.mpr (by decide)⟩

/-- A prefix that is chosen twice is declared twice. -/
theorem declared_twice_of_build :
    build [.binding ⟨"a".toList, "urn:1".toList⟩, .binding ⟨"a".toList, "urn:1".toList⟩]
        = .ok ⟨[⟨"a".toList, "urn:1".toList⟩, ⟨"a".toList, "urn:1".toList⟩, envelopeBinding],
          defaultUserAgent⟩ ∧
      ¬ ([⟨"a".toList, "urn:1".toList⟩, ⟨"a".toList, "urn:1".toList⟩,
        envelopeBinding].map Binding.label).Nodup ∧
      (rootTag [⟨"a".toList, "urn:1".toList⟩, ⟨"a".toList, "urn:1".toList⟩,
        envelopeBinding]).attributes.map Prod.fst
        = ["xmlns:a".toList, "xmlns:a".toList, "xmlns:SOAP-ENV".toList] := by
  decide +kernel

end ClientSettings

end Soap

end PhraseRepair
