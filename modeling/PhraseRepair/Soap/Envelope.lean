import PhraseRepair.Soap.Value
import PhraseRepair.Text.Words

/-!
# Envelopes

The document that a call sends: the XML declaration, the envelope with its namespace declarations,
and the body with the payload, each tag on a line of its own. An envelope is built from the bindings
and the payload as they are given; only the URIs are escaped.
-/

namespace PhraseRepair.Soap

/-- A namespace declaration. -/
structure Binding where
  /-- The namespace prefix, empty for the default namespace. -/
  label : Text
  /-- The namespace that it stands for. -/
  uri : Text
  deriving DecidableEq, Repr

/-- The namespace prefix of the envelope's own elements. -/
def envelopeLabel : Text := "SOAP-ENV".toList

/-- The namespace of the envelope's own elements. -/
def envelopeUri : Text := "http://schemas.xmlsoap.org/soap/envelope/".toList

/-- The binding that the envelope's own elements need. -/
def envelopeBinding : Binding := ⟨envelopeLabel, envelopeUri⟩

/-- The XML declaration. -/
def xmlDeclaration : Text := "<?xml version=\"1.0\" encoding=\"UTF-8\"?>".toList

/-- The attribute that declares a binding, with the space before it. -/
def Binding.declaration (b : Binding) : Text :=
  let name := if b.label.isEmpty then " xmlns".toList else " xmlns:".toList ++ b.label
  name ++ "=\"".toList ++ Xml.escape b.uri ++ ['"']

/-- The document around a payload. -/
def envelope (bindings : List Binding) (payload : Text) : Text :=
  Text.joinWith ['\n']
    [xmlDeclaration,
     ['<'] ++ envelopeLabel ++ ":Envelope".toList ++ bindings.flatMap Binding.declaration ++ ['>'],
     ['<'] ++ envelopeLabel ++ ":Body>".toList,
     payload,
     "</".toList ++ envelopeLabel ++ ":Body>".toList,
     "</".toList ++ envelopeLabel ++ ":Envelope>".toList]

end PhraseRepair.Soap
