import PhraseRepair.Soap.Envelope

/-!
# Settings of a client

The namespace bindings that a client declares in its envelopes and the user agent that it names
itself by. Built settings have usable prefixes only and declare the prefix of the envelope, at the
end if no binding was given for it.
-/

namespace PhraseRepair.Soap

/-- The user agent of a client that is given none. -/
def defaultUserAgent : Text := "NanoSOAP for Drupal".toList

/-- What a client says about itself in every request. -/
structure ClientSettings where
  /-- The namespaces that its envelopes declare. -/
  bindings : List Binding := [envelopeBinding]
  /-- The name that it goes by. -/
  userAgent : Text := defaultUserAgent
  deriving DecidableEq, Repr

namespace ClientSettings

/-- One choice for the settings of a client. -/
inductive Choice
  | binding (b : Binding)
  | userAgent (name : Text)
  deriving DecidableEq, Repr

/-- The binding that a choice adds, if it adds one. -/
def Choice.binding? : Choice → Option Binding
  | binding b => some b
  | userAgent _ => none

/-- The user agent that a choice names, if it names one. -/
def Choice.userAgent? : Choice → Option Text
  | binding _ => none
  | userAgent name => some name

/-- A prefix that can be declared: none at all, or a name. -/
def usableLabel (label : Text) : Bool := label.isEmpty || Xml.isName label

/-- The bindings with that of the envelope added at the end if its prefix is not among them. -/
def withEnvelope (bindings : List Binding) : List Binding :=
  if bindings.any (·.label = envelopeLabel) then bindings else bindings ++ [envelopeBinding]

/-- The settings that the choices lead to, or the first prefix that cannot be declared. Bindings
add up, and the last user agent counts. -/
def build (choices : List Choice) : Except Error ClientSettings :=
  let bindings := choices.filterMap Choice.binding?
  match bindings.find? (! usableLabel ·.label) with
  | some b => .error (.badNamespacePrefix b.label)
  | none => .ok {
      bindings := withEnvelope bindings
      userAgent := (choices.filterMap Choice.userAgent?).getLastD defaultUserAgent }

/-- Some binding is for the prefix of the envelope. -/
theorem exists_mem_withEnvelope (bindings : List Binding) :
    ∃ b ∈ withEnvelope bindings, b.label = envelopeLabel := by
  unfold withEnvelope
  split
  · next h => simpa using h
  · exact ⟨envelopeBinding, by simp, rfl⟩

end ClientSettings

end PhraseRepair.Soap
