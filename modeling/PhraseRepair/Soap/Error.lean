import PhraseRepair.Text.Basic

/-!
# Failures of a request

A request fails because it could not be carried out, or because a name in it cannot be written.
-/

namespace PhraseRepair.Soap

/-- Why there is no answer. -/
inductive Error
  | transport (url message : Text)
  | badElementName (name : Text)
  | badNamespacePrefix (label : Text)
  deriving DecidableEq, Repr

/-- The wording of a failure. -/
def Error.message : Error → Text
  | transport url message =>
    "request to ".toList ++ url ++ " failed: ".toList ++ message
  | badElementName name => "invalid XML element name: '".toList ++ name ++ ['\'']
  | badNamespacePrefix label => "invalid namespace prefix: '".toList ++ label ++ ['\'']

end PhraseRepair.Soap
