import PhraseRepair.Soap.Error
import PhraseRepair.Xml.Escape
import PhraseRepair.Xml.Name

/-!
# Parameter values

The parameters of a call form a tree: a text, a list of values, or named values in order. A value is
written under a name. A text becomes one element, named values become one element with a child for
each of them, and a list becomes one element after the other, all of the same name.

Every name is checked when it is reached, from the outside in and from left to right, also where
there is nothing to write under it.
-/

namespace PhraseRepair.Soap

/-- A parameter value. -/
inductive Value
  | text (content : Text)
  | list (items : List Value)
  | fields (entries : List (Text × Value))
  deriving Repr

namespace Value

/-- The named values with one more behind them. A text or a list makes room for it. -/
def withField (v : Value) (name : Text) (value : Value) : Value :=
  match v with
  | fields entries => fields (entries ++ [(name, value)])
  | _ => fields [(name, value)]

/-- An element without content. -/
def emptyElement (name : Text) : Text := '<' :: name ++ "/>".toList

/-- An element with the given content between its tags. -/
def element (name content : Text) : Text :=
  '<' :: name ++ ['>'] ++ content ++ "</".toList ++ name ++ ['>']

mutual

/-- The value written under a name, or the first name that cannot be written. -/
def render (name : Text) (v : Value) : Except Error Text :=
  if Xml.isName name then
    match v with
    | .text content =>
      .ok (if content.isEmpty then emptyElement name else element name (Xml.escape content))
    | .list items => renderItems name items
    | .fields [] => .ok (emptyElement name)
    | .fields (entry :: entries) => do
      let content ← renderFields (entry :: entries)
      .ok (element name content)
  else .error (.badElementName name)

/-- The values written one after the other, each under the same name. -/
def renderItems (name : Text) : List Value → Except Error Text
  | [] => .ok []
  | v :: items => do
    let first ← render name v
    let rest ← renderItems name items
    .ok (first ++ rest)

/-- The values written one after the other, each under its own name. -/
def renderFields : List (Text × Value) → Except Error Text
  | [] => .ok []
  | (name, v) :: entries => do
    let first ← render name v
    let rest ← renderFields entries
    .ok (first ++ rest)

end

end Value

end PhraseRepair.Soap
