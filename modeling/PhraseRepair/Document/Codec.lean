import PhraseRepair.Document.Basic
import PhraseRepair.Settings
import PhraseRepair.Soap.ClientSettings
import PhraseRepair.Soap.Transport
import PhraseRepair.Table

/-!
# Reading and writing values as documents

Settings, tables, parameter values and methods can be kept in JSON documents. Each of them has a
writer `toDocument` and a reader `ofDocument?`. Readers look at the form only: settings are not
checked when they are read.
-/

namespace PhraseRepair

/-! ## Settings -/

namespace Settings

/-- The member names of settings. -/
def memberNames : List Text :=
  ["key_prefix".toList, "reserved_characters".toList, "literalize_bare_groups".toList]

/-- The settings as an object. -/
def toDocument (s : Settings) : Document :=
  .object (memberNames.zip
    [.string s.keyLetters, .array (s.reserved.map fun c ↦ .string [c]), .bool s.quoteBareGroups])

/-- The settings in a document. A member that is not there has its default. -/
def ofDocument? (d : Document) : Option Settings :=
  match d.record? memberNames with
  | some [letters, reserved, quote] => do
    let letters ← letters.elim (some ({} : Settings).keyLetters) Document.text?
    let reserved ← reserved.elim (some ({} : Settings).reserved) (Document.list? Document.char?)
    let quote ← quote.elim (some ({} : Settings).quoteBareGroups) Document.flag?
    some ⟨letters, reserved, quote⟩
  | _ => none

end Settings

/-! ## Tables -/

namespace Entry

/-- The member names of a table entry. -/
def memberNames : List Text := ["key".toList, "replacement".toList]

/-- The entry as an object. -/
def toDocument (e : Entry) : Document :=
  .object (memberNames.zip [.string e.key, .string e.replacement])

/-- The entry in a document. -/
def ofDocument? (d : Document) : Option Entry :=
  match d.record? memberNames with
  | some [some (.string key), some (.string replacement)] => some ⟨key, replacement⟩
  | _ => none

end Entry

namespace Table

/-- The member names of a table. -/
def memberNames : List Text := ["entries".toList]

/-- The table as an object. -/
def toDocument (table : Table) : Document :=
  .object (memberNames.zip [.array (table.entries.map Entry.toDocument)])

/-- The table in a document. -/
def ofDocument? (d : Document) : Option Table :=
  match d.record? memberNames with
  | some [some entries] => (entries.list? Entry.ofDocument?).map Table.mk
  | _ => none

end Table

namespace Soap

/-! ## Settings of a client -/

/-- The binding as an array of prefix and URI. -/
def Binding.toDocument (b : Binding) : Document := .array [.string b.label, .string b.uri]

/-- The binding in a document. -/
def Binding.ofDocument? (d : Document) : Option Binding :=
  d.textPair?.map fun (label, uri) ↦ ⟨label, uri⟩

namespace ClientSettings

/-- The member names of the settings of a client. -/
def memberNames : List Text := ["namespaces".toList, "user_agent".toList]

/-- The settings as an object. -/
def toDocument (s : ClientSettings) : Document :=
  .object (memberNames.zip
    [.array (s.bindings.map Binding.toDocument), .string s.userAgent])

/-- The settings in a document. -/
def ofDocument? (d : Document) : Option ClientSettings :=
  match d.record? memberNames with
  | some [some bindings, some (.string userAgent)] => do
    let bindings ← bindings.list? Binding.ofDocument?
    some ⟨bindings, userAgent⟩
  | _ => none

end ClientSettings

/-! ## Methods -/

namespace Method

/-- The method of a given name. -/
def ofName? (name : Text) : Option Method :=
  [get, post].find? (·.name = name)

theorem ofName?_name (m : Method) : ofName? m.name = some m := by
  cases m <;> decide

/-- The method as its name. -/
def toDocument (m : Method) : Document := .string m.name

/-- The method in a document: its name, or an object whose only member has that name and no
value. -/
def ofDocument? : Document → Option Method
  | .string name => ofName? name
  | .object [(name, .null)] => ofName? name
  | _ => none

end Method

/-! ## Parameter values -/

namespace Value

mutual

/-- The value as an object whose only member is named for the kind of value. -/
def toDocument : Value → Document
  | .text content => .object [("Text".toList, .string content)]
  | .list items => .object [("List".toList, .array (itemsToDocuments items))]
  | .fields entries => .object [("Map".toList, .array (entriesToDocuments entries))]

/-- The values of a list, one after the other. -/
def itemsToDocuments : List Value → List Document
  | [] => []
  | v :: items => v.toDocument :: itemsToDocuments items

/-- The named values, each as an array of name and value. -/
def entriesToDocuments : List (Text × Value) → List Document
  | [] => []
  | (name, v) :: entries => .array [.string name, v.toDocument] :: entriesToDocuments entries

end

mutual

/-- The value in a document. -/
def ofDocument? : Document → Option Value
  | .object [(kind, .string content)] =>
    if kind = "Text".toList then some (.text content) else none
  | .object [(kind, .array items)] =>
    if kind = "List".toList then (itemsOfDocuments? items).map .list
    else if kind = "Map".toList then (entriesOfDocuments? items).map .fields
    else none
  | _ => none

/-- The values in a list of documents. -/
def itemsOfDocuments? : List Document → Option (List Value)
  | [] => some []
  | d :: ds => do
    let v ← ofDocument? d
    let items ← itemsOfDocuments? ds
    some (v :: items)

/-- The named values in a list of documents. -/
def entriesOfDocuments? : List Document → Option (List (Text × Value))
  | [] => some []
  | .array [.string name, d] :: ds => do
    let v ← ofDocument? d
    let entries ← entriesOfDocuments? ds
    some ((name, v) :: entries)
  | _ :: _ => none

end

end Value

end Soap

end PhraseRepair
