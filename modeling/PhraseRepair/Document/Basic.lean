import PhraseRepair.Text.Basic

/-!
# Documents

The tree of a JSON document, and how the parts of a value are found in it. A record is written as an
object, in which unknown members are ignored, or as the array of its members in order, which may
stop early. There is no conversion between kinds: a text is only read from a string, a flag only
from a boolean.
-/

namespace PhraseRepair

/-- A JSON document. A number is `mantissa` divided by ten to the power `decimals`. -/
inductive Document
  | null
  | bool (b : Bool)
  | number (mantissa : Int) (decimals : Nat)
  | string (t : Text)
  | array (items : List Document)
  | object (members : List (Text × Document))
  deriving Inhabited, Repr

namespace Document

/-- The text of a string. -/
def text? : Document → Option Text
  | string t => some t
  | _ => none

/-- The value of a boolean. -/
def flag? : Document → Option Bool
  | bool b => some b
  | _ => none

/-- The character of a string of exactly one. -/
def char? : Document → Option Char
  | string [c] => some c
  | _ => none

/-- The items of an array, each read by `read?`. -/
def list? {α : Type} (read? : Document → Option α) : Document → Option (List α)
  | array items => items.mapM read?
  | _ => none

/-- The two texts of an array of exactly two. -/
def textPair? : Document → Option (Text × Text)
  | array [string a, string b] => some (a, b)
  | _ => none

/-- The members of a record with the given member names, in the order of the names. A member that is
not there is `none`; a document of another shape, or an array that is too long, is no record. -/
def record? (names : List Text) : Document → Option (List (Option Document))
  | object members => some (names.map fun name ↦ members.lookup name)
  | array items =>
    if items.length ≤ names.length then
      some (items.map some ++ List.replicate (names.length - items.length) none)
    else none
  | _ => none

/-- A record has an entry for each of its member names. -/
theorem length_record? {names : List Text} {d : Document} {entries : List (Option Document)}
    (h : d.record? names = some entries) : entries.length = names.length := by
  cases d with
  | object members =>
    obtain rfl := Option.some.inj h
    simp
  | array items =>
    simp only [record?, Option.ite_none_right_eq_some, Option.some.injEq] at h
    obtain ⟨hle, rfl⟩ := h
    simp [Nat.add_sub_cancel' hle]
  | _ => simp [record?] at h

end Document

end PhraseRepair
