import PhraseRepair.Cql.Operator
import PhraseRepair.Text.Words

/-!
# Telling queries from plain words

A fragment of a phrase can stand as CQL if it is a single word or if an operator joins its words.
A whole phrase can if what lies between its operators can.
-/

namespace PhraseRepair.Cql

/-- A fragment that can stand as CQL: no space remains inside once it is trimmed, or it holds an
operator. -/
def isCql (t : Text) : Bool := !(Text.trim t).contains ' ' || containsOperator t

/-- What lies before, between and behind the operators of a phrase. -/
def operands (phrase : Text) : List Text := operator.segments phrase

/-- A phrase that is a CQL query as it stands: each of its operands can stand as CQL. -/
def phraseIsCql (phrase : Text) : Bool := (operands phrase).all isCql

end PhraseRepair.Cql
