import PhraseRepair.Soap.Error

/-!
# Requests and transports

A transport is whatever carries requests out. It is modelled by its answers: the answer to a request
may depend on all requests that were sent before it, so it can be that of any peer with a memory,
also of one that fails now and then.
-/

namespace PhraseRepair.Soap

/-- The method of a request. -/
inductive Method
  | get
  | post
  deriving DecidableEq, Repr, Inhabited

/-- The name of a method as it is sent. -/
def Method.name : Method → Text
  | get => "GET".toList
  | post => "POST".toList

/-- A request as it is handed to a transport. -/
structure Request where
  /-- Where the request goes. -/
  url : Text
  /-- How it is sent. -/
  method : Method
  /-- What is sent with it, if anything. -/
  body : Option Text
  /-- The names and values of its headers. -/
  headers : List (Text × Text)
  /-- The name that the client goes by. -/
  userAgent : Text
  deriving DecidableEq, Repr

/-- The body of an answer, or why there is none. -/
abbrev Answer := Except Error Text

/-- The answer to a request, given the requests sent before it. -/
abbrev Transport := List Request → Request → Answer

namespace Transport

/-- A transport that gives the listed answers in turn, whatever it is asked, and keeps giving the
last one. Without any it always answers `ok`. -/
def scripted (answers : List Answer) : Transport := fun earlier _ ↦
  (answers[earlier.length]? <|> answers.getLast?).getD (.ok "ok".toList)

end Transport

end PhraseRepair.Soap
