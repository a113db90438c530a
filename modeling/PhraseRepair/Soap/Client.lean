import PhraseRepair.Repair
import PhraseRepair.Soap.ClientSettings
import PhraseRepair.Soap.Transport

/-!
# The client

A client sends requests to an endpoint. It can send a plain request, call an action with parameters
in an envelope, or search: repair a phrase and call an action with the repaired phrase as its first
parameter.

A call whose names cannot all be written sends nothing. Otherwise its envelope is remembered before
it is sent, whatever becomes of the request. The numbers for placeholders are drawn from one supply
by all searches, and they are used up even if the call is never sent.
-/

namespace PhraseRepair.Soap

/-- A client of one endpoint. -/
structure Client where
  /-- Where its calls go. -/
  endpoint : Text
  /-- What it says about itself. -/
  settings : ClientSettings := {}
  /-- What carries its requests out. -/
  transport : Transport

/-- The parameter in which a search sends the repaired phrase. -/
def queryField : Text := "query".toList

namespace Client

/-- What a client remembers between its steps. -/
structure State where
  /-- The requests sent so far, in order. -/
  sent : List Request := []
  /-- The last envelope that was ready to be sent. -/
  lastEnvelope : Option Text := none
  /-- The numbers for the placeholders of later searches. -/
  supply : KeySupply := {}
  deriving DecidableEq, Repr

/-- A request and its answer. -/
structure Exchange where
  /-- The request that was sent. -/
  request : Request
  /-- The answer to it. -/
  answer : Answer

/-- What a client can be asked to do. -/
inductive Step
  | request (url : Text) (method : Method) (body : Text) (headers : List (Text × Text))
  | call (action : Text) (parameters : Value)
  | search (action : Text) (repairer : Repairer) (phrase : Text) (parameters : List (Text × Value))

/-- What a step did. -/
structure Outcome where
  /-- The repair that a search began with. -/
  repair : Option Report := none
  /-- The exchange, if a request was sent. -/
  exchange : Option Exchange := none
  /-- The answer given in the end. -/
  answer : Answer

variable (client : Client)

/-- The request as it is sent: only a `POST` has a body, and only if there is something in it. -/
def prepare (url : Text) (method : Method) (body : Text) (headers : List (Text × Text)) :
    Request where
  url := url
  method := method
  body := if method = .post ∧ body ≠ [] then some body else none
  headers := headers
  userAgent := client.settings.userAgent

/-- Hands a request to the transport and records it. -/
def send (request : Request) (s : State) : Exchange × State :=
  (⟨request, client.transport s.sent request⟩, { s with sent := s.sent ++ [request] })

/-- The headers of a call. -/
def callHeaders (action : Text) : List (Text × Text) :=
  [("Content-Type".toList, "text/xml".toList), ("SOAPAction".toList, action)]

/-- The envelope of a call, if all its names can be written. -/
def callEnvelope (action : Text) (parameters : Value) : Except Error Text :=
  (parameters.render action).map (envelope client.settings.bindings)

/-- Calls an action with the given parameters. -/
def call (action : Text) (parameters : Value) (s : State) : Outcome × State :=
  match client.callEnvelope action parameters with
  | .error e => ({ answer := .error e }, s)
  | .ok body =>
    let request := client.prepare client.endpoint .post body (callHeaders action)
    let (exchange, s) := client.send request { s with lastEnvelope := some body }
    ({ exchange := some exchange, answer := exchange.answer }, s)

/-- The parameters of a search: the query first, then those that were given. -/
def searchParameters (query : Text) (parameters : List (Text × Value)) : Value :=
  .fields ((queryField, .text query) :: parameters)

/-- Takes one step. -/
def step (s : State) : Step → Outcome × State
  | .request url method body headers =>
    let (exchange, s) := client.send (client.prepare url method body headers) s
    ({ exchange := some exchange, answer := exchange.answer }, s)
  | .call action parameters => client.call action parameters s
  | .search action repairer phrase parameters =>
    let report := repairer.repair s.supply phrase
    let (outcome, s) := client.call action (searchParameters report.output parameters)
      { s with supply := report.masked.supply }
    ({ outcome with repair := some report }, s)

/-- Takes the steps in order: each outcome with the state after it. -/
def run (s : State) : List Step → List (Outcome × State)
  | [] => []
  | step :: steps =>
    let next := client.step s step
    next :: run next.2 steps

end Client

end PhraseRepair.Soap
