import PhraseRepair.Session
import PhraseRepair.Soap.Client

/-!
# Events

What a repair or a request has to tell an observer on its way. Events are not part of any state:
they are read off what a step did, in the order in which it happened. A repair tells of every
fragment that it hides, of every placeholder that it resolves, and of its result; a client tells of
every request and of every failure.
-/

namespace PhraseRepair

/-- How much an event matters. -/
inductive Level
  | trace
  | debug
  | warn
  deriving DecidableEq, Repr

/-- The value of a field of an event. -/
inductive FieldValue
  | text (t : Text)
  | count (n : Nat)
  | flag (b : Bool)
  deriving DecidableEq, Repr

/-- Something that an observer is told. -/
inductive Event
  | fragmentHidden (content key : Text)
  | keyResolved (token : Nat) (key : Text)
  | phraseRepaired (input output : Text) (valid : Bool) (fragments : Nat)
  | searching (phrase query : Text)
  | requestSent (url : Text) (method : Soap.Method) (bodySize : Nat)
  | requestFailed (url error : Text)
  deriving DecidableEq, Repr

namespace Event

/-- The level of an event. -/
def level : Event → Level
  | fragmentHidden .. | keyResolved .. => .trace
  | phraseRepaired .. | searching .. | requestSent .. => .debug
  | requestFailed .. => .warn

/-- What an event says. -/
def message : Event → Text
  | fragmentHidden .. => "protecting fragment".toList
  | keyResolved .. => "unnesting placeholder".toList
  | phraseRepaired .. => "cured search phrase".toList
  | searching .. => "searching".toList
  | requestSent .. => "sending request".toList
  | requestFailed .. => "request failed".toList

/-- The named values that an event carries, in order. -/
def fields : Event → List (Text × FieldValue)
  | fragmentHidden content key =>
    [("fragment".toList, .text content), ("key".toList, .text key)]
  | keyResolved token key =>
    [("token".toList, .count token), ("key".toList, .text key)]
  | phraseRepaired input output valid fragments =>
    [("input".toList, .text input), ("output".toList, .text output), ("valid".toList, .flag valid),
     ("protected_fragments".toList, .count fragments)]
  | searching phrase query =>
    [("phrase".toList, .text phrase), ("query".toList, .text query)]
  | requestSent url method bodySize =>
    [("url".toList, .text url), ("method".toList, .text method.name),
     ("body_len".toList, .count bodySize)]
  | requestFailed url error =>
    [("url".toList, .text url), ("error".toList, .text error)]

end Event

/-! ## The events of a step -/

/-- A fragment is told of when it is hidden. -/
def Fragment.event (f : Fragment) : Event := .fragmentHidden f.content f.key

/-- The keys resolved in the tokens of a masked phrase, token after token. -/
def Table.resolutionEvents (table : Table) (phrase : Text) : List Event :=
  (table.looseTokens phrase).zipIdx.flatMap fun (token, i) ↦
    (table.resolutions token).map fun e ↦ .keyResolved i e.key

/-- The events of a repair. -/
def Report.events (r : Report) : List Event :=
  r.masked.fragments.map Fragment.event
    ++ r.masked.table.resolutionEvents r.masked.phrase
    ++ [.phraseRepaired r.input r.output r.valid r.masked.table.size]

/-- The events of a session's step. -/
def Session.Outcome.events : Session.Outcome → List Event
  | .repaired report => report.events
  | .key _ | .settings _ | .refused _ => []

namespace Soap.Client

/-- The events of an exchange. -/
def Exchange.events (x : Exchange) : List Event :=
  .requestSent x.request.url x.request.method (x.request.body.elim 0 Text.utf8Size)
    :: match x.answer with
      | .ok _ => []
      | .error e => [.requestFailed x.request.url e.message]

/-- The events of a client's step. -/
def Outcome.events (o : Outcome) : List Event :=
  o.repair.elim [] (fun report ↦ report.events ++ [.searching report.input report.output])
    ++ o.exchange.elim [] Exchange.events

end Soap.Client

end PhraseRepair
