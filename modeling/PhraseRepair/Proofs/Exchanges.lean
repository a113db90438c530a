import PhraseRepair.Proofs.Rendering
import PhraseRepair.Proofs.Runs
import PhraseRepair.Soap.Client

/-!
# What a client sends and remembers

A client can fail before it sends anything, at a name that cannot be written, or after it has sent a
request, by the answer. The envelope of a call is remembered between these two points. So after any
run of steps the remembered envelope is that of the last call that came past the names, whatever
became of its request (`run_accounted`).

What a step does is said once for plain requests (`Sends`) and once for calls (`Calls`), of which a
search is one. Both say what is sent, what is remembered and what is answered. The run follows by
induction from `lastEnvelope_step` and `WellSent`, which each step keeps.
-/

namespace PhraseRepair.Soap.Client

/-! ## Steps of a run

A search calls with a phrase that is repaired when its turn comes, from the supply as it is then. So
what a step calls with is a function of the state as well as of the step (`Step.called?`), and the
envelopes of a run are collected along the states that it goes through. -/

section Steps

variable (client : Client)

/-- The state once the steps have been taken. -/
def after (s : State) (steps : List Step) : State :=
  steps.foldl (fun s step ↦ (client.step s step).2) s

theorem getElem?_run (s : State) (steps : List Step) (i : Nat) :
    (client.run s steps)[i]? = steps[i]?.map (client.step (client.after s (steps.take i))) :=
  getElem?_of_run (fun _ ↦ rfl) (fun _ _ _ ↦ rfl) s steps i

/-- The action that a step calls and the parameters that it calls it with. A search calls with the
repaired phrase. -/
def Step.called? (s : State) : Step → Option (Text × Value)
  | request .. => none
  | call action parameters => some (action, parameters)
  | search action repairer phrase parameters =>
    some (action, searchParameters (repairer.repair s.supply phrase).output parameters)

/-- The envelope that a step has ready, if it makes a call and all names can be written. -/
def envelope? (s : State) (step : Step) : Option Text :=
  (step.called? s).bind fun c ↦
    if (c.1 :: c.2.keys).all Xml.isName then (client.callEnvelope c.1 c.2).toOption else none

/-- The envelopes that the steps have ready, in order. -/
def envelopes (s : State) : List Step → List Text
  | [] => []
  | step :: steps =>
    (client.envelope? s step).toList ++ envelopes (client.step s step).2 steps

/-! ## Calls

What a transport answers is arbitrary, and may depend on all that has been sent before. The
descriptions below fix everything else about a step, so that nothing has to be assumed of the
transport. -/

/-- A request is sent, and its answer is passed on as it is. -/
structure Sends (s : State) (request : Request) (outcome : Outcome) (next : State) : Prop where
  /-- The request is the only one that is sent. -/
  sent : next.sent = s.sent ++ [request]
  /-- The exchange is that of the request. -/
  exchange : outcome.exchange = some ⟨request, client.transport s.sent request⟩
  /-- The answer is that of the transport. -/
  answer : outcome.answer = client.transport s.sent request

/-- Nothing is sent and nothing is remembered. -/
structure SendsNothing (s : State) (outcome : Outcome) (next : State) : Prop where
  /-- No request is sent. -/
  sent : next.sent = s.sent
  /-- There is no exchange. -/
  exchange : outcome.exchange = none
  /-- The remembered envelope stays. -/
  lastEnvelope : next.lastEnvelope = s.lastEnvelope

/-- What a plain request does. -/
structure Requests (s : State) (url : Text) (method : Method) (body : Text)
    (headers : List (Text × Text)) (outcome : Outcome) (next : State) : Prop where
  /-- One request is sent, with a body exactly if it is a `POST` and there is something in it. -/
  sends : ∃ request, request.url = url ∧ request.method = method ∧ request.headers = headers ∧
    (∀ given, request.body = some given ↔ given = body ∧ method = .post ∧ body ≠ []) ∧
    client.Sends s request outcome next
  /-- The remembered envelope stays. -/
  lastEnvelope : next.lastEnvelope = s.lastEnvelope

/-- What a call does. -/
structure Calls (s : State) (action : Text) (parameters : Value) (outcome : Outcome)
    (next : State) : Prop where
  /-- If all names can be written, the envelope is remembered and sent in one request. -/
  sends : (∀ name ∈ action :: parameters.keys, Xml.isName name = true) →
    ∃ body request, client.callEnvelope action parameters = .ok body ∧
      next.lastEnvelope = some body ∧ request.method = .post ∧ request.body = some body ∧
      body ≠ [] ∧ client.Sends s request outcome next
  /-- If some name cannot be written, such a name is reported and nothing is sent. -/
  refuses : (∃ name ∈ action :: parameters.keys, Xml.isName name = false) →
    (∃ name ∈ action :: parameters.keys, Xml.isName name = false ∧
      outcome.answer = .error (.badElementName name)) ∧ SendsNothing s outcome next

theorem envelope_ne_nil (bindings : List Binding) (payload : Text) :
    envelope bindings payload ≠ [] := by
  rw [envelope, Text.joinWith, List.intercalate_cons_cons, List.append_assoc]
  exact List.append_ne_nil_of_left_ne_nil (by decide) _

theorem callEnvelope_eq (action : Text) (parameters : Value) :
    client.callEnvelope action parameters = Value.checked (action :: parameters.keys)
      (envelope client.settings.bindings (parameters.write action)) := by
  rw [callEnvelope, Value.render_eq, Value.map_checked]

theorem callEnvelope_of_forall_isName {action : Text} {parameters : Value}
    (h : ∀ name ∈ action :: parameters.keys, Xml.isName name = true) :
    client.callEnvelope action parameters
      = .ok (envelope client.settings.bindings (parameters.write action)) := by
  rw [callEnvelope_eq, Value.checked_of_forall_isName h]

theorem exists_callEnvelope_eq_error {action : Text} {parameters : Value}
    (h : ∃ name ∈ action :: parameters.keys, Xml.isName name = false) :
    ∃ name ∈ action :: parameters.keys, Xml.isName name = false ∧
      client.callEnvelope action parameters = .error (.badElementName name) := by
  rw [callEnvelope_eq]
  exact Value.exists_checked_eq_error h _

theorem body_prepare_eq_some_iff (url : Text) (method : Method) (body : Text)
    (headers : List (Text × Text)) (given : Text) :
    (client.prepare url method body headers).body = some given
      ↔ given = body ∧ method = .post ∧ body ≠ [] := by
  rw [prepare, Option.ite_none_right_eq_some, Option.some.injEq, and_comm, eq_comm]

theorem requests_request (url : Text) (method : Method) (body : Text)
    (headers : List (Text × Text)) (s : State) :
    client.Requests s url method body headers
      (client.step s (.request url method body headers)).1
      (client.step s (.request url method body headers)).2 :=
  ⟨⟨_, rfl, rfl, rfl, client.body_prepare_eq_some_iff url method body headers, rfl, rfl, rfl⟩, rfl⟩

theorem calls_call (action : Text) (parameters : Value) (s : State) :
    client.Calls s action parameters (client.call action parameters s).1
      (client.call action parameters s).2 := by
  rw [call]
  constructor
  · intro hnames
    have hok := client.callEnvelope_of_forall_isName hnames
    have hne := envelope_ne_nil client.settings.bindings (parameters.write action)
    rw [hok]
    exact ⟨_, _, rfl, rfl, rfl, (client.body_prepare_eq_some_iff ..).mpr ⟨rfl, rfl, hne⟩, hne, rfl,
      rfl, rfl⟩
  · intro hbad
    obtain ⟨name, hmem, hname, herror⟩ := client.exists_callEnvelope_eq_error hbad
    rw [herror]
    exact ⟨⟨name, hmem, hname, rfl⟩, rfl, rfl, rfl⟩

theorem calls_step {s : State} {step : Step} {action : Text} {parameters : Value}
    (h : step.called? s = some (action, parameters)) :
    client.Calls s action parameters (client.step s step).1 (client.step s step).2 := by
  cases step with
  | request url method body headers => exact absurd h (by simp [Step.called?])
  | call action' parameters' =>
    obtain ⟨rfl, rfl⟩ := Prod.mk.inj (Option.some.inj h)
    exact client.calls_call _ _ s
  | search action' repairer phrase parameters' =>
    obtain ⟨rfl, rfl⟩ := Prod.mk.inj (Option.some.inj h)
    -- The repair moves the supply on, which is none of a call's business.
    obtain ⟨hsends, hrefuses⟩ := client.calls_call action'
      (searchParameters (repairer.repair s.supply phrase).output parameters')
      { s with supply := (repairer.repair s.supply phrase).masked.supply }
    refine ⟨fun hnames ↦ ?_, fun hbad ↦ ?_⟩
    · obtain ⟨body, request, hbody, hlast, hmethod, hrequest, hne, hsent, hexchange, hanswer⟩ :=
        hsends hnames
      exact ⟨body, request, hbody, hlast, hmethod, hrequest, hne, hsent, hexchange, hanswer⟩
    · obtain ⟨hreported, hsent, hexchange, hlast⟩ := hrefuses hbad
      exact ⟨hreported, hsent, hexchange, hlast⟩

/-! ## What every step keeps

That everything sent with a body is a `POST` with something in it is an invariant of each step. What
is remembered needs the order of the steps. The last of two lists joined is that of the second
unless this is empty, which is how `lastEnvelope_after` goes through. -/

theorem exists_of_called?_eq_none {s : State} {step : Step} (h : step.called? s = none) :
    ∃ url method body headers, step = .request url method body headers := by
  cases step with
  | request url method body headers => exact ⟨url, method, body, headers, rfl⟩
  | call => exact absurd h (by simp [Step.called?])
  | search => exact absurd h (by simp [Step.called?])

/-- A call remembers its envelope as soon as it is ready, and nothing else is remembered. -/
theorem lastEnvelope_step (s : State) (step : Step) : (client.step s step).2.lastEnvelope
    = (client.envelope? s step).or s.lastEnvelope := by
  cases hcalled : step.called? s with
  | none =>
    obtain ⟨url, method, body, headers, rfl⟩ := exists_of_called?_eq_none hcalled
    rfl
  | some called =>
    obtain ⟨hsends, hrefuses⟩ := client.calls_step hcalled
    rw [envelope?, hcalled, Option.bind_some]
    rcases Value.forall_isName_or_exists (called.1 :: called.2.keys) with hnames | hbad
    · obtain ⟨body, request, hbody, hlast, -⟩ := hsends hnames
      rw [if_pos (List.all_eq_true.mpr hnames), hlast, hbody]
      rfl
    · have hall : ¬ (called.1 :: called.2.keys).all Xml.isName = true := by
        obtain ⟨name, hmem, hname⟩ := hbad
        exact fun h ↦ absurd (List.all_eq_true.mp h name hmem) (by simp [hname])
      rw [if_neg hall, (hrefuses hbad).2.lastEnvelope, Option.none_or]

/-- The remembered envelope is the last one that was ready. -/
theorem lastEnvelope_after (s : State) (steps : List Step) : (client.after s steps).lastEnvelope
    = (client.envelopes s steps).getLast?.or s.lastEnvelope := by
  induction steps generalizing s with
  | nil => rfl
  | cons step steps ih =>
    have hlast : (client.envelope? s step).toList.getLast? = client.envelope? s step := by
      cases client.envelope? s step <;> rfl
    rw [after, List.foldl_cons, ← after, ih, lastEnvelope_step, envelopes, List.getLast?_append,
      Option.or_assoc, hlast]

/-- A request has a body only if it is a `POST` and there is something in it. -/
def WellSent (request : Request) : Prop :=
  ∀ body, request.body = some body → request.method = .post ∧ body ≠ []

theorem wellSent_step {s : State} (hs : ∀ request ∈ s.sent, WellSent request) (step : Step) :
    ∀ request ∈ (client.step s step).2.sent, WellSent request := by
  -- A step sends one request at most.
  have hone : ∀ {request : Request} {outcome : Outcome} {next : State}, WellSent request →
      client.Sends s request outcome next → ∀ request ∈ next.sent, WellSent request := by
    intro request outcome next hrequest hsends other hother
    rw [hsends.sent, List.mem_append, List.mem_singleton] at hother
    rcases hother with hother | rfl
    · exact hs other hother
    · exact hrequest
  cases hcalled : step.called? s with
  | none =>
    obtain ⟨url, method, body, headers, rfl⟩ := exists_of_called?_eq_none hcalled
    obtain ⟨⟨request, -, hmethod, -, hbody, hsends⟩, -⟩ :=
      client.requests_request url method body headers s
    refine hone (fun given hgiven ↦ ?_) hsends
    obtain ⟨rfl, hpost, hne⟩ := (hbody given).mp hgiven
    exact ⟨hmethod.trans hpost, hne⟩
  | some called =>
    obtain ⟨hsends, hrefuses⟩ := client.calls_step hcalled
    rcases Value.forall_isName_or_exists (called.1 :: called.2.keys) with hnames | hbad
    · obtain ⟨body, request, -, -, hmethod, hbody, hne, hsends⟩ := hsends hnames
      refine hone (fun given hgiven ↦ ?_) hsends
      obtain rfl : body = given := Option.some.inj (hbody.symm.trans hgiven)
      exact ⟨hmethod, hne⟩
    · rw [(hrefuses hbad).2.sent]
      exact hs

theorem wellSent_after {s : State} (hs : ∀ request ∈ s.sent, WellSent request)
    (steps : List Step) : ∀ request ∈ (client.after s steps).sent, WellSent request :=
  List.foldlRecOn (motive := fun s : State ↦ ∀ request ∈ s.sent, WellSent request) steps
    (fun s step ↦ (client.step s step).2) hs fun _ hs step _ ↦ client.wellSent_step hs step

/-- **What a client sends and remembers.** In any run of steps, over any transport, a plain request
sends one request and leaves the remembered envelope alone. A call or a search sends its envelope in
one request if all its names can be written, and otherwise reports a name that cannot and neither
sends nor remembers anything. An answer is passed on as it is. The remembered envelope is always
that of the last call or search whose names could be written, whatever it was answered, and all that
has been sent with a body is a `POST` with something in it. -/
theorem run_accounted (supply : KeySupply) {steps : List Step} {i : Nat} {step : Step}
    (hstep : steps[i]? = some step) :
    ∃ outcome next, (client.run { supply } steps)[i]? = some (outcome, next) ∧
      (∀ url method body headers, step = .request url method body headers →
        client.Requests (client.after { supply } (steps.take i)) url method body headers
          outcome next) ∧
      (∀ action parameters,
        step.called? (client.after { supply } (steps.take i)) = some (action, parameters) →
        client.Calls (client.after { supply } (steps.take i)) action parameters outcome next) ∧
      next.lastEnvelope = (client.envelopes { supply } (steps.take (i + 1))).getLast? ∧
      ∀ request ∈ next.sent, WellSent request := by
  have hnext : (client.step (client.after { supply } (steps.take i)) step).2
      = client.after { supply } (steps.take (i + 1)) := by
    rw [List.take_add_one, hstep, after, after, List.foldl_append]
    rfl
  refine ⟨_, _, by rw [getElem?_run, hstep]; rfl, ?_, fun action parameters ↦ client.calls_step,
    ?_, ?_⟩
  · rintro url method body headers rfl
    exact client.requests_request url method body headers _
  · rw [hnext, lastEnvelope_after, Option.or_none]
  · exact client.wellSent_step (client.wellSent_after (by simp) _) step

end Steps

/-- The envelope of a search is remembered although its request fails, and neither a call with a
name that cannot be written nor a plain request after it changes that. -/
theorem run_accounted_after_failures :
    ∃ outcome next,
      (Client.run ⟨"http://x/".toList, {}, fun _ _ ↦ .error (.transport [] [])⟩ {}
        [.search "find".toList {} "a (b c)".toList [], .call "1".toList (.fields []),
          .request "http://y/".toList .get "z".toList []])[2]? = some (outcome, next) ∧
        next.lastEnvelope = some (envelope [envelopeBinding]
          "<find><query>a and &quot;(b c)&quot;</query></find>".toList) ∧
        next.sent.length = 2 := by
  obtain ⟨outcome, next, hrun, hrequest, -, hlast, -⟩ := run_accounted
    ⟨"http://x/".toList, {}, fun _ _ ↦ .error (.transport [] [])⟩ {}
    (show [Step.search "find".toList {} "a (b c)".toList [], .call "1".toList (.fields []),
      .request "http://y/".toList .get "z".toList []][2]? = some _ from rfl)
  obtain ⟨⟨request, -, -, -, -, hsends⟩, -⟩ := hrequest _ _ _ _ rfl
  refine ⟨outcome, next, hrun, hlast.trans (by decide +kernel), ?_⟩
  rw [hsends.sent, List.length_append, List.length_singleton]
  decide +kernel

end PhraseRepair.Soap.Client
