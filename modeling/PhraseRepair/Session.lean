import PhraseRepair.Repair

/-!
# Sessions

A session repairs one phrase after the other with numbers from one supply. Its settings can be
exchanged on the way; settings with a fault are refused and change nothing.
-/

namespace PhraseRepair

/-- The state of a session. -/
structure Session where
  /-- The repairer with the current settings. -/
  repairer : Repairer
  /-- The numbers still to be given out. -/
  supply : KeySupply
  /-- The last repaired phrase, empty at first. -/
  lastOutput : Text := []

namespace Session

/-- What can be asked of a session. -/
inductive Step
  | repair (phrase : Text)
  | repairAgain
  | drawKey
  | showSettings
  | reconfigure (settings : Settings)
  deriving DecidableEq, Repr

/-- What a session answers. -/
inductive Outcome
  | repaired (report : Report)
  | key (number : UInt64)
  | settings (settings : Settings)
  | refused (e : SettingsError)
  deriving DecidableEq, Repr

/-- The session once a phrase has been repaired. -/
def repair (s : Session) (phrase : Text) : Outcome × Session :=
  let report := s.repairer.repair s.supply phrase
  (.repaired report, { s with supply := report.masked.supply, lastOutput := report.output })

/-- Takes one step. -/
def step (s : Session) : Step → Outcome × Session
  | .repair phrase => s.repair phrase
  | .repairAgain => s.repair s.lastOutput
  | .drawKey => (.key s.supply.next, { s with supply := s.supply.advance 1 })
  | .showSettings => (.settings s.repairer.settings, s)
  | .reconfigure settings => match Repairer.ofSettings settings with
    | .ok repairer => (.settings settings, { s with repairer })
    | .error e => (.refused e, s)

/-- Takes the steps in order: each outcome with the session after it. -/
def run (s : Session) : List Step → List (Outcome × Session)
  | [] => []
  | step :: steps =>
    let next := s.step step
    next :: run next.2 steps

end Session

end PhraseRepair
