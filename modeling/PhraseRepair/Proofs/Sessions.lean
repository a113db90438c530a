import PhraseRepair.Proofs.Respelling
import PhraseRepair.Proofs.Runs
import PhraseRepair.Session

/-!
# Sessions without a memory

A session carries its supply of numbers from one phrase to the next, and its settings can be
exchanged on the way. Of all that has happened before, a repair notices the settings in force only
(`repair_alike_whatever_came_before`). It comes to the same result as a repairer that has never
been used, with the characters and the flag of these settings and whatever letters and numbers.
-/

namespace PhraseRepair

namespace Repairer

theorem of_ofSettings_eq_ok {settings : Settings} {r : Repairer}
    (h : ofSettings settings = .ok r) : settings.fault? = none ∧ r.settings = settings := by
  rw [ofSettings] at h
  split at h
  · next hfault =>
    rw [← Except.ok.inj h]
    exact ⟨hfault, rfl⟩
  · exact absurd h (by simp)

theorem fault?_of_ofSettings_eq_error {settings : Settings} {e : SettingsError}
    (h : ofSettings settings = .error e) : settings.fault? = some e := by
  rw [ofSettings] at h
  split at h
  · exact absurd h (by simp)
  · next e' hfault =>
    rw [← Except.error.inj h]
    exact hfault

end Repairer

namespace Session

/-! ## Steps of a session

Of a session, a repair reads the repairer and the supply. The repairer is that of the settings in
force (`settings_after`), and the supply makes no difference to a report but for its keys. -/

/-- The session once the steps have been taken. -/
def after (s : Session) (steps : List Step) : Session :=
  steps.foldl (fun s step ↦ (s.step step).2) s

/-- The settings in force once the steps have been taken: the last ones given that have no fault. -/
def settingsAfter (settings : Settings) (steps : List Step) : Settings :=
  steps.foldl (fun settings step ↦ match step with
    | .reconfigure given => if given.fault? = none then given else settings
    | _ => settings) settings

/-- The phrase that a step repairs, if it repairs one. -/
def Step.phrase? (lastOutput : Text) : Step → Option Text
  | repair phrase => some phrase
  | repairAgain => some lastOutput
  | _ => none

theorem getElem?_run (s : Session) (steps : List Step) (i : Nat) :
    (s.run steps)[i]? = steps[i]?.map (s.after (steps.take i)).step :=
  getElem?_of_run (fun _ ↦ rfl) (fun _ _ _ ↦ rfl) s steps i

theorem settings_step (s : Session) (step : Step) : (s.step step).2.repairer.settings
    = settingsAfter s.repairer.settings [step] := by
  cases step with
  | reconfigure given =>
    rw [Session.step, settingsAfter, List.foldl_cons, List.foldl_nil]
    cases hgiven : Repairer.ofSettings given with
    | ok repairer =>
      obtain ⟨hfault, hsettings⟩ := Repairer.of_ofSettings_eq_ok hgiven
      exact hsettings.trans (if_pos hfault).symm
    | error e =>
      have hfault := Repairer.fault?_of_ofSettings_eq_error hgiven
      exact (if_neg (by simp [hfault])).symm
  | _ => rfl

theorem settings_after (s : Session) (steps : List Step) :
    (s.after steps).repairer.settings = settingsAfter s.repairer.settings steps := by
  induction steps generalizing s with
  | nil => rfl
  | cons step steps ih =>
    rw [after, List.foldl_cons, ← after, ih, settings_step]
    rfl

/-- A step that repairs a phrase reports what the repairer of the session finds out about it. -/
theorem step_of_phrase?_eq_some {s : Session} {step : Step} {phrase : Text}
    (h : step.phrase? s.lastOutput = some phrase) : s.step step = s.repair phrase := by
  cases step with
  | repair given =>
    rw [← Option.some.inj h]
    rfl
  | repairAgain =>
    rw [← Option.some.inj h]
    rfl
  | _ => exact absurd h (by simp [Step.phrase?])

end Session

/-- **Results depend neither on keys nor on history.** Two repairers that reserve the same
characters and quote the same groups find the same out about a phrase, but for the keys. So whatever
happened in a session before a phrase is repaired, its report is that of any fresh repairer with the
characters and the flag in force. -/
theorem repair_alike_whatever_came_before :
    (∀ (r r' : Repairer) (supply supply' : KeySupply) (input : Text),
      r.settings.reserved = r'.settings.reserved →
      r.settings.quoteBareGroups = r'.settings.quoteBareGroups →
      (r.repair supply input).Alike (r'.repair supply' input)) ∧
    ∀ (s : Session) (steps : List Session.Step) (i : Nat) (step : Session.Step) (phrase : Text),
      steps[i]? = some step →
      step.phrase? (s.after (steps.take i)).lastOutput = some phrase →
      ∃ report next, (s.run steps)[i]? = some (.repaired report, next) ∧
        next.lastOutput = report.output ∧
        ∀ (fresh : Repairer) (supply : KeySupply),
          fresh.settings.reserved
            = (Session.settingsAfter s.repairer.settings (steps.take i)).reserved →
          fresh.settings.quoteBareGroups
            = (Session.settingsAfter s.repairer.settings (steps.take i)).quoteBareGroups →
          report.Alike (fresh.repair supply phrase) := by
  refine ⟨fun r r' supply supply' input ↦ Repairer.alike_repair supply supply' input,
    fun s steps i step phrase hstep hphrase ↦ ?_⟩
  have hrun : (s.run steps)[i]? = some ((s.after (steps.take i)).repair phrase) := by
    rw [Session.getElem?_run, hstep, Option.map_some, Session.step_of_phrase?_eq_some hphrase]
  refine ⟨_, _, hrun, rfl, fun fresh supply hreserved hbare ↦
    Repairer.alike_repair _ supply phrase ?_ ?_⟩
  · rw [Session.settings_after, hreserved]
  · rw [Session.settings_after, hbare]

/-- A phrase with fragments on both sides of the wrap, and a phrase repaired after a number has been
drawn, settings have been refused and others taken. -/
theorem repair_alike_after_reconfiguration :
    (({ settings := { keyLetters := "qq".toList }
        valid := Settings.fault?_eq_none_iff.mp (by decide +kernel) } : Repairer).repair
          ⟨18446744073709551615⟩ "a \"b c\" (d) (\"e\" or f/g)".toList).Alike
      (({} : Repairer).repair {} "a \"b c\" (d) (\"e\" or f/g)".toList) ∧
    ∃ report next, (Session.run ⟨{}, {}, []⟩ [.drawKey, .reconfigure { keyLetters := [] },
        .reconfigure { keyLetters := "qq".toList, reserved := ['-'] },
        .repair "a (b-c) d-e".toList])[3]? = some (.repaired report, next) ∧
      report.output = "a and \"(b-c)\" and d and \"-\" and e".toList := by
  refine ⟨repair_alike_whatever_came_before.1 _ _ _ _ _ rfl rfl, ?_⟩
  obtain ⟨report, next, hrun, -, halike⟩ := repair_alike_whatever_came_before.2 ⟨{}, {}, []⟩
    [.drawKey, .reconfigure { keyLetters := [] },
      .reconfigure { keyLetters := "qq".toList, reserved := ['-'] },
      .repair "a (b-c) d-e".toList] 3 _ _ rfl rfl
  have hfresh := (halike ⟨{ reserved := ['-'] }, Settings.fault?_eq_none_iff.mp (by decide +kernel)⟩
    {} (by decide +kernel) (by decide +kernel)).output
  exact ⟨report, next, hrun, hfresh.trans (by decide +kernel)⟩

end PhraseRepair
