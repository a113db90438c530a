import PhraseRepair.Proofs.Gathering
import PhraseRepair.Proofs.Sessions

/-!
# The numbers that a session gives out

Every fragment that is hidden takes one number from the supply of the session, and nothing but a
direct request for a number takes another. So the numbers of all steps, one step after the other,
are the next ones of the supply that the session started with, and they repeat only once all of them
have been given out (`run_numbered`).

How many fragments a phrase has can be read off the phrase: two quotes each enclose a run, and of
the innermost groups all are hidden but those that are empty and kept (`length_fragments_mask`).
-/

namespace PhraseRepair

/-! ## The numbers of a supply -/

namespace KeySupply

variable (supply : KeySupply)

theorem length_take (n : Nat) : (supply.take n).length = n := by
  rw [take, List.length_map, List.length_range]

/-- Numbers that are given out later come from the supply as it is then. -/
theorem take_add (m n : Nat) :
    supply.take (m + n) = supply.take m ++ (supply.advance m).take n := by
  rw [take, List.range_add, List.map_append, List.map_map, take, take]
  exact congrArg _ (List.map_congr_left fun i _ ↦
    congrArg KeySupply.next (supply.advance_advance m i).symm)

/-- The numbers of a supply differ from each other until all have been given out. -/
theorem nodup_take {n : Nat} (hn : n ≤ 2 ^ 64) : (supply.take n).Nodup := by
  refine List.Nodup.map_on (fun i hi j hj h ↦ ?_) List.nodup_range
  rw [List.mem_range] at hi hj
  exact Outline.next_advance_injective (Nat.lt_of_lt_of_le hi hn) (Nat.lt_of_lt_of_le hj hn) h

end KeySupply

/-! ## Counting what is hidden

Every match that is hidden takes one number, and isolating takes none. So the number of fragments is
a count of matches. The keys that are put in for quoted runs decide which groups keep their
grouping, so groups are counted in the phrase with these keys in it. -/

/-- Whether an item is a match that is hidden. -/
def hides (treat : Match → Treatment) : Item → Bool
  | .plain _ => false
  | .hit m => treat m ≠ .leave

theorem length_hideItems (letters : Text) (treat : Match → Treatment) (supply : KeySupply)
    (items : List Item) :
    (hideItems letters treat supply items).2.length = items.countP (hides treat) := by
  induction items generalizing supply with
  | nil => rfl
  | cons item items ih =>
    cases item with
    | plain c => exact ih supply
    | hit m =>
      rw [hideItems]
      cases htreat : treat m with
      | leave => rw [List.countP_cons_of_neg (by simp [hides, htreat]), ih]
      | hide before content replacement after =>
        rw [List.countP_cons_of_pos (by simp [hides, htreat]), List.length_cons, ih]

namespace MaskedPhrase

variable (m : MaskedPhrase) (r : Recognizer) (treat : Match → Treatment)

theorem length_fragments_hideMatches : (m.hideMatches r treat).fragments.length
    = m.fragments.length + (r.scan m.phrase).countP (hides treat) := by
  rw [hideMatches, List.length_append, length_hideItems]

theorem supply_run {m : MaskedPhrase} {supply : KeySupply}
    (hm : m.supply = supply.advance m.fragments.length) (steps : List Step) :
    (m.run steps).supply = supply.advance (m.run steps).fragments.length := by
  induction steps generalizing m with
  | nil => exact hm
  | cons s steps ih =>
    obtain ⟨hidden, hfragments, hsupply⟩ := m.supply_step s
    refine ih (m := m.step s) ?_
    rw [hsupply, hm, KeySupply.advance_advance, hfragments, List.length_append]

end MaskedPhrase

theorem hides_treatQuotedRun : hides treatQuotedRun = Item.isHit := by
  funext item
  cases item <;> rfl

/-- Two quotes enclose a run, from left to right, and an odd one is left over. -/
theorem Cql.countP_scan_quotedRun (t : Text) :
    (quotedRun.scan t).countP Item.isHit = t.count '"' / 2 := by
  induction t using quotedRun.scan_induction with
  | nil => rfl
  | plain c t hread ih =>
    rw [quotedRun.scan_of_read_none hread, List.countP_cons_of_neg (by simp [Item.isHit]), ih]
    by_cases hc : c = '"'
    · -- A quote that is passed over is the odd one, and the last.
      subst hc
      rw [List.count_cons_self, List.count_eq_zero_of_not_mem (quote_notMem_of_read_none hread)]
    · rw [List.count_cons_of_ne hc]
  | hit m t hread ih =>
    obtain ⟨body, hquote, -, rfl⟩ := read_quotedRun_eq_some_iff.mp hread
    rw [quotedRun.scan_match_append hread, List.countP_cons_of_pos rfl, ih, List.count_append,
      Text.count_enclose_quotes, List.count_eq_zero_of_not_mem hquote]
    omega

/-- Whether an item is a group other than an empty one that is kept. -/
def isHiddenGroup (quoteBare : Bool) : Item → Bool
  | .plain _ => false
  | .hit group => !(group.value.isEmpty && keepsGrouping quoteBare group.value)

theorem hides_treatGroup (quoteBare : Bool) :
    hides (treatGroup quoteBare) = isHiddenGroup quoteBare := by
  funext item
  cases item with
  | plain c => rfl
  | hit group =>
    rw [hides, isHiddenGroup, treatGroup]
    cases keepsGrouping quoteBare group.value <;> cases group.value.isEmpty <;> rfl

namespace Repairer

variable (r : Repairer) (supply : KeySupply)

/-- The phrase with its quoted runs hidden. -/
def protectQuotes (t : Text) : MaskedPhrase :=
  (MaskedPhrase.start r.settings.keyLetters supply t).hideQuotedRuns

/-- The number of fragments that a phrase has: its quoted runs, and its innermost groups without the
empty ones that are kept. -/
def fragmentCount (t : Text) : Nat :=
  t.count '"' / 2 + (Cql.innermostGroup.scan (r.protectQuotes supply t).phrase).countP
    (isHiddenGroup r.settings.quoteBareGroups)

/-- **How many fragments are hidden.** -/
theorem length_fragments_mask (t : Text) :
    (r.mask supply t).fragments.length = r.fragmentCount supply t := by
  have hgroups : (r.mask supply t).fragments.length
      = ((r.protectQuotes supply t).hideGroups r.settings.quoteBareGroups).fragments.length := rfl
  rw [hgroups, MaskedPhrase.hideGroups, MaskedPhrase.length_fragments_hideMatches, protectQuotes,
    MaskedPhrase.hideQuotedRuns, MaskedPhrase.length_fragments_hideMatches, hides_treatQuotedRun,
    hides_treatGroup, MaskedPhrase.start, Cql.countP_scan_quotedRun, List.length_nil, Nat.zero_add]
  rfl

theorem supply_mask (t : Text) :
    (r.mask supply t).supply = supply.advance (r.mask supply t).fragments.length :=
  MaskedPhrase.supply_run supply.advance_zero.symm _

theorem keys_table_repair (input : Text) :
    (r.repair supply input).masked.table.entries.map Entry.key
      = (supply.take (r.repair supply input).masked.table.size).map
        (Placeholder.text r.settings.keyLetters) := by
  have hkeys := r.keys_repair supply input
  have hlength : (r.repair supply input).masked.table.size
      = (r.outline (normalize input)).hidden.length := by
    rw [MaskedPhrase.size_table, ← List.length_map Fragment.key, ← MaskedPhrase.keys, hkeys,
      List.length_map, List.length_range]
  rw [hlength, KeySupply.take, List.map_map, MaskedPhrase.table, List.map_map]
  exact hkeys

end Repairer

/-! ## Sessions

For each kind of step it is said which numbers it gives out and where the supply goes on. A run then
follows by induction, and that the numbers of all steps are consecutive comes from `take_add`. -/

namespace Session

/-- How a repair accounts for the numbers that it gives out. -/
structure AccountsFor (s : Session) (phrase : Text) (numbers : List UInt64) (report : Report) :
    Prop where
  /-- It is a report on the phrase. -/
  normalized : report.normalized = normalize phrase
  /-- There is a number for each entry of the table. -/
  size : report.masked.table.size = numbers.length
  /-- There is a number for each fragment of the phrase. -/
  count : numbers.length = s.repairer.fragmentCount s.supply report.normalized
  /-- The keys carry the numbers in order. -/
  keys : report.masked.table.entries.map Entry.key
    = numbers.map (Placeholder.text s.repairer.settings.keyLetters)

/-- How a step accounts for the numbers that it gives out. -/
structure Accounts (s : Session) (step : Step) (numbers : List UInt64) (outcome : Outcome)
    (next : Session) : Prop where
  /-- They are the next numbers of the supply. -/
  consecutive : numbers = s.supply.take numbers.length
  /-- The supply goes on behind them. -/
  supply : next.supply = s.supply.advance numbers.length
  /-- A repair gives out numbers for its keys. -/
  repaired : ∀ phrase, step.phrase? s.lastOutput = some phrase →
    ∃ report, outcome = .repaired report ∧ s.AccountsFor phrase numbers report
  /-- A request for a number gives out one. -/
  drawn : step = .drawKey → ∃ number, numbers = [number] ∧ outcome = .key number
  /-- Looking at the settings changes nothing. -/
  shown : step = .showSettings → numbers = [] ∧ next = s
  /-- New settings come without a number. -/
  reconfigured : ∀ given, step = .reconfigure given → numbers = []
  /-- Refused settings change nothing. -/
  refused : ∀ given e, step = .reconfigure given → given.fault? = some e →
    outcome = .refused e ∧ next = s

/-- The numbers that a repair of the phrase gives out. -/
private def numbersFor (s : Session) (phrase : Text) : List UInt64 :=
  s.supply.take (s.repairer.fragmentCount s.supply (normalize phrase))

private theorem length_numbersFor (s : Session) (phrase : Text) : (s.numbersFor phrase).length
    = (s.repairer.repair s.supply phrase).masked.fragments.length :=
  (KeySupply.length_take _ _).trans (s.repairer.length_fragments_mask s.supply _).symm

private theorem supply_repair (s : Session) (phrase : Text) :
    (s.repair phrase).2.supply = s.supply.advance (s.numbersFor phrase).length := by
  rw [length_numbersFor]
  exact s.repairer.supply_mask s.supply (normalize phrase)

private theorem accountsFor_repair (s : Session) (phrase : Text) :
    s.AccountsFor phrase (s.numbersFor phrase) (s.repairer.repair s.supply phrase) where
  normalized := rfl
  size := by rw [MaskedPhrase.size_table, length_numbersFor]
  count := KeySupply.length_take _ _
  keys := by
    rw [Repairer.keys_table_repair, MaskedPhrase.size_table, ← length_numbersFor, numbersFor,
      KeySupply.length_take]

theorem exists_accounts_step (s : Session) (step : Step) :
    ∃ numbers, s.Accounts step numbers (s.step step).1 (s.step step).2 := by
  have hrepair : ∀ phrase, s.numbersFor phrase = s.supply.take (s.numbersFor phrase).length :=
    fun phrase ↦ by rw [numbersFor, KeySupply.length_take]
  have hsupply := s.supply.advance_zero.symm
  cases step with
  | repair phrase =>
    refine ⟨_, hrepair phrase, s.supply_repair phrase, ?_, by simp, by simp, by simp, by simp⟩
    rintro given ⟨⟩
    exact ⟨_, rfl, s.accountsFor_repair phrase⟩
  | repairAgain =>
    refine ⟨_, hrepair s.lastOutput, s.supply_repair s.lastOutput, ?_, by simp, by simp, by simp,
      by simp⟩
    rintro given ⟨⟩
    exact ⟨_, rfl, s.accountsFor_repair s.lastOutput⟩
  | drawKey =>
    refine ⟨[s.supply.next], ?_, rfl, by simp [Step.phrase?], fun _ ↦ ⟨_, rfl, rfl⟩, by simp,
      by simp, by simp⟩
    rw [List.length_singleton, KeySupply.take, List.range_one, List.map_singleton,
      KeySupply.advance_zero]
  | showSettings =>
    exact ⟨[], rfl, hsupply, by simp [Step.phrase?], by simp, fun _ ↦ ⟨rfl, rfl⟩, by simp,
      by simp⟩
  | reconfigure given =>
    rw [Session.step]
    cases hgiven : Repairer.ofSettings given with
    | ok repairer =>
      refine ⟨[], rfl, hsupply, by simp [Step.phrase?], by simp, by simp, fun _ _ ↦ rfl, ?_⟩
      rintro given e ⟨⟩ hfault
      exact absurd (hfault.symm.trans (Repairer.of_ofSettings_eq_ok hgiven).1) (by simp)
    | error e =>
      refine ⟨[], rfl, hsupply, by simp [Step.phrase?], by simp, by simp, fun _ _ ↦ rfl, ?_⟩
      rintro given e' ⟨⟩ hfault
      obtain rfl :=
        Option.some.inj (hfault.symm.trans (Repairer.fault?_of_ofSettings_eq_error hgiven))
      exact ⟨rfl, rfl⟩

/-- The numbers that the steps of a session give out, one list for each step. -/
structure Numbered (s : Session) (steps : List Step) (numbers : List (List UInt64)) : Prop where
  /-- There is a list for each step. -/
  length : numbers.length = steps.length
  /-- Each step accounts for its own numbers. -/
  accounts : ∀ i step, steps[i]? = some step → ∃ drawn outcome next, numbers[i]? = some drawn ∧
    (s.run steps)[i]? = some (outcome, next) ∧
    (s.after (steps.take i)).Accounts step drawn outcome next
  /-- All together are the next numbers of the supply. -/
  consecutive : numbers.flatten = s.supply.take numbers.flatten.length

theorem Numbered.cons {s : Session} {step : Step} {steps : List Step} {drawn : List UInt64}
    {numbers : List (List UInt64)}
    (hdrawn : s.Accounts step drawn (s.step step).1 (s.step step).2)
    (h : (s.step step).2.Numbered steps numbers) :
    s.Numbered (step :: steps) (drawn :: numbers) := by
  refine ⟨by rw [List.length_cons, h.length, List.length_cons], fun i other hother ↦ ?_, ?_⟩
  · cases i with
    | zero =>
      obtain rfl := Option.some.inj hother
      exact ⟨drawn, _, _, rfl, rfl, hdrawn⟩
    | succ i => exact h.accounts i other hother
  · rw [List.flatten_cons, List.length_append, KeySupply.take_add, ← hdrawn.consecutive,
      ← hdrawn.supply, ← h.consecutive]

/-- **The numbers of a session.** Each step gives out the next numbers of the supply: a repair one
for each fragment of its phrase, a request for a number one, and any other step none. Refused
settings change nothing. So the numbers of all steps together are the next ones of the supply that
the session started with, and they differ from each other as long as there are at most `2 ^ 64` of
them. -/
theorem run_numbered (s : Session) (steps : List Step) :
    ∃ numbers, s.Numbered steps numbers ∧
      (numbers.flatten.length ≤ 2 ^ 64 → numbers.flatten.Nodup) := by
  suffices h : ∃ numbers, s.Numbered steps numbers by
    obtain ⟨numbers, h⟩ := h
    exact ⟨numbers, h, fun hle ↦ h.consecutive ▸ s.supply.nodup_take hle⟩
  induction steps generalizing s with
  | nil => exact ⟨[], rfl, by simp, rfl⟩
  | cons step steps ih =>
    obtain ⟨drawn, hdrawn⟩ := s.exists_accounts_step step
    obtain ⟨numbers, hnumbers⟩ := ih (s.step step).2
    exact ⟨drawn :: numbers, hnumbers.cons hdrawn⟩

/-- A phrase with a quoted run and two groups after a number has been drawn and settings have been
refused, where the numbers wrap around. -/
theorem run_numbered_across_wrap : ∃ numbers,
    Session.Numbered ⟨{}, ⟨18446744073709551614⟩, []⟩
      [.drawKey, .reconfigure { keyLetters := [] }, .repair "\"a\" (b) ()".toList] numbers ∧
    numbers.flatten = [18446744073709551614, 18446744073709551615, 0, 1] ∧
    numbers.flatten.Nodup := by
  obtain ⟨numbers, h, hdistinct⟩ := run_numbered ⟨{}, ⟨18446744073709551614⟩, []⟩
    [.drawKey, .reconfigure { keyLetters := [] }, .repair "\"a\" (b) ()".toList]
  obtain ⟨a, b, c, rfl⟩ := List.length_eq_three.mp h.length
  obtain ⟨_, _, _, ⟨⟩, -, hdrawn⟩ := h.accounts 0 _ rfl
  obtain ⟨_, _, _, ⟨⟩, -, hrefused⟩ := h.accounts 1 _ rfl
  obtain ⟨_, _, _, ⟨⟩, -, hrepaired⟩ := h.accounts 2 _ rfl
  obtain ⟨number, rfl, -⟩ := hdrawn.drawn rfl
  obtain rfl := hrefused.reconfigured _ rfl
  obtain ⟨report, -, hreport⟩ := hrepaired.repaired _ rfl
  have hcount : c.length = 3 := by
    rw [hreport.count, hreport.normalized]
    decide +kernel
  have hlength : [[number], [], c].flatten.length = 4 := by simp [hcount]
  refine ⟨_, h, ?_, hdistinct (by rw [hlength]; decide)⟩
  rw [h.consecutive, hlength]
  decide

end Session

end PhraseRepair
