import WebZapret.Selection.Isolation
import WebZapret.Lib.Deadline

/-!
# The deadline of a run

`run` gives each step the time that is left of `job_timeout`, but five seconds at least. So every
step that starts after the deadline adds its five seconds, and the run ends within one such period
of the deadline exactly if it cannot start more than two steps (`run_endsInTime_iff`): with one domain,
but not with two. Times are exact numbers here, and only the steps take time.
-/

namespace WebZapret.Selection

open Py Failing

variable [Tables]

/-! ## The steps that are started -/

/-- How long the steps of a domain last. -/
structure Durations where
  scan : Rat
  check : Rat

variable (env : RunEnv) (settings : Dict)

/-- The second step of a domain, if it is started. -/
def checkTimes (item : Planned) (e : Events) (d : Durations) : List Rat :=
  match runStep item.check e.checkBudget e.check with
  | .ok _ => [d.check]
  | .error _ => []

/-- The steps of a domain that are started, by how long they last. -/
def stepTimes (item : Planned) (e : Events) (d : Durations) : List Rat :=
  match runStep item.scan e.scanBudget e.scan with
  | .error _ => []
  | .ok (rc, _) =>
    d.scan ::
      if rc ≠ 0 then []
      else
        match parseScanReport env.loads e.scanReport with
        | .ok (some scan) => if scan.strategies = [] then [] else checkTimes item e d
        | _ => []

/-- The steps of a run that are started; an exception ends it. -/
def runTimes (durations : Nat → Durations) : List (Planned × Nat) → List Rat
  | [] => []
  | (item, i) :: rest =>
    stepTimes env item (env.events i) (durations i) ++
      match domainStep env settings item (env.events i) with
      | .ok _ => runTimes durations rest
      | .error _ => []

/-- `max(5, deadline - time.time())` is the time that each step is given, from the start on. -/
def InTime (jobTimeout : Rat) (times : List Rat) : Prop := Within 5 jobTimeout 0 times

/-! ## The steps that can be started -/

/-- The arguments can be passed on. -/
def launches (cmd : List Json) : Bool :=
  match argTexts cmd with
  | .ok args => decide (∀ a ∈ args, Launchable a)
  | .error _ => false

/-- How many steps a run can start: two for each domain, if their command lines can be passed on. -/
def startable : List Planned → Nat
  | [] => 0
  | item :: rest =>
    if launches item.scan then (if launches item.check then 2 else 1) + startable rest else 0

variable {env settings}

omit [Tables] in
theorem runStep_launches {cmd : List Json} (h : launches cmd = true) (budget : Printed)
    (outcome : StepOutcome) : runStep cmd budget outcome = .ok (outcome.rc, outcome.note budget) := by
  cases hargs : argTexts cmd with
  | error e =>
    rw [launches, hargs] at h
    cases h
  | ok args =>
    rw [launches, hargs] at h
    exact bind_eq_ok.mpr ⟨args, hargs, if_pos (of_decide_eq_true h)⟩

omit [Tables] in
theorem runStep_not_launches {cmd : List Json} (h : launches cmd = false) (budget : Printed)
    (outcome : StepOutcome) : ∃ e, runStep cmd budget outcome = .error e := by
  cases hargs : argTexts cmd with
  | error e => exact ⟨e, bind_eq_error.mpr (.inl hargs)⟩
  | ok args =>
    rw [launches, hargs] at h
    exact ⟨_, bind_eq_error.mpr (.inr ⟨args, hargs, if_neg (of_decide_eq_false h)⟩)⟩

section Steps

variable {item : Planned} {e : Events} {d : Durations}

omit [Tables] in
theorem checkTimes_of_step {step : Int × Str}
    (h : runStep item.check e.checkBudget e.check = .ok step) :
    checkTimes item e d = [d.check] := by
  rw [checkTimes, h]

omit [Tables] in
theorem length_checkTimes_le (item : Planned) (e : Events) (d : Durations) :
    (checkTimes item e d).length ≤ if launches item.check then 1 else 0 := by
  cases h : launches item.check with
  | true =>
    rw [checkTimes_of_step (runStep_launches h _ _)]
    rfl
  | false =>
    obtain ⟨error, herror⟩ := runStep_not_launches h e.checkBudget e.check
    rw [checkTimes, herror]
    rfl

/-- A domain has one step, or two if its second command line can be passed on. -/
theorem length_stepTimes_le :
    (stepTimes env item e d).length ≤ if launches item.check then 2 else 1 := by
  have hcheck := length_checkTimes_le item e d
  have hle : ∀ times, times = [] ∨ times = checkTimes item e d →
      (d.scan :: times).length ≤ if launches item.check then 2 else 1 := by
    intro times htimes
    have htimes : times.length ≤ if launches item.check then 1 else 0 := by
      rcases htimes with rfl | rfl
      · exact Nat.zero_le _
      · exact hcheck
    rw [List.length_cons]
    cases hlaunch : launches item.check with
    | true => simpa [hlaunch] using htimes
    | false => simpa [hlaunch] using htimes
  unfold stepTimes
  split
  · exact Nat.zero_le _
  · apply hle
    split
    · exact .inl rfl
    · split
      · split
        · exact .inl rfl
        · exact .inr rfl
      · exact .inl rfl

theorem domainStep_not_launches (env : RunEnv) (settings : Dict) (e : Events) (d : Durations)
    (h : launches item.scan = false) :
    (∃ error, domainStep env settings item e = .error error) ∧ stepTimes env item e d = [] := by
  obtain ⟨error, herror⟩ := runStep_not_launches h e.scanBudget e.scan
  refine ⟨⟨error, bind_eq_error.mpr (.inl herror)⟩, ?_⟩
  rw [stepTimes, herror]

end Steps

/-- No more steps are started than can be. -/
theorem length_runTimes_le (env : RunEnv) (settings : Dict) (durations : Nat → Durations)
    (runs : List Planned) (k : Nat) :
    (runTimes env settings durations (runs.zipIdx k)).length ≤ startable runs := by
  induction runs generalizing k with
  | nil => exact Nat.zero_le _
  | cons item runs ih =>
    rw [List.zipIdx_cons, runTimes, startable, List.length_append]
    cases hlaunch : launches item.scan with
    | false =>
      obtain ⟨⟨error, herror⟩, htimes⟩ := domainStep_not_launches env settings (env.events k)
        (durations k) hlaunch
      rw [htimes, herror]
      exact Nat.zero_le _
    | true =>
      rw [if_pos rfl]
      refine Nat.add_le_add length_stepTimes_le ?_
      split
      · exact ih (k + 1)
      · exact Nat.zero_le _

/-- **How long a run lasts**: until its deadline, and five seconds more for each step but the first
that can be started. -/
theorem runTimes_sum_le {jobTimeout : Rat} (hjob : 5 ≤ jobTimeout) {durations : Nat → Durations}
    {runs : List Planned}
    (h : InTime jobTimeout (runTimes env settings durations runs.zipIdx)) :
    (runTimes env settings durations runs.zipIdx).sum ≤ jobTimeout + 5 * (startable runs - 1 : Nat) := by
  have hlength := length_runTimes_le env settings durations runs 0
  cases htimes : runTimes env settings durations runs.zipIdx with
  | nil =>
    rw [List.sum_nil]
    positivity
  | cons d ds =>
    rw [htimes] at h hlength
    refine (sum_le_of_within (by norm_num) hjob h).trans ?_
    have hle : ds.length ≤ startable runs - 1 := Nat.le_sub_one_of_lt hlength
    have hcast : (ds.length : Rat) ≤ (startable runs - 1 : Nat) := Nat.cast_le.mpr hle
    linarith

/-! ## A run that takes all the time there is -/

/-- A report with one strategy. -/
def oneStrategy : Json :=
  .obj [(lit "strategies", .arr [.obj [(lit "args", .str (lit "x"))]])]

theorem parse_oneStrategy (loads : Str → Option Json) :
    ∃ scan, parseScanReport loads (some oneStrategy) = .ok (some scan) ∧ scan.strategies ≠ [] :=
  ⟨_, rfl, List.cons_ne_nil _ _⟩

/-- Both steps of the domain are started; the first one fails if the other cannot be. -/
def busyEvents (item : Planned) : Events where
  scan := .exit (if launches item.check then 0 else 1)
  scanBudget := ⟨[], nofun⟩
  scanReport := some oneStrategy
  check := .exit 1
  checkBudget := ⟨[], nofun⟩
  checkReport := none

/-- A check that is started and fails leaves a record. -/
theorem checkStep_failed (env : RunEnv) (settings : Dict) {item : Planned} {e : Events}
    (h : launches item.check = true) (hrc : e.check.rc ≠ 0) (dom : DomRecord) :
    ∃ r, checkStep env settings item e dom = .ok r :=
  ⟨_, bind_eq_ok.mpr ⟨_, runStep_launches h _ _, if_pos hrc⟩⟩

theorem busy_domainStep (env : RunEnv) (settings : Dict) (item : Planned) (d : Durations)
    (h : launches item.scan = true) :
    (∃ r, domainStep env settings item (busyEvents item) = .ok r) ∧
      stepTimes env item (busyEvents item) d =
        d.scan :: if launches item.check then [d.check] else [] := by
  have hscan := runStep_launches h (busyEvents item).scanBudget (busyEvents item).scan
  cases hlaunch : launches item.check with
  | false =>
    have hrc : (busyEvents item).scan.rc ≠ 0 := by simp [busyEvents, hlaunch, StepOutcome.rc]
    refine ⟨⟨_, bind_eq_ok.mpr ⟨_, hscan, if_pos hrc⟩⟩, ?_⟩
    rw [stepTimes, hscan]
    dsimp only
    rw [if_pos hrc]
    rfl
  | true =>
    have hrc : ¬(busyEvents item).scan.rc ≠ 0 := by simp [busyEvents, hlaunch, StepOutcome.rc]
    have hcheck := runStep_launches hlaunch (busyEvents item).checkBudget (busyEvents item).check
    obtain ⟨scan, hparse, hne⟩ := parse_oneStrategy env.loads
    constructor
    · obtain ⟨r, hr⟩ := checkStep_failed env settings (e := busyEvents item) hlaunch
        Int.one_ne_zero (DomRecord.withScan
          { DomRecord.blank item.domain with scanRc := some (busyEvents item).scan.rc } scan)
      exact ⟨r, bind_eq_ok.mpr ⟨_, hscan, (if_neg hrc).trans
        (bind_eq_ok.mpr ⟨_, hparse, (if_neg hne).trans hr⟩)⟩⟩
    · rw [stepTimes, hscan]
      dsimp only
      rw [if_neg hrc, show (busyEvents item).scanReport = some oneStrategy from rfl, hparse]
      dsimp only
      rw [if_neg hne, checkTimes_of_step hcheck, if_pos rfl]

/-- In a run whose domains all are busy as many steps are started as can be. -/
theorem runTimes_busy (env : RunEnv) (settings : Dict) {durations : Nat → Durations}
    {runs : List Planned} {k : Nat}
    (hevents : ∀ j item, runs[j]? = some item → env.events (k + j) = busyEvents item)
    (hdurations : ∀ j, k ≤ j → durations j = ⟨5, 5⟩) :
    runTimes env settings durations (runs.zipIdx k) = List.replicate (startable runs) 5 := by
  induction runs generalizing k with
  | nil => rfl
  | cons item runs ih =>
    have hevent := hevents 0 item rfl
    rw [Nat.add_zero] at hevent
    rw [List.zipIdx_cons, runTimes, startable, hevent, hdurations k le_rfl]
    cases hlaunch : launches item.scan with
    | false =>
      obtain ⟨⟨error, herror⟩, htimes⟩ := domainStep_not_launches env settings (busyEvents item) ⟨5, 5⟩
        hlaunch
      rw [htimes, herror]
      rfl
    | true =>
      obtain ⟨⟨r, hr⟩, htimes⟩ := busy_domainStep env settings item ⟨5, 5⟩ hlaunch
      have hrest := ih (k := k + 1)
        (fun j next hnext => by rw [Nat.add_assoc, Nat.add_comm 1]; exact hevents (j + 1) next hnext)
        (fun j hj => hdurations j (Nat.le_of_succ_le hj))
      rw [htimes, hr, if_pos rfl]
      dsimp only
      rw [hrest]
      cases launches item.check with
      | true => simp [Nat.add_comm 2, List.replicate_succ]
      | false => simp [Nat.add_comm 1, List.replicate_succ]

/-! ## Which runs end in time -/

/-- Whatever the steps do within the time they are given, the run ends at most five seconds after
its deadline. -/
def EndsInTime (env : RunEnv) (settings : Dict) (jobTimeout : Rat) (runs : List Planned) : Prop :=
  ∀ (events : Nat → Events) (durations : Nat → Durations),
    InTime jobTimeout (runTimes { env with events } settings durations runs.zipIdx) →
      (runTimes { env with events } settings durations runs.zipIdx).sum ≤ jobTimeout + 5

/-- The steps of a run whose first one lasts until the deadline. -/
theorem runTimes_late (env : RunEnv) (settings : Dict) {runs : List Planned}
    (h : 0 < startable runs) (jobTimeout : Rat) :
    ∃ (events : Nat → Events) (durations : Nat → Durations),
      runTimes { env with events } settings durations runs.zipIdx =
        jobTimeout :: List.replicate (startable runs - 1) 5 := by
  cases runs with
  | nil => exact absurd h (Nat.lt_irrefl 0)
  | cons item runs =>
    have hlaunch : launches item.scan = true := by
      by_contra hnot
      rw [startable, if_neg hnot] at h
      exact Nat.lt_irrefl 0 h
    let events : Nat → Events := fun i => busyEvents ((item :: runs).getD i item)
    let durations : Nat → Durations := fun i => ⟨if i = 0 then jobTimeout else 5, 5⟩
    refine ⟨events, durations, ?_⟩
    obtain ⟨⟨r, hr⟩, htimes⟩ := busy_domainStep { env with events } settings item
      (durations 0) hlaunch
    have hevents : ∀ j next, runs[j]? = some next → events (1 + j) = busyEvents next := by
      intro j next hnext
      have hget : (item :: runs).getD (1 + j) item = next := by
        rw [Nat.add_comm, List.getD_cons_succ, List.getD_eq_getElem?_getD, hnext]
        rfl
      exact congrArg busyEvents hget
    have hdurations : ∀ j, 1 ≤ j → durations j = ⟨5, 5⟩ :=
      fun j hj => congrArg (Durations.mk · 5) (if_neg (by omega))
    have hrest := runTimes_busy { env with events } settings hevents hdurations
    rw [List.zipIdx_cons, runTimes, startable, if_pos hlaunch]
    have hevent : ({ env with events }).events 0 = busyEvents item := rfl
    rw [hevent, htimes, hr]
    dsimp only
    rw [Nat.zero_add, hrest]
    cases launches item.check with
    | true => simp [durations, Nat.add_comm 2, List.replicate_succ]
    | false => simp [durations, Nat.add_comm 1]

/-- A run ends in time exactly if it cannot start more than two steps. -/
theorem endsInTime_iff {jobTimeout : Rat} (hjob : 5 ≤ jobTimeout) (env : RunEnv) (settings : Dict)
    (runs : List Planned) : EndsInTime env settings jobTimeout runs ↔ startable runs ≤ 2 := by
  constructor
  · intro h
    by_contra hmany
    obtain ⟨events, durations, htimes⟩ := runTimes_late env settings (by omega : 0 < startable runs)
      jobTimeout
    have hlate := h events durations
    rw [htimes, sum_late] at hlate
    have hle := hlate (within_late (by norm_num) (by linarith) _)
    have hcast : (2 : Rat) ≤ (startable runs - 1 : Nat) := by
      exact_mod_cast (by omega : 2 ≤ startable runs - 1)
    linarith
  · intro hfew events durations htimes
    refine (runTimes_sum_le hjob htimes).trans ?_
    have hcast : ((startable runs - 1 : Nat) : Rat) ≤ 1 := by
      exact_mod_cast (by omega : startable runs - 1 ≤ 1)
    linarith

omit [Tables] in
theorem startable_eq {runs : List Planned}
    (h : ∀ item ∈ runs, launches item.scan = true ∧ launches item.check = true) :
    startable runs = 2 * runs.length := by
  induction runs with
  | nil => rfl
  | cons item runs ih =>
    obtain ⟨⟨hscan, hcheck⟩, hruns⟩ := List.forall_mem_cons.mp h
    rw [startable, if_pos hscan, if_pos hcheck, ih hruns, List.length_cons]
    omega

/-- Where every command line can be passed on, only a run of one domain ends in time. -/
theorem endsInTime_iff_single {jobTimeout : Rat} (hjob : 5 ≤ jobTimeout) (env : RunEnv)
    (settings : Dict) {runs : List Planned}
    (h : ∀ item ∈ runs, launches item.scan = true ∧ launches item.check = true) :
    EndsInTime env settings jobTimeout runs ↔ runs.length ≤ 1 := by
  rw [endsInTime_iff hjob, startable_eq h]
  omega

/-- **Which runs the job timeout bounds**: those that cannot start more than two steps. -/
theorem run_endsInTime_iff {base values : Dict} (hbase : Values Clean settingsSpec base)
    {n : Normalized} (hn : normalizeSettings values base = .ok n) (env : RunEnv) (runDir : Str) :
    ∃ (jobTimeout : Int) (p : RunPlan),
      n.settings.lookup (lit "job_timeout") = some (.int jobTimeout) ∧
        plan n.settings runDir = .ok p ∧
        (EndsInTime env n.settings jobTimeout p.runs ↔ startable p.runs ≤ 2) := by
  have hclean := normalizeSettings_clean hbase hn
  obtain ⟨seconds, hseconds, hlow, _⟩ := values_int hclean
    (show intSpec "job_timeout" 3600 60 14400 ∈ settingsSpec from
      List.mem_of_getElem? (i := 27) rfl)
  obtain ⟨p, hp⟩ := run_planned hclean runDir
  refine ⟨seconds, p, hseconds, hp.plan, endsInTime_iff ?_ env n.settings p.runs⟩
  exact_mod_cast (by omega : 5 ≤ seconds)

omit [Tables] in
theorem run_endsInTime_iff_default :
    letI := Tables.ascii
    ∃ n, normalizeSettings [] (settingsDefaults fun _ => none) = .ok n ∧
      ∃ (jobTimeout : Int) (p : RunPlan),
        n.settings.lookup (lit "job_timeout") = some (.int jobTimeout) ∧
          plan n.settings (lit "/run") = .ok p ∧
          (EndsInTime (scannedEnv malformedThenGood) n.settings jobTimeout p.runs ↔
            startable p.runs ≤ 2) := by
  let _ := Tables.ascii
  obtain ⟨n, hn⟩ := normalizeSettings_ok (fun _ => none) []
  exact ⟨n, hn, run_endsInTime_iff (defaults_clean fun _ => none) hn
    (scannedEnv malformedThenGood) (lit "/run")⟩

/-- The plan of two domains. -/
def planTwo : Result (Normalized × RunPlan) := do
  let n ← settingsFromFile (fun _ => none) twoDomains
  let p ← plan n.settings (lit "/run")
  return (n, p)

omit [Tables] in
/-- Both steps of both domains can be started. -/
theorem planTwo_startable :
    letI := Tables.ascii
    planTwo.toOption.any (fun out => out.1.errors.isEmpty && out.2.runs.length == 2 &&
      startable out.2.runs == 4) = true := by decide +kernel

omit [Tables] in
/-- Two domains, whose second steps start after the deadline. -/
theorem run_late :
    letI := Tables.ascii
    ∃ n p, settingsFromFile (fun _ => none) twoDomains = .ok n ∧ n.errors = [] ∧
      plan n.settings (lit "/run") = .ok p ∧ p.runs.length = 2 ∧
      ∃ jobTimeout : Int, n.settings.lookup (lit "job_timeout") = some (.int jobTimeout) ∧
        ¬EndsInTime (scannedEnv malformedThenGood) n.settings jobTimeout p.runs := by
  let _ := Tables.ascii
  have hany := planTwo_startable
  cases hout : planTwo with
  | error e =>
    rw [hout] at hany
    cases hany
  | ok out =>
    rw [hout] at hany
    simp only [Except.toOption, Option.any_some, Bool.and_eq_true, List.isEmpty_iff,
      beq_iff_eq] at hany
    obtain ⟨⟨herrors, hlength⟩, hmany⟩ := hany
    obtain ⟨n, hn, hrest⟩ := bind_eq_ok.mp hout
    obtain ⟨p, hp, hret⟩ := bind_eq_ok.mp hrest
    cases hret
    have hclean := normalizeSettings_clean (defaults_clean fun _ => none) hn
    obtain ⟨seconds, hseconds, hlow, _⟩ := values_int hclean
      (show intSpec "job_timeout" 3600 60 14400 ∈ settingsSpec from
        List.mem_of_getElem? (i := 27) rfl)
    refine ⟨n, p, hn, herrors, hp, hlength, seconds, hseconds, ?_⟩
    rw [endsInTime_iff (by exact_mod_cast (by omega : 5 ≤ seconds)), hmany]
    decide

end WebZapret.Selection
