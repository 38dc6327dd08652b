import WebZapret.Selection.Job

/-!
# Single flight

At most one harness runs, and the job record names it whenever no start is in progress. A start
that finds the record `running` with its pid alive is refused, and the lock keeps every other
start out between that test and the launch; so a harness is launched only while none is live, in
the runs in which

* no start tests a `cancelling` record while a harness is live, which the test does not refuse, and
* the writes made without the lock do not land while a harness is live, unless the start that has
  launched it is about to write the record anyway.

Main results: `single_flight_of_careful` and `cancel_then_start`.
-/

namespace WebZapret.Selection

/-- The record is this process's, and can block a second start or be cancelled. -/
structure Names (job : Job) (p : Proc) : Prop where
  state : job.state = .running ∨ job.state = .cancelling
  run : job.run = p.run
  pid : job.pid = some p.pid

/-- A start has passed its test and has not launched its harness. -/
def Lock.Tested : Lock → Prop
  | .start .checked => True
  | .start .ready => True
  | .start (.saved _) => True
  | .start (.failed _) => True
  | _ => False

/-- A start has launched its harness and will write the record before it releases the lock. -/
def Lock.Launched : Lock → Prop
  | .start (.launched _ _) => True
  | _ => False

/-- The record that the holder of the lock has loaded and goes by. -/
def Lock.snapshot : Lock → Option Job
  | .start (.loaded job) => some job
  | .cancel (.loaded job) => some job
  | .cancel (.checked job) => some job
  | .cancel (.killed job) => some job
  | _ => none

namespace State

variable {ρ : Type*}

def Live (s : State ρ) (i : Nat) : Prop := (s.procs i).phase = .live

/-- `bcw_start_run` holds the lock. -/
def StartInProgress (s : State ρ) : Prop := ∃ pc, s.lock = .start pc

structure SingleFlight (s : State ρ) : Prop where
  one : ∀ i j, s.Live i → s.Live j → i = j
  named : ¬s.StartInProgress → ∀ i, s.Live i → Names s.job (s.procs i)

/-- No start tests the record of a cancelled harness that is still live, and no write without the
lock hides a live one. -/
def Careful (s : State ρ) : Label ρ → Prop
  | .check _ => ∀ job, s.lock = .start (.loaded job) → job.state = .cancelling → ∀ i, ¬s.Live i
  | .pollSave _ => s.lock.Launched ∨ ∀ i, ¬s.Live i
  | .collect _ _ => s.lock.Launched ∨ ∀ i, ¬s.Live i
  | _ => True

structure Inv (s : State ρ) : Prop where
  one : ∀ i j, s.Live i → s.Live j → i = j
  counted : ∀ i, s.Live i → i < s.count
  tested : s.lock.Tested → ∀ i, ¬s.Live i
  named : ¬s.lock.Launched → ∀ i, s.Live i → Names s.job (s.procs i)
  launched : ∀ run i, s.lock = .start (.launched run i) →
    (s.procs i).run = run ∧ ∀ j, s.Live j → j = i
  snapshot : ∀ job, s.lock.snapshot = some job → ∀ i, s.Live i → Names job (s.procs i)

theorem Inv.singleFlight {s : State ρ} (h : Inv s) : SingleFlight s where
  one := h.one
  named hstart := by
    refine h.named fun hlaunched => hstart ?_
    cases hl : s.lock with
    | free => exact absurd hlaunched (by simp [hl, Lock.Launched])
    | start pc => exact ⟨pc, hl⟩
    | cancel pc => exact absurd hlaunched (by simp [hl, Lock.Launched])

theorem inv_init (job : Job) : Inv (init job : State ρ) where
  one _ _ h := by cases h
  counted _ h := by cases h
  tested h := by cases h
  named _ _ h := by cases h
  launched _ _ h := by cases h
  snapshot _ h := by cases h

variable {s : State ρ}

/-! ## What the test finds -/

/-- The pid of a live harness is in use. -/
theorem inUse_of_live {i : Nat} (hi : s.Live i) (hcount : i < s.count) :
    s.inUse (s.procs i).pid = true := by
  rw [inUse, List.any_eq_true]
  refine ⟨i, List.mem_range.mpr hcount, ?_⟩
  have hphase : (s.procs i).phase = .live := hi
  simp [hphase]

/-- A `running` record that names a live harness refuses the start. -/
theorem inProgress_of_live {job : Job} {foreign : Bool} {i : Nat} (hi : s.Live i)
    (hcount : i < s.count) (hrunning : job.state = .running)
    (hpid : job.pid = some (s.procs i).pid) : s.inProgress foreign job = true := by
  rw [inProgress, hpid, pidAlive, inUse_of_live hi hcount, hrunning]
  rfl

/-- **The test of a start.** Where it passes and the record is not a cancelled live harness's, no
harness is live. -/
theorem none_live_of_check {job : Job} {foreign : Bool} (h : Inv s)
    (hl : s.lock = .start (.loaded job)) (hidle : s.inProgress foreign job = false)
    (hcareful : job.state = .cancelling → ∀ i, ¬s.Live i) : ∀ i, ¬s.Live i := by
  intro i hi
  have hnames : Names job (s.procs i) := h.snapshot job (by rw [hl]; rfl) i hi
  rcases hnames.state with hrunning | hcancelling
  · have hbusy : s.inProgress foreign job = true :=
      inProgress_of_live hi (h.counted i hi) hrunning hnames.pid
    rw [hidle] at hbusy
    cases hbusy
  · exact hcareful hcancelling i hi

/-! ## What the steps change -/

/-- A step that only moves the holder of the lock. -/
theorem inv_lock {l : Lock} (h : Inv s) (hheld : ¬s.lock.Launched)
    (htested : l.Tested → ∀ i, ¬s.Live i) (hlaunched : ∀ run i, l ≠ .start (.launched run i))
    (hsnapshot : ∀ job, l.snapshot = some job → s.lock.snapshot = some job ∨ job = s.job) :
    Inv { s with lock := l } where
  one := h.one
  counted := h.counted
  tested := htested
  named _ := h.named hheld
  launched run i hl := absurd hl (hlaunched run i)
  snapshot job hjob i hi := by
    rcases hsnapshot job hjob with hs | rfl
    · exact h.snapshot job hs i hi
    · exact h.named hheld i hi

/-- A step of the holder of the lock that writes the record. -/
theorem inv_save {l : Lock} {job : Job} (h : Inv s)
    (hnamed : ∀ i, s.Live i → Names job (s.procs i))
    (htested : l.Tested → ∀ i, ¬s.Live i)
    (hlaunched : ∀ run i, l ≠ .start (.launched run i)) (hsnapshot : l.snapshot = none) :
    Inv { s with lock := l, job := job } where
  one := h.one
  counted := h.counted
  tested := htested
  named _ := hnamed
  launched run i hl := absurd hl (hlaunched run i)
  snapshot job' hjob := by
    rw [hsnapshot] at hjob
    cases hjob

/-- A write without the lock. -/
theorem inv_note {job : Job} (h : Inv s) (hg : s.lock.Launched ∨ ∀ i, ¬s.Live i) :
    Inv { s with job := job } where
  one := h.one
  counted := h.counted
  tested := h.tested
  named hl i hi := by
    rcases hg with hlaunched | hnone
    · exact absurd hlaunched hl
    · exact absurd hi (hnone i)
  launched := h.launched
  snapshot := h.snapshot

theorem live_of_setProc {i j : Nat} {p : Proc} (hphase : p.phase = .live → s.Live i)
    (hj : (s.setProc i p).Live j) : s.Live j := by
  by_cases hij : j = i
  · subst hij
    exact hphase (by simpa [Live, setProc] using hj)
  · simpa [Live, setProc, Function.update_of_ne hij] using hj

/-- A change of one process that does not make it live. -/
theorem inv_setProc {i : Nat} {p : Proc} (h : Inv s) (hrun : p.run = (s.procs i).run)
    (hpid : p.pid = (s.procs i).pid) (hphase : p.phase = .live → s.Live i) :
    Inv (s.setProc i p) := by
  have hlive : ∀ j, (s.setProc i p).Live j → s.Live j := fun j => live_of_setProc hphase
  have hsame : ∀ j, ((s.setProc i p).procs j).run = (s.procs j).run ∧
      ((s.setProc i p).procs j).pid = (s.procs j).pid := by
    intro j
    by_cases hij : j = i
    · subst hij
      simp [setProc, hrun, hpid]
    · simp [setProc, Function.update_of_ne hij]
  have hnames : ∀ job j, Names job (s.procs j) → Names job ((s.setProc i p).procs j) :=
    fun job j hj =>
      ⟨hj.state, hj.run.trans (hsame j).1.symm, hj.pid.trans (congrArg some (hsame j).2.symm)⟩
  constructor
  · exact fun j k hj hk => h.one j k (hlive j hj) (hlive k hk)
  · exact fun j hj => h.counted j (hlive j hj)
  · exact fun hl j hj => h.tested hl j (hlive j hj)
  · exact fun hl j hj => hnames s.job j (h.named hl j (hlive j hj))
  · intro run j hl
    obtain ⟨hr, honly⟩ := h.launched run j hl
    exact ⟨(hsame j).1.trans hr, fun k hk => honly k (hlive k hk)⟩
  · exact fun job hjob j hj => hnames job j (h.snapshot job hjob j (hlive j hj))

theorem inv_setPhase {i : Nat} {phase : Phase} (h : Inv s) (hphase : phase ≠ .live) :
    Inv (s.setPhase i phase) :=
  inv_setProc h rfl rfl fun hlive => absurd hlive hphase

/-- A launch while no harness is live. -/
theorem inv_launch {run pid : Nat} (hnone : ∀ i, ¬s.Live i) :
    Inv { s.setProc s.count ⟨.live, run, pid, false⟩ with
      lock := .start (.launched run s.count)
      count := s.count + 1 } := by
  have honly : ∀ j, (s.setProc s.count ⟨.live, run, pid, false⟩).Live j → j = s.count := by
    intro j hj
    by_contra hne
    refine hnone j ?_
    simpa [Live, setProc, Function.update_of_ne hne] using hj
  constructor
  · intro i j hi hj
    rw [honly i hi, honly j hj]
  · intro i hi
    rw [honly i hi]
    exact Nat.lt_succ_self s.count
  · intro hl
    cases hl
  · intro hl
    exact absurd trivial hl
  · intro run' i hl
    cases hl
    exact ⟨by simp [setProc], honly⟩
  · intro job hjob
    cases hjob

variable [DecidableEq ρ]

/-- A poll's own state is not the invariant's. -/
theorem inv_setPoll {r : ρ} {p : Poll} (h : Inv s) : Inv (s.setPoll r p) :=
  ⟨h.one, h.counted, h.tested, h.named, h.launched, h.snapshot⟩

/-- **A careful step keeps the invariant.** -/
theorem inv_step {t : State ρ} {a : Label ρ} (h : Inv s) (hg : s.Careful a)
    (hstep : s.step a = some t) : Inv t := by
  cases steps_of_step hstep with
  | start hfree =>
    refine inv_lock h (by simp [hfree, Lock.Launched]) (by simp [Lock.Tested]) (by simp)
      fun job hjob => .inr ?_
    exact (Option.some.inj hjob).symm
  | refuse hl =>
    exact inv_lock h (by simp [hl, Lock.Launched]) (by simp [Lock.Tested]) (by simp)
      (by simp [Lock.snapshot])
  | @check foreign job hl hidle =>
    have hnone : ∀ i, ¬s.Live i := none_live_of_check h hl hidle (hg job hl)
    exact inv_lock h (by simp [hl, Lock.Launched]) (fun _ => hnone) (by simp)
      (by simp [Lock.snapshot])
  | @prepare ok hl =>
    have hnone : ∀ i, ¬s.Live i := h.tested (by rw [hl]; trivial)
    cases ok with
    | false =>
      exact inv_lock h (by simp [hl, Lock.Launched]) (by simp [Lock.Tested]) (by simp)
        (by simp [Lock.snapshot])
    | true =>
      exact inv_lock h (by simp [hl, Lock.Launched]) (fun _ => hnone) (by simp)
        (by simp [Lock.snapshot])
  | save hl =>
    have hnone : ∀ i, ¬s.Live i := h.tested (by rw [hl]; trivial)
    exact inv_save h (fun i hi => absurd hi (hnone i)) (fun _ => hnone) (by simp) rfl
  | launch hl => exact inv_launch (h.tested (by rw [hl]; trivial))
  | launchFails hl =>
    have hnone : ∀ i, ¬s.Live i := h.tested (by rw [hl]; trivial)
    exact inv_lock h (by simp [hl, Lock.Launched]) (fun _ => hnone) (by simp)
      (by simp [Lock.snapshot])
  | saveError hl =>
    have hnone : ∀ i, ¬s.Live i := h.tested (by rw [hl]; trivial)
    exact inv_save h (fun i hi => absurd hi (hnone i)) (by simp [Lock.Tested]) (by simp) rfl
  | @savePid run i hl =>
    obtain ⟨hrun, honly⟩ := h.launched run i hl
    have hproc : Inv (s.setProc i { s.procs i with collecting := true }) :=
      inv_setProc h rfl rfl id
    refine inv_save hproc (fun j hj => ?_) (by simp [Lock.Tested]) (by simp) rfl
    have hj : j = i := (hproc.launched run i hl).2 j hj
    subst hj
    exact ⟨.inl rfl, by simp [setProc, hrun], by simp [setProc]⟩
  | cancel hfree =>
    refine inv_lock h (by simp [hfree, Lock.Launched]) (by simp [Lock.Tested]) (by simp)
      fun job hjob => .inr ?_
    exact (Option.some.inj hjob).symm
  | cancelCheck hl | kill hl =>
    refine inv_lock h (by simp [hl, Lock.Launched]) (fun htested => ?_) (fun run i => ?_)
      fun job' hjob => .inl ?_
    · split at htested <;> cases htested
    · split <;> simp
    · rw [hl]
      split at hjob
      · exact hjob
      · cases hjob
  | @saveCancelling job hl =>
    refine inv_save h (fun i hi => ?_) (by simp [Lock.Tested]) (by simp) rfl
    have hnames : Names job (s.procs i) := h.snapshot job (by rw [hl]; rfl) i hi
    exact ⟨.inr rfl, hnames.run, hnames.pid⟩
  | poll | pollCheck => exact inv_setPoll h
  | pollSave => exact inv_note (inv_setPoll h) hg
  | exit | wait => exact inv_setPhase h (by decide)
  | collect =>
    refine inv_note (inv_setPhase h (by decide)) ?_
    rcases hg with hlaunched | hnone
    · exact .inl hlaunched
    · exact .inr fun j hj => hnone j (live_of_setProc (by simp) hj)

/-- **Careful runs are single flight**: in every state of a run whose steps are careful, at most
one harness is live, and when no start is in progress the record names it. -/
theorem single_flight_of_careful (job : Job) (labels : List (Label ρ))
    (h : machine.Guarded Careful (init job : State ρ) labels) :
    machine.Always SingleFlight (init job : State ρ) labels :=
  (machine.always_of_guarded (fun _ _ _ hi hg hs => inv_step hi hg hs) (inv_init job) h).mono
    fun _ hi => hi.singleFlight

/-- A run that refuses a second start, is polled and cancelled, and ends; the next start tests the
record before the collector has replaced it, and launches its harness afterwards. -/
def startAfterTheEnd : List (Label Unit) :=
  [.start, .check false, .prepare true, .save 1, .launch 100, .savePid,
    .start, .check false, .poll (), .pollCheck () false,
    .cancel, .cancelCheck false, .kill true, .saveCancelling, .exit 0,
    .start, .check false, .wait 0, .collect 0 false, .prepare true, .save 2, .launch 101, .savePid]

theorem single_flight_of_careful_startAfterTheEnd :
    machine.Guarded Careful (init ⟨.idle, 0, none⟩) startAfterTheEnd ∧
    machine.Always SingleFlight (init ⟨.idle, 0, none⟩) startAfterTheEnd := by
  have hcareful : machine.Guarded Careful (init ⟨.idle, 0, none⟩) startAfterTheEnd := by
    -- the first start finds `idle`, the second one `running`
    refine .cons rfl trivial <| .cons rfl ?_ <| .cons rfl trivial <| .cons rfl trivial <|
      .cons rfl trivial <| .cons rfl trivial <| .cons rfl trivial <| .cons rfl ?_ <|
      .cons rfl trivial <| .cons rfl trivial <| .cons rfl trivial <| .cons rfl trivial <|
      .cons rfl trivial <| .cons rfl trivial <| .cons rfl trivial <| .cons rfl trivial <|
      .cons rfl ?_ <| .cons rfl trivial <| .cons rfl (.inr ?_) <| .cons rfl trivial <|
      .cons rfl trivial <| .cons rfl trivial <| .cons rfl trivial trivial
    · intro job hl hstate
      cases hl
      cases hstate
    · intro job hl hstate
      cases hl
      cases hstate
    -- the third finds `cancelling`, when the only harness has exited
    · intro job _ _ i hi
      cases i with
      | zero => cases hi
      | succ i => cases hi
    · intro i hi
      cases i with
      | zero => cases hi
      | succ i => cases hi
  exact ⟨hcareful, single_flight_of_careful _ startAfterTheEnd hcareful⟩

/-! ## A start after a cancel -/

/-- A run is started and cancelled, and another one is started while the first harness still
shuts down. -/
def cancelThenStart : List (Label Unit) :=
  [.start, .check false, .prepare true, .save 1, .launch 100, .savePid,
    .cancel, .cancelCheck false, .kill true, .saveCancelling,
    .start, .check false, .prepare true, .save 2, .launch 101, .savePid]

/-- **Two harnesses at once.** The state `cancelling` does not block the second start. -/
theorem cancel_then_start :
    (∃ t, machine.run (init ⟨.idle, 0, none⟩) cancelThenStart = some t ∧ t.lock = .free ∧
      t.Live 0 ∧ t.Live 1 ∧ t.job = ⟨.running, 2, some 101⟩) ∧
    ¬machine.Always SingleFlight (init ⟨.idle, 0, none⟩) cancelThenStart := by
  obtain ⟨t, hrun⟩ : ∃ t, machine.run (init ⟨.idle, 0, none⟩) cancelThenStart = some t := ⟨_, rfl⟩
  have hboth : t.Live 0 ∧ t.Live 1 := by
    cases hrun
    exact ⟨rfl, rfl⟩
  refine ⟨⟨t, hrun, ?_, hboth.1, hboth.2, ?_⟩, fun halways => ?_⟩
  · cases hrun
    rfl
  · cases hrun
    rfl
  · cases (halways.last hrun).one 0 1 hboth.1 hboth.2

end State

end WebZapret.Selection
