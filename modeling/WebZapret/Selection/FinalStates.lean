import WebZapret.Selection.SingleFlight

/-!
# Final job states

A poll and a cancel write back the record that they loaded earlier. When the collector of the run
has written in between, its `done` or `error` is replaced by `lost` or `cancelling`; and between
the collector's `wait` and its write a poll finds the process gone and calls the run lost.

**Theorem (`final_states_iff`).** A run of the panel keeps the final states final, and the record
of a run that is being collected from reading `lost`, exactly when every write of a poll, of a
cancel and of a start is a write that `KeepsFinal` allows.
-/

namespace WebZapret.Selection

namespace State

variable {ρ : Type*} {s t : State ρ}

/-- The collector has recorded the end of the run. -/
def Recorded (s : State ρ) (i : Nat) : Prop := (s.procs i).phase = .collected

/-- The collector of the run has been started and has not recorded its end. -/
def Collecting (s : State ρ) (i : Nat) : Prop :=
  (s.procs i).collecting ∧ (s.procs i).phase ≠ .collected

/-- A recorded run is not running, cancelling or lost, and one that is being collected is not
lost. -/
structure FinalStates (s : State ρ) : Prop where
  final : ∀ i, s.Recorded i → s.job.run = (s.procs i).run →
    s.job.state ≠ .running ∧ s.job.state ≠ .cancelling ∧ s.job.state ≠ .lost
  collecting : ∀ i, s.Collecting i → s.job.run = (s.procs i).run → s.job.state ≠ .lost

/-- No `running` or `cancelling` for a run that is recorded, and no `lost` for a run whose
collector has been started. -/
def KeepsFinal (s : State ρ) : Label ρ → Prop
  | .save run => ∀ i, s.Recorded i → run ≠ (s.procs i).run
  | .savePid => ∀ run j, s.lock = .start (.launched run j) →
      ∀ i, s.Recorded i → run ≠ (s.procs i).run
  | .saveCancelling => ∀ job, s.lock = .cancel (.killed job) →
      ∀ i, s.Recorded i → job.run ≠ (s.procs i).run
  | .pollSave r => ∀ job, s.polls r = .dead job →
      ∀ i, s.Recorded i ∨ s.Collecting i → job.run ≠ (s.procs i).run
  | _ => True

/-! ## What a step does to the property -/

theorem finalStates_init (job : Job) : FinalStates (init job : State ρ) where
  final _ h := by cases h
  collecting _ h := by cases h.1

/-- The property looks at the record and the processes only. -/
theorem finalStates_congr (h : FinalStates s) (hjob : t.job = s.job)
    (hprocs : ∀ i, t.procs i = s.procs i ∨ (t.procs i).phase ≠ .collected ∧
      ((t.procs i).collecting = true → s.Collecting i ∧ (t.procs i).run = (s.procs i).run)) :
    FinalStates t := by
  constructor
  · intro i hi hrun
    rcases hprocs i with heq | ⟨hphase, _⟩
    · rw [hjob]
      apply h.final i
      · rwa [Recorded, ← heq]
      · rw [← heq, ← hjob, hrun]
    · exact absurd hi hphase
  · intro i hi hrun
    rw [hjob]
    rcases hprocs i with heq | ⟨_, hcollecting⟩
    · apply h.collecting i
      · rwa [Collecting, ← heq]
      · rw [← heq, ← hjob, hrun]
    · obtain ⟨hs, hsame⟩ := hcollecting hi.1
      apply h.collecting i hs
      rw [← hsame, ← hjob, hrun]

/-- Writing `done` or `error`. -/
theorem finalStates_of_end (h : t.job.state = .done ∨ t.job.state = .error) : FinalStates t := by
  constructor
  · intro i _ _
    rcases h with h | h <;> simp [h]
  · intro i _ _
    rcases h with h | h <;> simp [h]

/-- Writing `running` or `cancelling`. -/
theorem finalStates_iff_of_active (h : t.job.state = .running ∨ t.job.state = .cancelling) :
    FinalStates t ↔ ∀ i, t.Recorded i → t.job.run ≠ (t.procs i).run := by
  constructor
  · intro ht i hi hrun
    obtain ⟨hrunning, hcancelling, _⟩ := ht.final i hi hrun
    rcases h with h | h
    · exact hrunning h
    · exact hcancelling h
  · intro hfresh
    constructor
    · intro i hi hrun
      exact absurd hrun (hfresh i hi)
    · intro i _ _
      rcases h with h | h <;> simp [h]

/-- Writing `lost`. -/
theorem finalStates_iff_of_lost (h : t.job.state = .lost) :
    FinalStates t ↔ ∀ i, t.Recorded i ∨ t.Collecting i → t.job.run ≠ (t.procs i).run := by
  constructor
  · intro ht i hi hrun
    rcases hi with hi | hi
    · exact (ht.final i hi hrun).2.2 h
    · exact ht.collecting i hi hrun h
  · intro hfresh
    constructor
    · intro i hi hrun
      exact absurd hrun (hfresh i (.inl hi))
    · intro i hi hrun
      exact absurd hrun (hfresh i (.inr hi))

/-- A process that goes from one phase to a later one, before its collector records its end. -/
theorem finalStates_setPhase {i : Nat} {phase : Phase} (hphase : phase ≠ .collected)
    (hs : (s.procs i).phase ≠ .collected) (h : FinalStates s) :
    FinalStates (s.setPhase i phase) := by
  refine finalStates_congr h rfl fun j => ?_
  by_cases hij : j = i
  · subst hij
    right
    have hself : (s.setPhase j phase).procs j = { s.procs j with phase := phase } := by
      simp [setPhase, setProc]
    rw [hself]
    exact ⟨hphase, fun hcollecting => ⟨⟨hcollecting, hs⟩, rfl⟩⟩
  · left
    simp only [setPhase, setProc, Function.update_of_ne hij]

/-- A process that has just been launched. -/
theorem finalStates_launch {run pid : Nat} {l : Lock} {n : Nat} (h : FinalStates s) :
    FinalStates { s.setProc s.count ⟨.live, run, pid, false⟩ with lock := l, count := n } := by
  refine finalStates_congr h rfl fun j => ?_
  by_cases hij : j = s.count
  · subst hij
    right
    simp [setProc]
  · left
    simp only [setProc, Function.update_of_ne hij]

/-- A step that moves only the holder of the lock. -/
theorem finalStates_lock {l : Lock} (h : FinalStates s) : FinalStates { s with lock := l } :=
  finalStates_congr h rfl fun _ => .inl rfl

variable [DecidableEq ρ]

/-- **The writes decide.** A step from a state with the property leads to one exactly when its
write is allowed. -/
theorem finalStates_step {a : Label ρ} (h : FinalStates s) (hstep : s.step a = some t) :
    FinalStates t ↔ s.KeepsFinal a := by
  cases steps_of_step hstep with
  | start | refuse | check | prepare | launchFails | cancel | cancelCheck | kill =>
    exact iff_of_true (finalStates_lock h) trivial
  | save hl => exact finalStates_iff_of_active (.inl rfl)
  | launch => exact iff_of_true (finalStates_launch h) trivial
  | saveError => exact iff_of_true (finalStates_of_end (.inr rfl)) trivial
  | @savePid run j hl =>
    rw [finalStates_iff_of_active (.inl rfl)]
    -- starting the collector changes neither the phase nor the run of a process
    have hsame : ∀ i, ((s.setProc j { s.procs j with collecting := true }).procs i).phase =
        (s.procs i).phase ∧
        ((s.setProc j { s.procs j with collecting := true }).procs i).run = (s.procs i).run := by
      intro i
      by_cases hij : i = j
      · subst hij
        simp [setProc]
      · simp [setProc, Function.update_of_ne hij]
    constructor
    · intro hfresh run' j' hl' i hi
      rw [hl] at hl'
      cases hl'
      have hne := hfresh i ((hsame i).1.trans hi)
      rwa [(hsame i).2] at hne
    · intro hkeeps i hi
      rw [(hsame i).2]
      exact hkeeps run j hl i ((hsame i).1.symm.trans hi)
  | @saveCancelling job hl =>
    rw [finalStates_iff_of_active (.inr rfl)]
    constructor
    · intro hfresh job' hl'
      rw [hl] at hl'
      cases hl'
      exact hfresh
    · intro hkeeps
      exact hkeeps job hl
  | poll | pollCheck => exact iff_of_true (finalStates_congr h rfl fun _ => .inl rfl) trivial
  | @pollSave r job hpoll =>
    rw [finalStates_iff_of_lost rfl]
    constructor
    · intro hfresh job' hpoll'
      rw [hpoll] at hpoll'
      cases hpoll'
      exact hfresh
    · intro hkeeps
      exact hkeeps job hpoll
  | exit hlive =>
    refine iff_of_true (finalStates_setPhase (by decide) ?_ h) trivial
    rw [hlive]
    decide
  | wait hexited =>
    refine iff_of_true (finalStates_setPhase (by decide) ?_ h) trivial
    rw [hexited]
    decide
  | @collect i ok =>
    refine iff_of_true (finalStates_of_end ?_) trivial
    cases ok with
    | false => exact .inr rfl
    | true => exact .inl rfl

/-- **Final states are final** in exactly the runs whose writes are allowed. -/
theorem final_states_iff (job : Job) (labels : List (Label ρ)) :
    machine.Always FinalStates (init job : State ρ) labels ↔
      machine.Guarded KeepsFinal (init job : State ρ) labels :=
  machine.always_iff_guarded (I := fun _ => True) (fun _ _ _ _ _ _ _ => trivial)
    (fun _ _ _ _ hs hstep => finalStates_step hs hstep) trivial (finalStates_init job)

/-- One run: a poll finds its process gone after the collector has waited for it, and writes
after the collector has recorded `done`. -/
def polledAtItsEnd : List (Label Unit) :=
  [.start, .check false, .prepare true, .save 1, .launch 100, .savePid, .exit 0, .wait 0,
    .poll (), .pollCheck () false, .collect 0 true, .pollSave ()]

/-- **A finished run is lost.** -/
theorem done_then_lost :
    (∃ t, machine.run (init ⟨.idle, 0, none⟩) polledAtItsEnd = some t ∧
      t.Recorded 0 ∧ t.job = ⟨.lost, 1, some 100⟩) ∧
    ¬machine.Always FinalStates (init ⟨.idle, 0, none⟩) polledAtItsEnd := by
  obtain ⟨t, hrun⟩ : ∃ t, machine.run (init ⟨.idle, 0, none⟩) polledAtItsEnd = some t := ⟨_, rfl⟩
  have hend : t.Recorded 0 ∧ t.job = ⟨.lost, 1, some 100⟩ ∧ (t.procs 0).run = 1 := by
    cases hrun
    exact ⟨rfl, rfl, rfl⟩
  refine ⟨⟨t, hrun, hend.1, hend.2.1⟩, fun halways => ?_⟩
  have hfinal := (halways.last hrun).final 0 hend.1 (by rw [hend.2.1, hend.2.2])
  exact hfinal.2.2 (by rw [hend.2.1])

end State

end WebZapret.Selection
