import WebZapret.Lib.Machine
import Mathlib.Logic.Function.Basic
import Mathlib.Tactic.Common

/-!
# The job record of the selection runs

`bcw_start_run`, `bcw_cancel`, `bcw_overview` and `_bcw_collect` share the job file. The first two
work under `_BCW_LOCK`; a poll that found the run's process gone and a collector whose process has
ended write the record they read before without it.

Every read and write of the file, every test of a process and every launch is one step. A process
that has exited stays in the process table until its collector waits for it, and its pid counts
as alive until then; afterwards the pid may be given to another process (`foreign`).

Main results: `single_flight_of_careful`, and the run `cancel_then_start` in which a second harness
is launched while the cancelled one still shuts down.
-/

namespace WebZapret.Selection

/-- `job["state"]`; `idle` when the file has none. -/
inductive JobState where
  | idle
  | running
  | cancelling
  | lost
  | done
  | error
  deriving DecidableEq

/-- The job record: its state, the run's id and the harness's pid. -/
structure Job where
  state : JobState
  run : Nat
  pid : Option Nat
  deriving DecidableEq

/-- A harness process; `exited` is a zombie, `reaped` and `collected` are before and after the
collector's write. -/
inductive Phase where
  | absent
  | live
  | exited
  | reaped
  | collected
  deriving DecidableEq

structure Proc where
  phase : Phase
  run : Nat
  pid : Nat
  /-- `_bcw_collect` has been started for it -/
  collecting : Bool

/-- Where `bcw_start_run` is while it holds the lock. -/
inductive Starting where
  | loaded (job : Job)
  | checked
  /-- about to save the job without a pid -/
  | ready
  | saved (run : Nat)
  /-- `Popen` has raised -/
  | failed (run : Nat)
  /-- `Popen` has returned process `i` -/
  | launched (run i : Nat)
  deriving DecidableEq

/-- Where `bcw_cancel` is while it holds the lock. -/
inductive Cancelling where
  | loaded (job : Job)
  | checked (job : Job)
  | killed (job : Job)
  deriving DecidableEq

/-- `_BCW_LOCK` and what its holder is doing. -/
inductive Lock where
  | free
  | start (pc : Starting)
  | cancel (pc : Cancelling)
  deriving DecidableEq

/-- Where a `bcw_overview` is. -/
inductive Poll where
  | idle
  | loaded (job : Job)
  /-- the run's process was not alive -/
  | dead (job : Job)
  deriving DecidableEq

structure State (ρ : Type*) where
  job : Job
  lock : Lock
  polls : ρ → Poll
  procs : Nat → Proc
  count : Nat

inductive Label (ρ : Type*) where
  /-- `bcw_start_run` takes the lock and loads the job -/
  | start
  | check (foreign : Bool)
  /-- settings, run directory and settings file, or one of the error returns -/
  | prepare (ok : Bool)
  | save (run : Nat)
  | launch (pid : Nat)
  | launchFails
  | saveError
  | savePid
  /-- `bcw_cancel` takes the lock and loads the job -/
  | cancel
  | cancelCheck (foreign : Bool)
  | kill (sent : Bool)
  | saveCancelling
  | poll (r : ρ)
  | pollCheck (r : ρ) (foreign : Bool)
  | pollSave (r : ρ)
  | exit (i : Nat)
  | wait (i : Nat)
  | collect (i : Nat) (ok : Bool)

namespace State

variable {ρ : Type*}

/-- No harness has been launched yet by this panel. -/
def init (job : Job) : State ρ where
  job := job
  lock := .free
  polls := fun _ => .idle
  procs := fun _ => ⟨.absent, 0, 0, false⟩
  count := 0

/-- The pid belongs to a harness that is in the process table. -/
def inUse (s : State ρ) (pid : Nat) : Bool :=
  (List.range s.count).any fun i =>
    (s.procs i).pid == pid && ((s.procs i).phase == .live || (s.procs i).phase == .exited)

/-- `pid_alive` -/
def pidAlive (s : State ρ) (foreign : Bool) : Option Nat → Bool
  | none => false
  | some pid => s.inUse pid || foreign

/-- `job.get("state") == "running" and pid_alive(job.get("pid"))` -/
def inProgress (s : State ρ) (foreign : Bool) (job : Job) : Bool :=
  job.state == .running && s.pidAlive foreign job.pid

def setProc (s : State ρ) (i : Nat) (p : Proc) : State ρ :=
  { s with procs := Function.update s.procs i p }

def setPhase (s : State ρ) (i : Nat) (phase : Phase) : State ρ :=
  s.setProc i { s.procs i with phase := phase }

variable [DecidableEq ρ]

def setPoll (s : State ρ) (r : ρ) (p : Poll) : State ρ :=
  { s with polls := Function.update s.polls r p }

def step (s : State ρ) : Label ρ → Option (State ρ)
  | .start => if s.lock = .free then some { s with lock := .start (.loaded s.job) } else none
  | .check foreign =>
    match s.lock with
    | .start (.loaded job) =>
      if s.inProgress foreign job then some { s with lock := .free }
      else some { s with lock := .start .checked }
    | _ => none
  | .prepare ok =>
    match s.lock with
    | .start .checked => some { s with lock := if ok then .start .ready else .free }
    | _ => none
  | .save run =>
    match s.lock with
    | .start .ready => some { s with lock := .start (.saved run), job := ⟨.running, run, none⟩ }
    | _ => none
  | .launch pid =>
    match s.lock with
    | .start (.saved run) =>
      if s.inUse pid then none
      else some { s.setProc s.count ⟨.live, run, pid, false⟩ with
        lock := .start (.launched run s.count)
        count := s.count + 1 }
    | _ => none
  | .launchFails =>
    match s.lock with
    | .start (.saved run) => some { s with lock := .start (.failed run) }
    | _ => none
  | .saveError =>
    match s.lock with
    | .start (.failed run) => some { s with lock := .free, job := ⟨.error, run, none⟩ }
    | _ => none
  | .savePid =>
    match s.lock with
    | .start (.launched run i) => some { s.setProc i { s.procs i with collecting := true } with
        lock := .free
        job := ⟨.running, run, some (s.procs i).pid⟩ }
    | _ => none
  | .cancel => if s.lock = .free then some { s with lock := .cancel (.loaded s.job) } else none
  | .cancelCheck foreign =>
    match s.lock with
    | .cancel (.loaded job) =>
      some { s with lock := if s.inProgress foreign job then .cancel (.checked job) else .free }
    | _ => none
  | .kill sent =>
    match s.lock with
    | .cancel (.checked job) => some { s with lock := if sent then .cancel (.killed job) else .free }
    | _ => none
  | .saveCancelling =>
    match s.lock with
    | .cancel (.killed job) => some { s with lock := .free, job := { job with state := .cancelling } }
    | _ => none
  | .poll r =>
    match s.polls r with
    | .idle => some (s.setPoll r (.loaded s.job))
    | _ => none
  | .pollCheck r foreign =>
    match s.polls r with
    | .loaded job =>
      some (s.setPoll r
        (if job.state = .running ∧ ¬s.inProgress foreign job then .dead job else .idle))
    | _ => none
  | .pollSave r =>
    match s.polls r with
    | .dead job => some { s.setPoll r .idle with job := { job with state := .lost } }
    | _ => none
  | .exit i => if (s.procs i).phase = .live then some (s.setPhase i .exited) else none
  | .wait i =>
    if (s.procs i).phase = .exited ∧ (s.procs i).collecting then some (s.setPhase i .reaped)
    else none
  | .collect i ok =>
    if (s.procs i).phase = .reaped then
      some { s.setPhase i .collected with
        job := ⟨if ok then .done else .error, (s.procs i).run, some (s.procs i).pid⟩ }
    else none

def machine : Machine (State ρ) (Label ρ) := ⟨step⟩

/-- What a step can do, branch by branch. -/
inductive Steps (s : State ρ) : Label ρ → State ρ → Prop
  | start (hfree : s.lock = .free) : Steps s .start { s with lock := .start (.loaded s.job) }
  | refuse {foreign : Bool} {job : Job} (hl : s.lock = .start (.loaded job))
      (hbusy : s.inProgress foreign job = true) : Steps s (.check foreign) { s with lock := .free }
  | check {foreign : Bool} {job : Job} (hl : s.lock = .start (.loaded job))
      (hidle : s.inProgress foreign job = false) :
      Steps s (.check foreign) { s with lock := .start .checked }
  | prepare {ok : Bool} (hl : s.lock = .start .checked) :
      Steps s (.prepare ok) { s with lock := if ok then .start .ready else .free }
  | save {run : Nat} (hl : s.lock = .start .ready) :
      Steps s (.save run) { s with lock := .start (.saved run), job := ⟨.running, run, none⟩ }
  | launch {pid run : Nat} (hl : s.lock = .start (.saved run)) (hpid : s.inUse pid = false) :
      Steps s (.launch pid) { s.setProc s.count ⟨.live, run, pid, false⟩ with
        lock := .start (.launched run s.count)
        count := s.count + 1 }
  | launchFails {run : Nat} (hl : s.lock = .start (.saved run)) :
      Steps s .launchFails { s with lock := .start (.failed run) }
  | saveError {run : Nat} (hl : s.lock = .start (.failed run)) :
      Steps s .saveError { s with lock := .free, job := ⟨.error, run, none⟩ }
  | savePid {run i : Nat} (hl : s.lock = .start (.launched run i)) :
      Steps s .savePid { s.setProc i { s.procs i with collecting := true } with
        lock := .free
        job := ⟨.running, run, some (s.procs i).pid⟩ }
  | cancel (hfree : s.lock = .free) : Steps s .cancel { s with lock := .cancel (.loaded s.job) }
  | cancelCheck {foreign : Bool} {job : Job} (hl : s.lock = .cancel (.loaded job)) :
      Steps s (.cancelCheck foreign)
        { s with lock := if s.inProgress foreign job then .cancel (.checked job) else .free }
  | kill {sent : Bool} {job : Job} (hl : s.lock = .cancel (.checked job)) :
      Steps s (.kill sent) { s with lock := if sent then .cancel (.killed job) else .free }
  | saveCancelling {job : Job} (hl : s.lock = .cancel (.killed job)) :
      Steps s .saveCancelling { s with lock := .free, job := { job with state := .cancelling } }
  | poll {r : ρ} (hpoll : s.polls r = .idle) : Steps s (.poll r) (s.setPoll r (.loaded s.job))
  | pollCheck {r : ρ} {foreign : Bool} {job : Job} (hpoll : s.polls r = .loaded job) :
      Steps s (.pollCheck r foreign) (s.setPoll r
        (if job.state = .running ∧ ¬s.inProgress foreign job then .dead job else .idle))
  | pollSave {r : ρ} {job : Job} (hpoll : s.polls r = .dead job) :
      Steps s (.pollSave r) { s.setPoll r .idle with job := { job with state := .lost } }
  | exit {i : Nat} (hlive : (s.procs i).phase = .live) : Steps s (.exit i) (s.setPhase i .exited)
  | wait {i : Nat} (hexited : (s.procs i).phase = .exited)
      (hcollecting : (s.procs i).collecting = true) : Steps s (.wait i) (s.setPhase i .reaped)
  | collect {i : Nat} {ok : Bool} (hreaped : (s.procs i).phase = .reaped) :
      Steps s (.collect i ok) { s.setPhase i .collected with
        job := ⟨if ok then .done else .error, (s.procs i).run, some (s.procs i).pid⟩ }

variable {s t : State ρ} {a : Label ρ}

/-- **The branches of a step.** -/
theorem steps_of_step (h : s.step a = some t) : s.Steps a t := by
  cases a with
  | check foreign =>
    simp only [step] at h
    split at h
    · rename_i job hl
      split at h
      · rename_i hbusy
        cases h
        exact .refuse hl hbusy
      · rename_i hidle
        cases h
        exact .check hl (Bool.not_eq_true _ ▸ hidle)
    · cases h
  | launch pid =>
    simp only [step] at h
    split at h
    · rename_i run hl
      split at h
      · cases h
      · rename_i hpid
        cases h
        exact .launch hl (Bool.not_eq_true _ ▸ hpid)
    · cases h
  | wait i =>
    simp only [step] at h
    split at h
    · rename_i hexited
      cases h
      exact .wait hexited.1 hexited.2
    · cases h
  | _ =>
    simp only [step] at h
    split at h
    · rename_i hguard
      cases h
      constructor
      exact hguard
    · cases h

end State

end WebZapret.Selection
