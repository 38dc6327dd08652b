import WebZapret.Selection.NextRun
import Mathlib.Data.List.Chain

/-!
# The scheduler never bursts

The scheduler's ticks come at any instants in order, with gaps of any length. Of an interval
schedule that nobody changes, a tick fires at most the one slot that is stored, and then stores
the first later slot that is after the present: the slots that a long gap has passed cost one run.

**Theorem (`never_bursts`).** From an empty scheduler state, every slot that fires is later than
the one before by a positive multiple of the interval, and after a tick that fires the stored slot
is in the future.
-/

namespace WebZapret.Selection

open Py Failing

variable [Tables]

/-- The schedule file, the time of the last tick, whether that tick has fired, and the slots that
have fired, newest first. -/
structure Watch where
  file : ScheduleFile
  clock : Option Rat
  fires : Bool
  fired : List Json

omit [Tables] in
/-- `state.get("next_run")` -/
def nextRunOf (file : ScheduleFile) : Json :=
  match stateOf file with
  | .ok state => state.get0 (lit "next_run")
  | .error _ => .null

namespace Watch

/-- Nothing has fired yet. -/
def start (file : ScheduleFile) : Watch := ⟨file, none, false, []⟩

/-- A tick at the given time, alone on the file; it fires the slot that it finds. -/
def step (zone : Zone) (base : Dict) (s : Watch) (now : Rat) : Option Watch :=
  if ∀ t ∈ s.clock, t ≤ now then
    let tick := tick true base (timingAt zone now)
    match tick.result s.file with
    | .ticked true => some ⟨tick.effect s.file, some now, true, nextRunOf s.file :: s.fired⟩
    | _ => some ⟨tick.effect s.file, some now, false, s.fired⟩
  else none

def machine (zone : Zone) (base : Dict) : Machine Watch Rat := ⟨step zone base⟩

end Watch

/-- A later slot of a schedule with the given interval. -/
def Later (minutes : Int) (newer older : Rat) : Prop :=
  older < newer ∧ ∃ n : Nat, 0 < n ∧ newer - older = n * (minutes * 60)

/-- The slots have fired in order, a multiple of the interval apart, and the slot stored by a tick
that has fired is after it. -/
structure NoBurst (minutes : Int) (s : Watch) : Prop where
  slots : ∃ slots : List Rat, s.fired = slots.map (fun q => .float (.fin q)) ∧
    slots.IsChain (Later minutes)
  next : s.fires = true → ∃ now next : Rat, s.clock = some now ∧
    nextRunOf s.file = .float (.fin next) ∧ now < next

/-! ## The next slot -/

section Slots

variable {zone : Zone} {now : Rat} {schedule : Dict} {minutes : Int}

omit [Tables] in
theorem get_of_get0 {d : Dict} {key : Str} {value default : Json} (h : d.get0 key = value)
    (hvalue : value ≠ .null) : d.get key default = value := by
  unfold Dict.get0 Dict.get at h
  unfold Dict.get
  cases hlookup : d.lookup key with
  | none =>
    rw [hlookup] at h
    exact absurd h.symm hvalue
  | some x =>
    rw [hlookup] at h
    exact h

omit [Tables] in
theorem later_advance (h5 : 5 ≤ minutes) (now last : Rat) :
    now < advance minutes now (last + slotStep minutes) ∧
      Later minutes (advance minutes now (last + slotStep minutes)) last := by
  obtain ⟨hlt, k, hk, heq⟩ := (isLeast_advance minutes now last).1
  have hpos := slotStep_pos minutes
  have hstep : slotStep minutes = minutes * 60 := by
    unfold slotStep
    rw [max_eq_right h5]
    push_cast
    rfl
  refine ⟨hlt, ?_, k, hk, ?_⟩
  · rw [heq]
    exact lt_add_of_pos_right last (nsmul_pos hpos (Nat.ne_of_gt hk))
  · rw [heq, add_sub_cancel_left, nsmul_eq_mul, hstep]

/-- What an enabled interval schedule is. -/
structure IsInterval (schedule : Dict) (minutes : Int) : Prop where
  enabled : (schedule.get0 (lit "enabled")).truthy = true
  mode : (schedule.get0 (lit "mode")).Is (lit "interval")
  interval : schedule.get0 (lit "interval_min") = .int minutes

theorem nextRunAt_interval (h : IsInterval schedule minutes) (lastRun : Json) :
    nextRunAt zone now schedule lastRun = intervalSlot schedule now lastRun :=
  nextRunAt_of_interval h.enabled (get_of_get0 h.mode nofun) lastRun

theorem nextRunAt_null (h : IsInterval schedule minutes) (zone : Zone) (now : Rat) :
    ∃ q, nextRunAt zone now schedule .null = .ok (.float (.fin q)) := by
  rw [nextRunAt_interval h, intervalSlot, get_of_get0 h.interval nofun]
  exact ⟨_, rfl⟩

theorem nextRunAt_last (h : IsInterval schedule minutes) (h5 : 5 ≤ minutes) (zone : Zone)
    (now last : Rat) :
    ∃ q, nextRunAt zone now schedule (.float (.fin last)) = .ok (.float (.fin q)) ∧ now < q ∧
      Later minutes q last := by
  rw [nextRunAt_interval h, intervalSlot, get_of_get0 h.interval nofun]
  exact ⟨_, rfl, later_advance h5 now last⟩

end Slots

/-! ## A tick alone on the file -/

section Ticks

variable {base : Dict} {timing : Timing} {file : ScheduleFile} {schedule : Normalized}
  {state : Dict}

omit [Tables] in
theorem stateOf_obj (members : Dict) : stateOf (some (.obj members)) = .ok members := by
  cases members <;> rfl

/-- A tick that writes nothing. -/
theorem tick_none (hload : loadSchedule base file = .ok schedule)
    (hstate : stateOf file = .ok state)
    (h : tickState timing schedule.settings state = .ok none) :
    (tick true base timing).effect file = file ∧
      (tick true base timing).result file = .ticked false := by
  have htick : (do tickState timing schedule.settings (← stateOf file)) = .ok none := by
    rw [hstate]
    exact h
  simp only [tick, if_true, Task.effect, Task.result, hload, tickWith, htick, and_self]

/-- A tick that writes a state. -/
theorem tick_some {state' : Dict} {fires : Bool} (hload : loadSchedule base file = .ok schedule)
    (hstate : stateOf file = .ok state)
    (h : tickState timing schedule.settings state = .ok (some (state', fires))) :
    (tick true base timing).effect file = some (.obj state') ∧
      (tick true base timing).result file = .ticked fires := by
  have htick : (do tickState timing schedule.settings (← stateOf file)) =
      .ok (some (state', fires)) := by
    rw [hstate]
    exact h
  simp only [tick, if_true, Task.effect, Task.result, hload, tickWith, htick, and_self]

end Ticks

/-! ## The invariant -/

/-- The schedule is still the one of the start, `last_run` is the slot that has fired last, and
`next_run` is a later one. -/
structure WatchInv (base : Dict) (schedule : Normalized) (minutes : Int) (s : Watch)
    (state : Dict) (slots : List Rat) : Prop where
  load : loadSchedule base s.file = .ok schedule
  holds : stateOf s.file = .ok state
  fired : s.fired = slots.map fun q => .float (.fin q)
  chain : slots.IsChain (Later minutes)
  last : state.get0 (lit "last_run") = (slots.head?.map fun q => Json.float (.fin q)).getD .null
  next : state.get0 (lit "next_run") = .null ∧ slots = [] ∨
    ∃ q, state.get0 (lit "next_run") = .float (.fin q) ∧ ∀ last ∈ slots.head?, Later minutes q last
  fires : s.fires = true → ∃ now next : Rat, s.clock = some now ∧
    nextRunOf s.file = .float (.fin next) ∧ now < next

theorem WatchInv.noBurst {base : Dict} {schedule : Normalized} {minutes : Int} {s : Watch}
    {state : Dict} {slots : List Rat} (h : WatchInv base schedule minutes s state slots) :
    NoBurst minutes s :=
  ⟨⟨slots, h.fired, h.chain⟩, h.fires⟩

section Steps

variable {zone : Zone} {base : Dict} {schedule : Normalized} {minutes : Int} {s : Watch}
  {state : Dict} {slots : List Rat}

omit [Tables] in
theorem get0_set_self (d : Dict) (key : Str) (value : Json) : (d.set key value).get0 key = value := by
  unfold Dict.get0 Dict.get
  rw [Dict.lookup_set_self]
  rfl

omit [Tables] in
theorem get0_set_ne (d : Dict) {key k : Str} (h : k ≠ key) (value : Json) :
    (d.set key value).get0 k = d.get0 k := by
  unfold Dict.get0 Dict.get
  rw [Dict.lookup_set_ne d h]

/-- The slot that a tick stores when it finds none: a later one than the last that fired. -/
theorem rearmed_slot (hinterval : IsInterval schedule.settings minutes) (h5 : 5 ≤ minutes)
    (h : WatchInv base schedule minutes s state slots) (zone : Zone) (now : Rat) :
    ∃ q, nextRunAt zone now schedule.settings (state.get0 (lit "last_run")) =
      .ok (.float (.fin q)) ∧ ∀ last ∈ slots.head?, Later minutes q last := by
  rw [h.last]
  cases slots with
  | nil =>
    obtain ⟨q, hq⟩ := nextRunAt_null hinterval zone now
    exact ⟨q, hq, nofun⟩
  | cons last slots =>
    obtain ⟨q, hq, _, hlater⟩ := nextRunAt_last hinterval h5 zone now last
    refine ⟨q, hq, fun last' hlast => ?_⟩
    cases hlast
    exact hlater

/-- **A tick keeps the invariant.** -/
theorem watchInv_step (hinterval : IsInterval schedule.settings minutes) (h5 : 5 ≤ minutes)
    (h : WatchInv base schedule minutes s state slots) {now : Rat} {t : Watch}
    (hstep : Watch.step zone base s now = some t) :
    ∃ state' slots', WatchInv base schedule minutes t state' slots' := by
  have hlastNext : lit "last_run" ≠ lit "next_run" := by decide
  unfold Watch.step at hstep
  split at hstep
  swap
  · cases hstep
  dsimp only at hstep
  by_cases hslot : (state.get0 (lit "next_run")).truthy = true
  · -- a slot is stored
    obtain ⟨q, hq, hlater⟩ : ∃ q, state.get0 (lit "next_run") = .float (.fin q) ∧
        ∀ last ∈ slots.head?, Later minutes q last := by
      rcases h.next with ⟨hnull, _⟩ | hq
      · rw [hnull] at hslot
        cases hslot
      · exact hq
    by_cases hdue : q ≤ now
    · -- it has come
      obtain ⟨q', hq', hafter, hlater'⟩ :=
        nextRunAt_last hinterval h5 zone now q
      have htick : tickState (timingAt zone now) schedule.settings state =
          .ok (some ((state.set (lit "last_run") (.float (.fin q))).set (lit "next_run")
            (.float (.fin q')), true)) := by
        have hcome : scheduleDue now schedule.settings (.float (.fin q)) = .ok true := by
          simp [scheduleDue, hinterval.enabled, instant, Flt.toRat?, hdue, bind, Except.bind, pure,
            Except.pure]
        unfold tickState
        dsimp only [timingAt]
        rw [if_neg (not_not_intro hinterval.enabled), if_neg (not_not_intro hslot), hq, hcome, hq']
        rfl
      obtain ⟨heffect, hresult⟩ := tick_some h.load h.holds htick
      rw [heffect, hresult] at hstep
      cases hstep
      refine ⟨_, q :: slots, ?_, stateOf_obj _, ?_, ?_, ?_, ?_, ?_⟩
      · exact (loadSchedule_of_sameOn base h.holds (tickState_sameOn htick)).trans h.load
      · have hfound : nextRunOf s.file = .float (.fin q) := by
          rw [nextRunOf, h.holds]
          exact hq
        rw [hfound, h.fired]
        rfl
      · exact h.chain.cons hlater
      · rw [get0_set_ne _ hlastNext, get0_set_self]
        rfl
      · refine .inr ⟨q', get0_set_self _ _ _, fun last hlast => ?_⟩
        cases hlast
        exact hlater'
      · intro _
        refine ⟨now, q', rfl, ?_, hafter⟩
        rw [nextRunOf, stateOf_obj]
        exact get0_set_self _ _ _
    · -- it has not
      have htick : tickState (timingAt zone now) schedule.settings state = .ok none := by
        have hwait : scheduleDue now schedule.settings (.float (.fin q)) = .ok false := by
          simp [scheduleDue, hinterval.enabled, instant, Flt.toRat?, hdue, bind, Except.bind, pure,
            Except.pure]
        unfold tickState
        dsimp only [timingAt]
        rw [if_neg (not_not_intro hinterval.enabled), if_neg (not_not_intro hslot), hq, hwait]
        rfl
      obtain ⟨heffect, hresult⟩ := tick_none h.load h.holds htick
      rw [heffect, hresult] at hstep
      cases hstep
      exact ⟨state, slots, h.load, h.holds, h.fired, h.chain, h.last, h.next, nofun⟩
  · -- no slot is stored
    obtain ⟨q, hq, hlater⟩ := rearmed_slot hinterval h5 h zone now
    have htick : tickState (timingAt zone now) schedule.settings state =
        .ok (some (state.set (lit "next_run") (.float (.fin q)), false)) := by
      unfold tickState
      dsimp only [timingAt]
      rw [if_neg (not_not_intro hinterval.enabled), if_pos hslot, hq]
      rfl
    obtain ⟨heffect, hresult⟩ := tick_some h.load h.holds htick
    rw [heffect, hresult] at hstep
    cases hstep
    refine ⟨_, slots, ?_, stateOf_obj _, h.fired, h.chain, ?_, ?_, nofun⟩
    · exact (loadSchedule_of_sameOn base h.holds (tickState_sameOn htick)).trans h.load
    · rw [get0_set_ne _ hlastNext]
      exact h.last
    · exact .inr ⟨q, get0_set_self _ _ _, hlater⟩

end Steps

/-! ## Every run -/

/-- `normalize_schedule` keeps the interval in its range. -/
theorem interval_of_normalized {values base : Dict} {schedule : Normalized}
    (h : normalizeSchedule values base = .ok schedule) :
    ∃ minutes : Int, 5 ≤ minutes ∧ minutes ≤ 10080 ∧
      schedule.settings.get0 (lit "interval_min") = .int minutes := by
  unfold normalizeSchedule at h
  obtain ⟨listed, _, h⟩ := bind_eq_ok.mp h
  obtain ⟨minutes, _, h⟩ := bind_eq_ok.mp h
  cases h
  exact ⟨_, by omega, by omega, get0_set_self _ _ _⟩

/-- **The scheduler never bursts.** -/
theorem never_bursts (zone : Zone) (base : Dict) (file : ScheduleFile) (schedule : Normalized)
    (minutes : Int) (state : Dict) (hload : loadSchedule base file = .ok schedule)
    (hinterval : IsInterval schedule.settings minutes) (hstate : stateOf file = .ok state)
    (hnext : state.get0 (lit "next_run") = .null) (hlast : state.get0 (lit "last_run") = .null)
    (times : List Rat) :
    (Watch.machine zone base).Always (NoBurst minutes) (Watch.start file) times := by
  have h5 : 5 ≤ minutes := by
    have hnormal := hload
    rw [loadSchedule, hstate] at hnormal
    obtain ⟨m, hm, _, heq⟩ := interval_of_normalized hnormal
    rw [hinterval.interval] at heq
    cases heq
    exact hm
  have hinv : (Watch.machine zone base).Always
      (fun s => ∃ state slots, WatchInv base schedule minutes s state slots)
      (Watch.start file) times := by
    apply Machine.always_of_step
    · rintro s now t ⟨state, slots, h⟩ hstep
      exact watchInv_step hinterval h5 h hstep
    · exact ⟨state, [], hload, hstate, rfl, .nil, hlast, .inl ⟨hnext, rfl⟩,
        fun hfires => absurd hfires Bool.false_ne_true⟩
  refine hinv.mono fun s hs => ?_
  obtain ⟨_, _, h⟩ := hs
  exact h.noBurst

/-- A half-hourly schedule that fires on start, and no scheduler state. -/
def freshFile : ScheduleFile :=
  some (.obj [(lit "enabled", .bool true), (lit "mode", .str (lit "interval")),
    (lit "interval_min", .int 30), (lit "run_on_start", .bool true)])

/-- A clock at the epoch; an interval schedule does not look at it. -/
def epochZone : Zone := ⟨fun _ => .ok ⟨1970, 1, 1, 0, 0, 0, 3, 1, 0⟩, fun _ => .ok 0⟩

omit [Tables]

/-- Two ticks, an outage of more than ten hours, and two more. -/
theorem never_bursts_after_outage : letI := Tables.ascii
    (Watch.machine epochZone (envDefaults (fun _ => none) scheduleSpec [])).Always (NoBurst 30)
      (Watch.start freshFile) [1000, 1015, 39000, 39015] := by
  let _ := Tables.ascii
  refine never_bursts epochZone (envDefaults (fun _ => none) scheduleSpec []) freshFile _ 30 _ rfl
    ?_ rfl rfl rfl _
  exact ⟨rfl, rfl, rfl⟩

end WebZapret.Selection
