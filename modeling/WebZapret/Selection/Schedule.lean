import WebZapret.Selection.Settings
import WebZapret.Lib.Tasks

/-!
# The schedule and its scheduler

One file holds the schedule that the user sets (`enabled`, `mode`, `at`, ...) and the state of the
scheduler thread (`next_run`, `last_run`). A tick of `_bcw_scheduler` reads it twice and may write
it once; `POST /api/bcw/schedule` reads and writes it in `save_schedule`, and reads and writes it
again to remove `next_run`.

A tick writes back all that it read, the schedule included. So a tick that read its state before
`save_schedule` wrote, and writes after it, undoes the user's change (`disabled_schedule_restored`).
When no tick is between these two steps at the time of `save_schedule`'s write, the file ends up
with the schedule that the request reported (`schedule_kept`).
-/

namespace WebZapret.Selection

open Py Failing

variable [Tables]

/-- The schedule file; `none` when it cannot be read or holds no JSON. -/
abbrev ScheduleFile := Option Json

/-- `read_json(path, {}) or {}`; on a value that is no dict, both the tick and the request raise
without changing it. -/
def stateOf (file : ScheduleFile) : Result Dict := ((file.getD (.obj [])).or (.obj [])).dict

/-- `load_schedule`; `base` is what `env_defaults` gives. -/
def loadSchedule (base : Dict) (file : ScheduleFile) : Result Normalized := do
  normalizeSchedule (← stateOf file) base

/-- How a tick or a request ends. -/
inductive Outcome where
  /-- the tick is over; `fires` when it starts a run -/
  | ticked (fires : Bool)
  /-- the tick printed the exception -/
  | caught (e : Exc)
  /-- the request is answered with `ok` true and the schedule -/
  | accepted (merged : Normalized)
  | refused (merged : Normalized)
  /-- the exception leaves the handler -/
  | raised (e : Exc)

/-! ## A tick -/

/-- `next_run_at` and `schedule_due` at the time of a tick; what they return or raise does not
matter to what follows. -/
structure Timing where
  nextRunAt : (schedule : Dict) → (lastRun : Json) → Result Json
  scheduleDue : (schedule : Dict) → (nextRun : Json) → Result Bool

/-- The state that a tick writes, and whether it fires; `none` when it writes nothing. -/
def tickState (timing : Timing) (schedule state : Dict) : Result (Option (Dict × Bool)) := do
  let nextRun := state.get0 (lit "next_run")
  if ¬(schedule.get0 (lit "enabled")).truthy then
    if nextRun.truthy then return some (state.pop (lit "next_run"), false)
    return none
  if ¬nextRun.truthy then
    let slot ← timing.nextRunAt schedule (state.get0 (lit "last_run"))
    return some (state.set (lit "next_run") slot, false)
  if ¬(← timing.scheduleDue schedule nextRun) then return none
  let slot ← timing.nextRunAt schedule nextRun
  return some ((state.set (lit "last_run") nextRun).set (lit "next_run") slot, true)

/-- The second half of a tick. -/
def tickWith (timing : Timing) (schedule : Dict) : Task ScheduleFile Outcome :=
  .read fun file =>
    match (do tickState timing schedule (← stateOf file)) with
    | .error e => .ret (.caught e)
    | .ok none => .ret (.ticked false)
    | .ok (some (state, fires)) => .write (some (.obj state)) fun _ => .ret (.ticked fires)

/-- One round of `_bcw_scheduler` after its sleep. -/
def tick (ready : Bool) (base : Dict) (timing : Timing) : Task ScheduleFile Outcome :=
  if ready then
    .read fun file =>
      match loadSchedule base file with
      | .error e => .ret (.caught e)
      | .ok schedule => tickWith timing schedule.settings
  else .ret (.ticked false)

/-! ## A request -/

/-- What `save_schedule` writes, and the schedule that it reports. -/
def mergedSchedule (base : Dict) (body : Json) (file : ScheduleFile) :
    Result (Dict × Normalized) := do
  let persisted := updateKnown scheduleKeys (← stateOf file) (← (body.or (.obj [])).dict)
  return (persisted, ← normalizeSchedule persisted base)

/-- The handler after `save_schedule`. -/
def rearm (merged : Normalized) : Task ScheduleFile Outcome :=
  .read fun file =>
    match stateOf file with
    | .error e => .ret (.raised e)
    | .ok state => .write (some (.obj (state.pop (lit "next_run")))) fun _ =>
      .ret (.accepted merged)

/-- `POST /api/bcw/schedule` -/
def postSchedule (base : Dict) (body : Json) : Task ScheduleFile Outcome :=
  .read fun file =>
    match mergedSchedule base body file with
    | .error e => .ret (.raised e)
    | .ok (persisted, merged) =>
      if merged.errors = [] then
        .write (some (.obj persisted)) fun saved =>
          if saved then rearm merged else .ret (.refused merged)
      else .ret (.refused merged)

/-! ## The state of the scheduler is no part of the schedule -/

theorem loadSchedule_obj (base members : Dict) :
    loadSchedule base (some (.obj members)) = normalizeSchedule members base := by
  cases members with
  | nil => rfl
  | cons m members => rfl

/-- Writing back a state with the same schedule keeps the schedule. -/
theorem loadSchedule_of_sameOn (base : Dict) {state state' : Dict} {file : ScheduleFile}
    (hstate : stateOf file = .ok state) (h : SameOn scheduleKeys state' state) :
    loadSchedule base (some (.obj state')) = loadSchedule base file := by
  rw [loadSchedule_obj, normalizeSchedule_congr h, loadSchedule, hstate]
  rfl

omit [Tables] in
theorem sameOn_pop (state : Dict) : SameOn scheduleKeys (state.pop (lit "next_run")) state := by
  intro key hkey
  apply Dict.lookup_pop_ne
  rintro rfl
  exact absurd hkey (by decide)

omit [Tables] in
theorem sameOn_set (state : Dict) {key : Str} (hkey : key ∉ scheduleKeys) (value : Json) :
    SameOn scheduleKeys (state.set key value) state := by
  intro k hk
  apply Dict.lookup_set_ne
  rintro rfl
  exact hkey hk

omit [Tables] in
/-- A tick changes only the state of the scheduler. -/
theorem tickState_sameOn {timing : Timing} {schedule state state' : Dict} {fires : Bool}
    (h : tickState timing schedule state = .ok (some (state', fires))) :
    SameOn scheduleKeys state' state := by
  have hnext : lit "next_run" ∉ scheduleKeys := by decide
  have hlast : lit "last_run" ∉ scheduleKeys := by decide
  unfold tickState at h
  dsimp only at h
  by_cases henabled : (schedule.get0 (lit "enabled")).truthy
  · rw [if_neg (not_not_intro henabled)] at h
    by_cases hslot : (state.get0 (lit "next_run")).truthy
    · rw [if_neg (not_not_intro hslot)] at h
      obtain ⟨due, _, h⟩ := bind_eq_ok.mp h
      split at h
      · cases h
      · obtain ⟨slot, _, h⟩ := bind_eq_ok.mp h
        cases h
        intro key hkey
        rw [sameOn_set _ hnext _ key hkey, sameOn_set _ hlast _ key hkey]
    · rw [if_pos hslot] at h
      obtain ⟨slot, _, h⟩ := bind_eq_ok.mp h
      cases h
      exact sameOn_set state hnext slot
  · rw [if_pos henabled] at h
    split at h
    · cases h
      exact sameOn_pop state
    · cases h

/-! ## A tick keeps what it read -/

/-- The task returns whatever its write gave. -/
def Ends (k : Bool → Task ScheduleFile Outcome) : Prop := ∀ b, ∃ o, k b = .ret o

/-- The task is not about to write, and what it will write has the schedule that it read last. -/
def Keeps (base : Dict) : Task ScheduleFile Outcome → Prop
  | .ret _ => True
  | .read k => ∀ file, Keeps base (k file) ∨
      ∃ v j, k file = .write v j ∧ loadSchedule base v = loadSchedule base file ∧ Ends j
  | .write _ _ => False

theorem tickWith_keeps (base : Dict) (timing : Timing) (schedule : Dict) :
    Keeps base (tickWith timing schedule) := by
  intro file
  dsimp only
  split
  · exact .inl trivial
  · exact .inl trivial
  · rename_i state fires hstate
    obtain ⟨state₀, hread, hstate⟩ := bind_eq_ok.mp hstate
    exact .inr ⟨_, _, rfl, loadSchedule_of_sameOn base hread (tickState_sameOn hstate),
      fun _ => ⟨_, rfl⟩⟩

theorem tick_keeps (ready : Bool) (base : Dict) (timing : Timing) :
    Keeps base (tick ready base timing) := by
  cases ready with
  | false => trivial
  | true =>
    intro file
    dsimp only
    split
    · exact .inl trivial
    · exact .inl (tickWith_keeps base timing _)

/-- The tick holds nothing, or a state whose schedule is `merged`. -/
def Holds (base : Dict) (merged : Normalized) (t : Task ScheduleFile Outcome) : Prop :=
  Keeps base t ∨ ∃ v j, t = .write v j ∧ loadSchedule base v = .ok merged ∧ Ends j

/-- The tick holds nothing, or some state. -/
def Loose (base : Dict) (t : Task ScheduleFile Outcome) : Prop :=
  Keeps base t ∨ ∃ v j, t = .write v j ∧ Ends j

theorem keeps_of_ends {base : Dict} {k : Bool → Task ScheduleFile Outcome} (h : Ends k)
    (b : Bool) : Keeps base (k b) := by
  obtain ⟨o, ho⟩ := h b
  rw [ho]
  trivial

/-! ## A tick and a request -/

/-- The tick is task `false`, the request task `true`. -/
abbrev Race := Pair ScheduleFile Outcome

/-- A tick and a request on the file. -/
def race (ready : Bool) (base : Dict) (timing : Timing) (body : Json) (file : ScheduleFile) :
    Race :=
  Pair.start file fun
    | false => tick ready base timing
    | true => postSchedule base body

/-- When `save_schedule` writes, the tick is not between its second read and its write. -/
def NotHeld (s : Race) (isPost : Bool) : Prop :=
  isPost = true → s.steps true = 1 → ∀ v k, s.task false ≠ .write v k

/-- Once the request is accepted and the tick has ended, the stored schedule is the reported
one. -/
def ScheduleKept (base : Dict) (s : Race) : Prop :=
  ∀ merged, s.task true = .ret (.accepted merged) → (∃ o, s.task false = .ret o) →
    loadSchedule base s.cell = .ok merged

/-- How far the request is, and what the tick holds. -/
inductive RaceInv (base : Dict) (body : Json) (s : Race) : Prop where
  | started (htask : s.task true = postSchedule base body) (hsteps : s.steps true = 0)
      (htick : Loose base (s.task false))
  /-- about to write the merged values -/
  | saving (persisted : Dict) (merged : Normalized)
      (htask : s.task true = .write (some (.obj persisted)) fun saved =>
        if saved then rearm merged else .ret (.refused merged))
      (hsteps : s.steps true = 1)
      (hmerged : loadSchedule base (some (.obj persisted)) = .ok merged)
      (htick : Loose base (s.task false))
  /-- has written them -/
  | saved (merged : Normalized) (htask : s.task true = rearm merged)
      (hcell : loadSchedule base s.cell = .ok merged) (htick : Holds base merged (s.task false))
  /-- about to write without `next_run` -/
  | clearing (merged : Normalized) (v : ScheduleFile)
      (htask : s.task true = .write v fun _ => .ret (.accepted merged))
      (hv : loadSchedule base v = .ok merged)
      (hcell : loadSchedule base s.cell = .ok merged) (htick : Holds base merged (s.task false))
  | answered (merged : Normalized) (htask : s.task true = .ret (.accepted merged))
      (hcell : loadSchedule base s.cell = .ok merged)
      (htick : Holds base merged (s.task false))
  | failed (o : Outcome) (htask : s.task true = .ret o) (ho : ∀ merged, o ≠ .accepted merged)

variable {base : Dict} {body : Json} {s s' : Race}

theorem RaceInv.kept (h : RaceInv base body s) : ScheduleKept base s := by
  intro merged haccepted _
  cases h with
  | started htask hsteps htick =>
    rw [htask] at haccepted
    cases haccepted
  | saving persisted merged' htask hsteps hmerged htick =>
    rw [htask] at haccepted
    cases haccepted
  | saved merged' htask hcell htick =>
    rw [htask] at haccepted
    cases haccepted
  | clearing merged' v htask hv hcell htick =>
    rw [htask] at haccepted
    cases haccepted
  | answered merged' htask hcell htick =>
    rw [htask] at haccepted
    cases haccepted
    exact hcell
  | failed o htask ho =>
    rw [htask] at haccepted
    cases haccepted
    exact absurd rfl (ho merged)

theorem loose_step (h : Pair.step s false = some s') (htick : Loose base (s.task false)) :
    Loose base (s'.task false) := by
  obtain ⟨_, _, _, ⟨k, hk, hk', _⟩ | ⟨v, k, hk, hk', _⟩⟩ := Pair.step_cases h
  · rw [hk] at htick
    rw [hk']
    rcases htick with hkeeps | ⟨v, j, hv, _⟩
    · rcases hkeeps s.cell with hkeeps | ⟨v, j, hv, _, hj⟩
      · exact .inl hkeeps
      · exact .inr ⟨v, j, hv, hj⟩
    · cases hv
  · rw [hk] at htick
    rw [hk']
    rcases htick with hkeeps | ⟨v, j, hv, hj⟩
    · exact absurd hkeeps id
    · cases hv
      exact .inl (keeps_of_ends hj true)

theorem holds_step {merged : Normalized} (h : Pair.step s false = some s')
    (hcell : loadSchedule base s.cell = .ok merged) (htick : Holds base merged (s.task false)) :
    loadSchedule base s'.cell = .ok merged ∧ Holds base merged (s'.task false) := by
  obtain ⟨_, _, _, ⟨k, hk, hk', hcell'⟩ | ⟨v, k, hk, hk', hcell'⟩⟩ := Pair.step_cases h
  · rw [hk] at htick
    rw [hk', hcell']
    rcases htick with hkeeps | ⟨v, j, hv, _⟩
    · rcases hkeeps s.cell with hkeeps | ⟨v, j, hv, hload, hj⟩
      · exact ⟨hcell, .inl hkeeps⟩
      · exact ⟨hcell, .inr ⟨v, j, hv, hload.trans hcell, hj⟩⟩
    · cases hv
  · rw [hk] at htick
    rw [hk', hcell']
    rcases htick with hkeeps | ⟨v, j, hv, hload, hj⟩
    · exact absurd hkeeps id
    · cases hv
      exact ⟨hload, .inl (keeps_of_ends hj true)⟩

/-- A step of the tick keeps the invariant. -/
theorem raceInv_tick (h : Pair.step s false = some s') (hs : RaceInv base body s) :
    RaceInv base body s' := by
  obtain ⟨htask', hsteps', _⟩ := Pair.step_cases h
  cases hs with
  | started htask hsteps htick =>
    exact .started (htask'.trans htask) (hsteps'.trans hsteps) (loose_step h htick)
  | saving persisted merged htask hsteps hmerged htick =>
    exact .saving persisted merged (htask'.trans htask) (hsteps'.trans hsteps) hmerged
      (loose_step h htick)
  | saved merged htask hcell htick =>
    obtain ⟨hcell', htick'⟩ := holds_step h hcell htick
    exact .saved merged (htask'.trans htask) hcell' htick'
  | clearing merged v htask hv hcell htick =>
    obtain ⟨hcell', htick'⟩ := holds_step h hcell htick
    exact .clearing merged v (htask'.trans htask) hv hcell' htick'
  | answered merged htask hcell htick =>
    obtain ⟨hcell', htick'⟩ := holds_step h hcell htick
    exact .answered merged (htask'.trans htask) hcell' htick'
  | failed o htask ho => exact .failed o (htask'.trans htask) ho

/-- A step of the request keeps the invariant, when it does not write over what the tick holds. -/
theorem raceInv_post (h : Pair.step s true = some s') (hg : NotHeld s true)
    (hs : RaceInv base body s) : RaceInv base body s' := by
  obtain ⟨htick', _, hsteps', hstep⟩ := Pair.step_cases h
  have htick'' : s'.task false = s.task false := htick'
  cases hs with
  | started htask hsteps htick =>
    rcases hstep with ⟨k, hk, hk', hcell'⟩ | ⟨v, k, hk, _⟩
    · rw [htask] at hk
      cases hk
      rw [← htick''] at htick
      dsimp only at hk'
      split at hk'
      · exact .failed _ hk' nofun
      · rename_i persisted merged hmerged
        obtain ⟨state, _, hbody⟩ := bind_eq_ok.mp hmerged
        obtain ⟨values, _, hnormal⟩ := bind_eq_ok.mp hbody
        obtain ⟨merged', hnormal, hret⟩ := bind_eq_ok.mp hnormal
        cases hret
        rw [← loadSchedule_obj] at hnormal
        split at hk'
        · exact .saving _ merged hk' (by rw [hsteps', hsteps]) hnormal htick
        · exact .failed _ hk' nofun
    · rw [htask] at hk
      cases hk
  | saving persisted merged htask hsteps hmerged htick =>
    rcases hstep with ⟨k, hk, _⟩ | ⟨v, k, hk, hk', hcell'⟩
    · rw [htask] at hk
      cases hk
    · rw [htask] at hk
      cases hk
      -- the tick holds nothing
      have hkeeps : Keeps base (s.task false) := by
        rcases htick with hkeeps | ⟨v, j, hv, _⟩
        · exact hkeeps
        · exact absurd hv (hg rfl hsteps v j)
      refine .saved merged hk' (by rw [hcell', hmerged]) (.inl ?_)
      rwa [htick'']
  | saved merged htask hcell htick =>
    rw [← htick''] at htick
    rcases hstep with ⟨k, hk, hk', hcell'⟩ | ⟨v, k, hk, _⟩
    · rw [htask] at hk
      cases hk
      rw [← hcell'] at hcell
      dsimp only at hk'
      split at hk'
      · exact .failed _ hk' nofun
      · rename_i state hstate
        rw [← hcell'] at hstate
        have hv := (loadSchedule_of_sameOn base hstate (sameOn_pop state)).trans hcell
        exact .clearing merged _ hk' hv hcell htick
    · rw [htask] at hk
      cases hk
  | clearing merged v htask hv hcell htick =>
    rw [← htick''] at htick
    rcases hstep with ⟨k, hk, _⟩ | ⟨w, k, hk, hk', hcell'⟩
    · rw [htask] at hk
      cases hk
    · rw [htask] at hk
      cases hk
      exact .answered merged hk' (by rw [hcell', hv]) htick
  | answered merged htask hcell htick =>
    rcases hstep with ⟨k, hk, _⟩ | ⟨v, k, hk, _⟩
    · rw [htask] at hk
      cases hk
    · rw [htask] at hk
      cases hk
  | failed o htask ho =>
    rcases hstep with ⟨k, hk, _⟩ | ⟨v, k, hk, _⟩
    · rw [htask] at hk
      cases hk
    · rw [htask] at hk
      cases hk

/-- **No lost schedule change.** In every run of a tick and a request in which `save_schedule`
does not write while the tick is between its second read and its write, the file has the schedule
that the accepted request reported once both have ended. -/
theorem schedule_kept (ready : Bool) (base : Dict) (timing : Timing) (body : Json)
    (file : ScheduleFile) (labels : List Bool)
    (h : Pair.machine.Guarded NotHeld (race ready base timing body file) labels) :
    Pair.machine.Always (ScheduleKept base) (race ready base timing body file) labels := by
  have hinv : Pair.machine.Always (RaceInv base body) (race ready base timing body file)
      labels := by
    refine Pair.machine.always_of_guarded ?_ ?_ h
    · intro s i s' hs hg hstep
      cases i with
      | false => exact raceInv_tick hstep hs
      | true => exact raceInv_post hstep hg hs
    · exact .started rfl rfl (.inl (tick_keeps ready base timing))
  exact hinv.mono fun _ hs => hs.kept

/-- A file with an enabled schedule whose slot has come. -/
def dueFile : ScheduleFile :=
  some (.obj [(lit "enabled", .bool true), (lit "mode", .str (lit "interval")),
    (lit "next_run", .float (.fin 100))])

/-- A tick at 101 s: the slot has come, and the next one is 360 minutes later. -/
def lateTiming : Timing := ⟨fun _ _ => .ok (.float (.fin 21700)), fun _ _ => .ok true⟩

/-- The request that disables the schedule. -/
def disableBody : Json := .obj [(lit "enabled", .bool false)]

/-- The race of the two, without settings in the environment. -/
def disableRace : Race :=
  race true (envDefaults (fun _ => none) scheduleSpec []) lateTiming disableBody dueFile

omit [Tables]

/-- The tick reads its state after `save_schedule`, and writes last. -/
theorem schedule_kept_read_late : letI := Tables.ascii
    let labels := [false, true, true, false, true, true, false]
    Pair.machine.Guarded NotHeld disableRace labels ∧
      Pair.machine.Always (ScheduleKept (envDefaults (fun _ => none) scheduleSpec []))
        disableRace labels := by
  let _ := Tables.ascii
  intro labels
  have hguarded : Pair.machine.Guarded NotHeld disableRace labels := by
    refine .cons rfl nofun <| .cons rfl ?_ <| .cons rfl ?_ <| .cons rfl nofun <| .cons rfl ?_ <|
      .cons rfl ?_ <| .cons rfl nofun trivial
    · exact fun _ hsteps => absurd hsteps (by decide)
    · exact fun _ _ v k => nofun
    · exact fun _ hsteps => absurd hsteps (by decide)
    · exact fun _ hsteps => absurd hsteps (by decide)
  exact ⟨hguarded, schedule_kept true _ lateTiming disableBody dueFile labels hguarded⟩

/-- The tick reads its state, the request disables the schedule and is accepted, and the tick's
write enables it again. -/
theorem disabled_schedule_restored : letI := Tables.ascii
    ¬∀ ready base timing body file labels,
      Pair.machine.Always (ScheduleKept base) (race ready base timing body file) labels := by
  let _ := Tables.ascii
  intro h
  have halways : Pair.machine.Always (ScheduleKept _) disableRace
      [false, false, true, true, true, true, false] := h _ _ _ _ _ _
  obtain ⟨s, hrun⟩ : ∃ s, Pair.machine.run disableRace
      [false, false, true, true, true, true, false] = some s := ⟨_, rfl⟩
  have hkept := halways.last hrun
  cases hrun
  have hload := hkept _ rfl ⟨_, rfl⟩
  -- the request reports a disabled schedule, and the file has an enabled one
  have henabled := congrArg
    (fun r : Result Normalized => r.map fun n => (n.settings.get0 (lit "enabled")).truthy) hload
  exact absurd henabled (by decide)

end WebZapret.Selection
