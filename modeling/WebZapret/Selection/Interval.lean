import WebZapret.Selection.LocalTime

/-!
# The slots of an interval schedule

In interval mode `next_run_at` goes on from the last run in steps of the interval until it has passed
the present. The loop ends whatever the last run was, also one in the future: the next slot is then the
one after it.

Main result: `interval_next`, about every enabled interval schedule, every present and every last run.
-/

namespace WebZapret.Selection

open Py Failing Progression StateTransition

variable [Tables]

/-- An enabled schedule in interval mode, with the interval as `int` reads it. -/
structure IntervalSchedule (schedule : Dict) (minutes : Int) : Prop where
  enabled : (schedule.get0 (lit "enabled")).truthy = true
  mode : (schedule.get (lit "mode") (.str (lit "daily"))).Is (lit "interval")
  interval : (schedule.get (lit "interval_min") (.int 360)).toInt = .ok minutes

/-- The next slot after a last run, by the present. -/
def nextSlot (minutes : Int) (last now : Rat) : Rat := advance minutes now (last + slotStep minutes)

/-- `slot now` is what `next_run_at` returns at `now`: where its loop ends, and the least instant after
the present that is a whole number of steps after the last run. -/
structure IntervalSlots (zone : Zone) (schedule : Dict) (lastRun : Json) (last step : Rat)
    (slot : Rat → Rat) : Prop where
  ends : ∀ now, slot now ∈ eval (climb step now) (last + step)
  returned : ∀ now, nextRunAt zone now schedule lastRun = .ok (.float (.fin (slot now)))
  least : ∀ now, IsLeast (beyond last step now) (slot now)
  monotone : Monotone slot
  bound : ∀ now, slot now ≤ max now last + step

variable {zone : Zone} {schedule : Dict} {minutes : Int} {lastRun : Json} {last : Rat}

theorem IntervalSchedule.nextRunAt_eq (h : IntervalSchedule schedule minutes)
    (hlast : instant lastRun = .ok last) (now : Rat) :
    nextRunAt zone now schedule lastRun = .ok (.float (.fin (nextSlot minutes last now))) := by
  rw [nextRunAt_of_interval h.enabled h.mode, intervalSlot, h.interval]
  cases lastRun with
  | null => cases hlast
  | _ =>
    exact congrArg (fun r : Result Rat => do
      return Json.float (.fin (nextSlot minutes (← r) now))) hlast

omit [Tables] in
/-- A later present has no earlier slot. -/
theorem nextSlot_monotone (minutes : Int) (last : Rat) : Monotone (nextSlot minutes last) :=
  fun now now' h =>
    (isLeast_advance minutes now' last).mono (isLeast_advance minutes now last) (beyond_anti h)

/-- **The next slot of an interval schedule** is the first one after the present. -/
theorem interval_next (h : IntervalSchedule schedule minutes) (hlast : instant lastRun = .ok last)
    (zone : Zone) :
    IntervalSlots zone schedule lastRun last (slotStep minutes) (nextSlot minutes last) where
  ends now := advance_mem_eval minutes now _
  returned := h.nextRunAt_eq hlast
  least now := isLeast_advance minutes now last
  monotone := nextSlot_monotone minutes last
  bound now := le_max_add_of_isLeast (slotStep_pos minutes) (isLeast_advance minutes now last)

/-- A half-hourly schedule. -/
def halfHourly : Dict :=
  [(lit "enabled", .bool true), (lit "mode", .str (lit "interval")), (lit "interval_min", .int 30)]

omit [Tables]

/-- Its last run was ten hours before 1700000000. -/
theorem interval_next_downtime : letI := Tables.ascii
    IntervalSlots (Clock.fixed 0).zone halfHourly (.int 1699964000) 1699964000 (slotStep 30)
      (nextSlot 30 1699964000) := by
  let _ := Tables.ascii
  have hschedule : IntervalSchedule halfHourly 30 := ⟨rfl, rfl, rfl⟩
  exact interval_next hschedule rfl (Clock.fixed 0).zone

end WebZapret.Selection
