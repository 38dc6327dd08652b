import WebZapret.Selection.Schedule
import WebZapret.Lib.Progression
import Mathlib.Algebra.Order.Floor.Ring
import Mathlib.Tactic.Ring
import Mathlib.Tactic.FieldSimp
import Mathlib.Tactic.Linarith

/-!
# The next run

`next_run_at` and `schedule_due`. Instants are exact numbers of seconds; a NaN or an infinity is
no instant. `time.localtime` and `time.mktime` are a parameter (`Zone`).

In interval mode the next slot is reached from the last one in steps of the interval, until it is
after the present (`advance_mem_eval`), so it is the first one that is: `isLeast_advance`.
-/

namespace WebZapret.Selection

open Py Failing Progression StateTransition

/-- `time.struct_time` -/
structure Tm where
  year : Int
  mon : Int
  mday : Int
  hour : Int
  min : Int
  sec : Int
  wday : Fin 7
  yday : Int
  isdst : Int

/-- `time.localtime` and `time.mktime` -/
structure Zone where
  localtime : Rat → Result Tm
  mktime : Tm → Result Int

/-! ## Interval mode -/

/-- `max(5, interval_min) * MINUTE` -/
def slotStep (minutes : Int) : Rat := (max 5 minutes * 60 : Int)

theorem slotStep_pos (minutes : Int) : 0 < slotStep minutes := by
  unfold slotStep
  have hpos : 0 < max 5 minutes * 60 := by omega
  exact_mod_cast hpos

/-- `while target <= now: target += step` -/
def advance (minutes : Int) (now target : Rat) : Rat :=
  if target ≤ now then advance minutes now (target + slotStep minutes) else target
termination_by (⌊(now - target) / slotStep minutes⌋ + 1).toNat
decreasing_by
  have hpos := slotStep_pos minutes
  have hstep : (now - (target + slotStep minutes)) / slotStep minutes =
      (now - target) / slotStep minutes - 1 := by
    field_simp
    ring
  have hnonneg : 0 ≤ ⌊(now - target) / slotStep minutes⌋ := by
    apply Int.floor_nonneg.mpr
    apply div_nonneg
    · linarith
    · exact hpos.le
  rw [hstep, Int.floor_sub_one]
  omega

/-- Where the loop ends is what `advance` gives. -/
theorem advance_eq_of_mem_eval {minutes : Int} {now target slot : Rat}
    (h : slot ∈ eval (climb (slotStep minutes) now) target) : advance minutes now target = slot := by
  refine evalInduction h fun target hslot ih => ?_
  rw [advance]
  by_cases hle : target ≤ now
  · rw [if_pos hle]
    exact ih _ (if_pos hle)
  · rw [if_neg hle]
    exact Part.mem_unique (mem_eval.mpr ⟨.refl, if_neg hle⟩) hslot

/-- **The loop ends.** -/
theorem advance_mem_eval (minutes : Int) (now target : Rat) :
    advance minutes now target ∈ eval (climb (slotStep minutes) now) target := by
  obtain ⟨slot, hslot⟩ := exists_mem_eval_climb (slotStep_pos minutes) now target
  rwa [advance_eq_of_mem_eval hslot]

/-- It ends at the first of the slots after the last one that is after the present. -/
theorem isLeast_advance (minutes : Int) (now last : Rat) :
    IsLeast (beyond last (slotStep minutes) now) (advance minutes now (last + slotStep minutes)) :=
  isLeast_of_mem_eval (slotStep_pos minutes) (advance_mem_eval minutes now _)

variable [Tables]

/-- `float(x)` -/
def instant : Json → Result Rat
  | .bool b => .ok b.toNat
  | .int i => .ok i
  | .float x =>
    match x.toRat? with
    | some q => .ok q
    | none => .error .overflowError
  | .str s =>
    match (Tables.parseFloat s).bind Flt.toRat? with
    | some q => .ok q
    | none => .error (.valueError (lit "could not convert string to float: " ++ Json.reprStr s))
  | _ => .error .typeError

/-- The part of `next_run_at` for `mode == "interval"`. -/
def intervalSlot (schedule : Dict) (now : Rat) (lastRun : Json) : Result Json := do
  let minutes ← (schedule.get (lit "interval_min") (.int 360)).toInt
  match lastRun with
  | .null =>
    let start := (schedule.get0 (lit "run_on_start")).truthy
    return .float (.fin (if start then now else now + slotStep minutes))
  | lastRun =>
    let last ← instant lastRun
    return .float (.fin (advance minutes now (last + slotStep minutes)))

/-! ## Daily and weekly mode -/

/-- `hour, minute = [int(x) for x in text.split(":")]` -/
def hourMinute (text : Str) : Result (Int × Int) :=
  match text.split 58 with
  | [hour, minute] => do return (← (Json.str hour).toInt, ← (Json.str minute).toInt)
  | _ => .error (.valueError (lit "too many values to unpack (expected 2)"))

/-- `hash(x)` raises nothing. -/
def hashable : Json → Bool
  | .arr _ | .obj _ => false
  | _ => true

/-- `[d for d in items if d in _DAY_INDEX] or list(DAYS)` -/
def chosenDays (items : List Json) : Result (List Str) :=
  if ¬items.all hashable then .error .typeError
  else .ok (if knownDays items = [] then weekdays else knownDays items)

/-- The loop over the days from the one of `anchor`. -/
def firstSlot (zone : Zone) (weekly : Prop) [Decidable weekly] (days : List Str) (anchor : Rat)
    (hour minute : Int) : List Nat → Result Json
  | [] => .ok .null
  | offset :: offsets => do
    let stamp ← zone.localtime (anchor + offset * 24 * 3600)
    let candidate ← zone.mktime { stamp with hour := hour, min := minute, sec := 0 }
    if candidate ≤ anchor then firstSlot zone weekly days anchor hour minute offsets
    else
      let wday := (← zone.localtime candidate).wday
      if weekly ∧ weekdays[wday] ∉ days then
        firstSlot zone weekly days anchor hour minute offsets
      else return .int candidate

/-- `max(now, float(last_run)) if last_run is not None else now` -/
def anchorOf (now : Rat) : Json → Result Rat
  | .null => .ok now
  | lastRun => do return max now (← instant lastRun)

/-- The part of `next_run_at` for the other modes. -/
def daySlot (zone : Zone) (schedule : Dict) (now : Rat) (lastRun : Json) : Result Json := do
  if ¬validHhmm (schedule.get0 (lit "at")) then return .null
  let (hour, minute) ← hourMinute (schedule.get0 (lit "at")).text
  let listed ← (schedule.get (lit "days") (.arr (weekdays.map .str))).iter
  let days ← chosenDays listed
  let anchor ← anchorOf now lastRun
  let weekly := (schedule.get (lit "mode") (.str (lit "daily"))).Is (lit "weekly")
  firstSlot zone weekly days anchor hour minute (List.range 9)

/-! ## The two functions -/

/-- `next_run_at` -/
def nextRunAt (zone : Zone) (now : Rat) (schedule : Dict) (lastRun : Json) : Result Json :=
  if ¬(schedule.get0 (lit "enabled")).truthy then .ok .null
  else if (schedule.get (lit "mode") (.str (lit "daily"))).Is (lit "interval") then
    intervalSlot schedule now lastRun
  else daySlot zone schedule now lastRun

/-- `schedule_due` -/
def scheduleDue (now : Rat) (schedule : Dict) (nextRun : Json) : Result Bool :=
  match nextRun with
  | .null => .ok false
  | nextRun =>
    if ¬(schedule.get0 (lit "enabled")).truthy then .ok false
    else do return decide ((← instant nextRun) ≤ now)

/-- In interval mode. -/
theorem nextRunAt_of_interval {zone : Zone} {now : Rat} {schedule : Dict}
    (henabled : (schedule.get0 (lit "enabled")).truthy = true)
    (hmode : (schedule.get (lit "mode") (.str (lit "daily"))).Is (lit "interval")) (lastRun : Json) :
    nextRunAt zone now schedule lastRun = intervalSlot schedule now lastRun := by
  rw [nextRunAt, if_neg (not_not_intro henabled), if_pos hmode]

/-- The two functions at the time of a tick. -/
def timingAt (zone : Zone) (now : Rat) : Timing := ⟨nextRunAt zone now, scheduleDue now⟩

end WebZapret.Selection
