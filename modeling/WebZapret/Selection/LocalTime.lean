import WebZapret.Selection.NextRun
import WebZapret.Lib.Calendar

/-!
# Local time

A clock has a standard and a daylight saving offset, of which one is in effect at each instant.
`time.localtime` and `time.mktime` convert as in C: the former tells which offset is in effect, and
the latter uses the one that it is told (`Clock.zone`). Over a clock the loop of `next_run_at` looks
at one instant a day from the present on and returns the first slot that it can take
(`firstSlot_clock`).
-/

namespace WebZapret.Selection

open Py Failing Calendar

/-! ## Clocks -/

/-- A time zone; the offsets are seconds east of UTC. -/
structure Clock where
  std : Int
  dst : Int
  /-- daylight saving time is in effect at an instant -/
  isDst : Int → Bool
  /-- the two offsets are less than a day apart -/
  close : -86400 < dst - std ∧ dst - std < 86400

namespace Clock

variable (c : Clock)

/-- The offset of standard or of daylight saving time. -/
def offset (flag : Bool) : Int := if flag then c.dst else c.std

/-- The offset in effect. -/
def offsetAt (t : Int) : Int := c.offset (c.isDst t)

/-- The seconds that the local clock has counted. -/
def localSecond (t : Int) : Int := t + c.offsetAt t

def localDay (t : Int) : Int := c.localSecond t / 86400

/-- `time.localtime` -/
def localtime (t : Rat) : Tm :=
  let day := c.localDay ⌊t⌋
  let time := c.localSecond ⌊t⌋ % 86400
  let date := civil day
  { year := date.year, mon := date.month, mday := date.day
    hour := time / 3600, min := time % 3600 / 60, sec := time % 60
    wday := weekday day, yday := day - dayNumber ⟨date.year, 1, 1⟩ + 1
    isdst := if c.isDst ⌊t⌋ then 1 else 0 }

/-- The seconds that a local clock has counted when it shows a time. -/
def secondOf (tm : Tm) : Int :=
  dayNumber ⟨tm.year, tm.mon, tm.mday⟩ * 86400 + tm.hour * 3600 + tm.min * 60 + tm.sec

/-- `time.mktime`; without a flag it takes standard time, unless that is not in effect then. -/
def mktime (tm : Tm) : Int :=
  if tm.isdst < 0 then secondOf tm - c.offset (c.isDst (secondOf tm - c.std))
  else secondOf tm - c.offset (0 < tm.isdst)

/-- The two functions of the clock. -/
def zone : Zone := ⟨fun t => .ok (c.localtime t), fun tm => .ok (c.mktime tm)⟩

/-- A clock with one offset. -/
def fixed (offset : Int) : Clock := ⟨offset, offset, fun _ => false, by omega⟩

/-! ## Slots -/

/-- The clock shows the hour and the minute, with no seconds. -/
def Shows (hour minute : Int) (t : Int) : Prop :=
  (c.localtime t).hour = hour ∧ (c.localtime t).min = minute ∧ (c.localtime t).sec = 0

/-- The time of day on the local day of an instant, by the offset of that instant. -/
def slotOf (time t : Int) : Int := c.localDay t * 86400 + time - c.offsetAt t

variable {c}

theorem shows_iff {hour minute t : Int} (hminute : 0 ≤ minute) (hminute' : minute < 60) :
    c.Shows hour minute t ↔ c.localSecond t % 86400 = hour * 3600 + minute * 60 := by
  unfold Shows localtime
  dsimp only
  rw [Int.floor_intCast]
  have htime := Int.emod_nonneg (c.localSecond t) (by decide : (86400 : Int) ≠ 0)
  have htime' := Int.emod_lt_of_pos (c.localSecond t) (by decide : (0 : Int) < 86400)
  omega

/-- The time of day that `mktime` is asked for. -/
theorem mktime_slot (c : Clock) (t : Rat) (hour minute : Int) :
    c.mktime { c.localtime t with hour := hour, min := minute, sec := 0 } =
      c.slotOf (hour * 3600 + minute * 60) ⌊t⌋ := by
  unfold mktime secondOf slotOf offsetAt localtime
  dsimp only
  rw [dayNumber_civil]
  cases c.isDst ⌊t⌋ with
  | true =>
    rw [if_pos rfl, if_neg (by decide)]
    simp only [Int.zero_lt_one, decide_true]
    omega
  | false =>
    rw [if_neg Bool.false_ne_true, if_neg (by decide)]
    simp only [Int.lt_irrefl, decide_false]
    omega

theorem wday_localtime (c : Clock) (t : Int) : (c.localtime t).wday = weekday (c.localDay t) := by
  unfold localtime
  rw [Int.floor_intCast]

end Clock

/-! ## The loop over the days -/

/-- The schedule runs on this day of the week. -/
def OnDay (weekly : Prop) (days : List Str) (day : Int) : Prop :=
  weekly → weekdays[weekday day] ∈ days

instance (weekly : Prop) [Decidable weekly] (days : List Str) (day : Int) :
    Decidable (OnDay weekly days day) :=
  inferInstanceAs (Decidable (weekly → _))

/-- The instant that the loop looks at for a number of days. -/
def probe (anchor : Rat) (k : Nat) : Int := ⌊anchor⌋ + k * 86400

/-- The slot of an instant is one that the loop takes. -/
def Takes (c : Clock) (weekly : Prop) (days : List Str) (anchor : Rat) (time t : Int) : Prop :=
  anchor < c.slotOf time t ∧ OnDay weekly days (c.localDay (c.slotOf time t))

instance (c : Clock) (weekly : Prop) [Decidable weekly] (days : List Str) (anchor : Rat)
    (time t : Int) : Decidable (Takes c weekly days anchor time t) :=
  inferInstanceAs (Decidable (_ ∧ _))

theorem floor_probe (anchor : Rat) (k : Nat) : ⌊anchor + k * 24 * 3600⌋ = probe anchor k := by
  have hcast : anchor + k * 24 * 3600 = anchor + ((k * 86400 : Int) : Rat) := by
    push_cast
    ring
  rw [hcast, Int.floor_add_intCast, probe]

/-- One turn of the loop. -/
theorem firstSlot_cons (c : Clock) (weekly : Prop) [Decidable weekly] (days : List Str)
    (anchor : Rat) (hour minute : Int) (k : Nat) (ks : List Nat) :
    firstSlot c.zone weekly days anchor hour minute (k :: ks) =
      if Takes c weekly days anchor (hour * 3600 + minute * 60) (probe anchor k) then
        .ok (.int (c.slotOf (hour * 3600 + minute * 60) (probe anchor k)))
      else firstSlot c.zone weekly days anchor hour minute ks := by
  have hslot := c.mktime_slot (anchor + k * 24 * 3600) hour minute
  rw [floor_probe] at hslot
  have hturn : ∀ candidate, c.mktime { c.localtime (anchor + k * 24 * 3600) with
      hour := hour, min := minute, sec := 0 } = candidate →
      firstSlot c.zone weekly days anchor hour minute (k :: ks) =
        if (candidate : Rat) ≤ anchor then firstSlot c.zone weekly days anchor hour minute ks
        else if weekly ∧ weekdays[(c.localtime candidate).wday] ∉ days then
          firstSlot c.zone weekly days anchor hour minute ks
        else .ok (.int candidate) := by
    rintro _ rfl
    rfl
  rw [hturn _ hslot, Clock.wday_localtime]
  by_cases hlate : anchor < (c.slotOf (hour * 3600 + minute * 60) (probe anchor k) : Rat)
  · rw [if_neg (not_le.mpr hlate)]
    by_cases hday : OnDay weekly days
        (c.localDay (c.slotOf (hour * 3600 + minute * 60) (probe anchor k)))
    · have hnot : ¬(weekly ∧ weekdays[weekday
          (c.localDay (c.slotOf (hour * 3600 + minute * 60) (probe anchor k)))] ∉ days) :=
        fun h => h.2 (hday h.1)
      rw [if_neg hnot, if_pos ⟨hlate, hday⟩]
    · have hweekly : weekly ∧ weekdays[weekday
          (c.localDay (c.slotOf (hour * 3600 + minute * 60) (probe anchor k)))] ∉ days := by
        rw [OnDay, Classical.not_imp] at hday
        exact hday
      rw [if_pos hweekly, if_neg fun h => hday h.2]
  · rw [if_pos (not_lt.mp hlate), if_neg fun h => hlate h.1]

/-- The loop returns the slot of the first instant whose slot it takes. -/
theorem firstSlot_clock (c : Clock) (weekly : Prop) [Decidable weekly] (days : List Str)
    (anchor : Rat) (hour minute : Int) (ks : List Nat) :
    firstSlot c.zone weekly days anchor hour minute ks = .ok (
      match ks.find? fun k =>
        Takes c weekly days anchor (hour * 3600 + minute * 60) (probe anchor k) with
      | some k => .int (c.slotOf (hour * 3600 + minute * 60) (probe anchor k))
      | none => .null) := by
  induction ks with
  | nil => rfl
  | cons k ks ih =>
    rw [firstSlot_cons, ih]
    by_cases htakes : Takes c weekly days anchor (hour * 3600 + minute * 60) (probe anchor k)
    · rw [if_pos htakes, List.find?_cons_of_pos (by simpa using htakes)]
    · rw [if_neg htakes, List.find?_cons_of_neg (by simpa using htakes)]

/-- A slot is returned from the first instant whose slot is taken. -/
theorem firstSlot_eq_iff (c : Clock) (weekly : Prop) [Decidable weekly] (days : List Str)
    (anchor : Rat) (hour minute : Int) (n : Nat) (slot : Int) :
    firstSlot c.zone weekly days anchor hour minute (List.range n) = .ok (.int slot) ↔
      ∃ k < n, c.slotOf (hour * 3600 + minute * 60) (probe anchor k) = slot ∧
        Takes c weekly days anchor (hour * 3600 + minute * 60) (probe anchor k) ∧
        ∀ j < k, ¬Takes c weekly days anchor (hour * 3600 + minute * 60) (probe anchor j) := by
  rw [firstSlot_clock]
  constructor
  · intro h
    split at h
    · rename_i k hk
      obtain ⟨htakes, hmem, hbefore⟩ := List.find?_range_eq_some.mp hk
      injection h with h
      injection h with h
      refine ⟨k, List.mem_range.mp hmem, h, of_decide_eq_true htakes, ?_⟩
      intro j hj
      simpa using hbefore j hj
    · cases h
  · intro h
    obtain ⟨k, hk, hslot, htakes, hbefore⟩ := h
    have hfind : ((List.range n).find? fun k =>
        Takes c weekly days anchor (hour * 3600 + minute * 60) (probe anchor k)) = some k := by
      apply List.find?_range_eq_some.mpr
      refine ⟨decide_eq_true htakes, List.mem_range.mpr hk, ?_⟩
      intro j hj
      simpa using hbefore j hj
    rw [hfind]
    dsimp only
    rw [hslot]

end WebZapret.Selection
