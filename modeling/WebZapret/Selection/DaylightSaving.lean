import WebZapret.Selection.Slots
import Mathlib.Data.Int.LeastGreatest

/-!
# Daylight saving time

The loop of `next_run_at` takes the day and the offset of an instant a whole number of 24 hours
after the present, and asks for the time of day on that day by that offset. Around a change of the
clock this need not be an instant at which the clock shows that time, and a day of 23 hours can lie
between two of the instants. The result is right exactly when the first instant whose slot the loop
takes is on the day of the next occurrence and has its offset (`nextRunAt_keeps_iff`).
-/

namespace WebZapret.Selection

open Py Failing Calendar

namespace Clock

variable (c : Clock) (weekly : Prop) (days : List Str) (anchor : Rat) (hour minute : Int)

/-- The clock shows the time of day at the result, and no day of the schedule with a later
occurrence comes before it. -/
def Keeps (result : Result Json) : Prop :=
  ∃ slot : Int, result = .ok (.int slot) ∧ c.Shows hour minute slot ∧
    ∀ t ∈ c.Upcoming weekly days anchor hour minute, c.localDay slot ≤ c.localDay t

/-- On each day of the schedule the clock shows the time once. -/
def OnceADay : Prop :=
  ∀ day, OnDay weekly days day → ∃! t, c.Shows hour minute t ∧ c.localDay t = day

/-- A probe is on the day of an instant and has its offset, and the loop takes none before it. -/
def Meets (next : Int) : Prop :=
  ∃ k < 9, c.localDay (probe anchor k) = c.localDay next ∧
    c.offsetAt (probe anchor k) = c.offsetAt next ∧
    ∀ j < k, ¬Takes c weekly days anchor (hour * 3600 + minute * 60) (probe anchor j)

variable {c weekly days anchor hour minute}

/-! ## Days and instants -/

theorem offsetAt_close (c : Clock) (s t : Int) :
    c.offsetAt s - c.offsetAt t < 86400 := by
  have hclose := c.close
  unfold offsetAt offset
  split <;> split <;> omega

/-- The occurrence of an earlier day is earlier. -/
theorem lt_of_localDay_lt (hminute : 0 ≤ minute ∧ minute < 60) {s t : Int}
    (hs : c.Shows hour minute s) (ht : c.Shows hour minute t) (h : c.localDay s < c.localDay t) :
    s < t := by
  rw [shows_iff_slotOf hminute, slotOf] at hs ht
  have hclose := c.offsetAt_close t s
  omega

/-- A slot tells the day and the offset that it is made of. -/
theorem slotOf_inj {time s t : Int} (h : c.slotOf time s = c.slotOf time t) :
    c.localDay s = c.localDay t ∧ c.offsetAt s = c.offsetAt t := by
  have hclose := c.offsetAt_close s t
  have hclose' := c.offsetAt_close t s
  unfold slotOf at h
  omega

/-- There is a next occurrence. -/
theorem exists_isLeast_upcoming (honce : c.OnceADay weekly days hour minute) {w : Fin 7}
    (hw : weekdays[w] ∈ days) (anchor : Rat) :
    ∃ next, IsLeast (c.Upcoming weekly days anchor hour minute) next := by
  have hsome : ∃ t, t ∈ c.Upcoming weekly days anchor hour minute := by
    obtain ⟨k, _, hk⟩ :=
      exists_weekday ((⌊anchor⌋ + max c.std c.dst) / 86400 + 1) w
    obtain ⟨t, ⟨hshows, hday⟩, _⟩ :=
      honce ((⌊anchor⌋ + max c.std c.dst) / 86400 + 1 + k) fun _ => hk ▸ hw
    refine ⟨t, ?_, hshows, fun _ => ?_⟩
    · apply Int.floor_lt.mp
      have hoffset : c.offsetAt t ≤ max c.std c.dst := by
        unfold offsetAt offset
        split <;> omega
      unfold localDay localSecond at hday
      omega
    · rw [hday]
      exact hk ▸ hw
  have hbelow : ∃ b, ∀ t, t ∈ c.Upcoming weekly days anchor hour minute → b ≤ t :=
    ⟨⌊anchor⌋, fun t ht => (Int.floor_lt.mpr ht.1).le⟩
  obtain ⟨next, hnext, hleast⟩ := Int.exists_least_of_bdd hbelow hsome
  exact ⟨next, hnext, hleast⟩

/-! ## The loop -/

variable [Decidable weekly]

/-- The result is the next occurrence, or it is not right. -/
theorem keeps_iff_eq (hminute : 0 ≤ minute ∧ minute < 60)
    (honce : c.OnceADay weekly days hour minute) {next : Int}
    (hnext : IsLeast (c.Upcoming weekly days anchor hour minute) next) :
    c.Keeps weekly days anchor hour minute
        (firstSlot c.zone weekly days anchor hour minute (List.range 9)) ↔
      firstSlot c.zone weekly days anchor hour minute (List.range 9) = .ok (.int next) := by
  constructor
  · intro h
    obtain ⟨slot, hslot, hshows, hday⟩ := h
    have htaken : (slot : Rat) > anchor ∧ OnDay weekly days (c.localDay slot) := by
      obtain ⟨k, _, heq, htakes, _⟩ := (firstSlot_eq_iff ..).mp hslot
      exact heq ▸ htakes
    have hle := hday next hnext.1
    have hge : c.localDay next ≤ c.localDay slot := by
      by_contra hlt
      have hearlier := lt_of_localDay_lt hminute hshows hnext.1.2.1 (not_le.mp hlt)
      exact absurd (hnext.2 ⟨htaken.1, hshows, htaken.2⟩) (not_le.mpr hearlier)
    have heq : slot = next := (honce _ htaken.2).unique ⟨hshows, rfl⟩
      ⟨hnext.1.2.1, le_antisymm hge hle⟩
    rw [hslot, heq]
  · intro h
    refine ⟨next, h, hnext.1.2.1, ?_⟩
    intro t ht
    by_contra hlt
    have hearlier := lt_of_localDay_lt hminute ht.2.1 hnext.1.2.1 (not_le.mp hlt)
    exact absurd (hnext.2 ht) (not_le.mpr hearlier)

/-- The loop returns an occurrence of the schedule from a probe of its day and offset. -/
theorem eq_iff_meets (hminute : 0 ≤ minute ∧ minute < 60) {next : Int}
    (hnext : next ∈ c.Upcoming weekly days anchor hour minute) :
    firstSlot c.zone weekly days anchor hour minute (List.range 9) = .ok (.int next) ↔
      c.Meets weekly days anchor hour minute next := by
  obtain ⟨hafter, hshows, hday⟩ := hnext
  have hself := (shows_iff_slotOf hminute).mp hshows
  rw [firstSlot_eq_iff]
  constructor
  · intro h
    obtain ⟨k, hk, hslot, _, hbefore⟩ := h
    obtain ⟨hd, ho⟩ := slotOf_inj (hslot.trans hself.symm)
    exact ⟨k, hk, hd, ho, hbefore⟩
  · intro h
    obtain ⟨k, hk, hd, ho, hbefore⟩ := h
    have hslot : c.slotOf (hour * 3600 + minute * 60) (probe anchor k) = next := by
      rw [slotOf, hd, ho, ← slotOf, hself]
    refine ⟨k, hk, hslot, ?_, hbefore⟩
    rw [Takes, hslot]
    exact ⟨hafter, hday⟩

end Clock

variable [Tables] [DecimalTables] {schedule : Dict} {days : List Str}

/-- **The next run is the next occurrence exactly when the first probe that is taken is on its day
and has its offset.** -/
theorem nextRunAt_keeps_iff (c : Clock) (h : ByDay schedule days) {now anchor : Rat}
    {lastRun : Json} (hanchor : anchorOf now lastRun = .ok anchor) {hour minute : Int}
    (hat : hourMinute (schedule.get0 (lit "at")).text = .ok (hour, minute))
    (honce : c.OnceADay (Weekly schedule) days hour minute) :
    ∃ next, IsLeast (c.Upcoming (Weekly schedule) days anchor hour minute) next ∧
      (c.Keeps (Weekly schedule) days anchor hour minute
          (nextRunAt c.zone now schedule lastRun) ↔
        c.Meets (Weekly schedule) days anchor hour minute next) := by
  have hminute := (hourMinute_bounds h.time hat).2
  obtain ⟨items, _, hdays⟩ := h.listed
  obtain ⟨w, hw⟩ := chosenDays_spec hdays
  obtain ⟨next, hnext⟩ := Clock.exists_isLeast_upcoming honce hw anchor
  refine ⟨next, hnext, ?_⟩
  rw [nextRunAt_byDay h hanchor hat, Clock.keeps_iff_eq hminute honce hnext,
    Clock.eq_iff_meets hminute hnext.1]

/-! ## A day of 23 hours -/

omit [Tables] [DecimalTables]

/-- One hour east of UTC, and two from 29 March to 25 October 2026, each at 01:00 UTC. -/
def summer : Clock := ⟨3600, 7200, fun t => 1774746000 ≤ t ∧ t < 1792890000, by decide⟩

/-- Noon, every day. -/
def noon : Dict :=
  [(lit "enabled", .bool true), (lit "mode", .str (lit "daily")), (lit "at", .str (lit "12:00"))]

theorem noon_byDay : letI := Tables.ascii; ByDay noon weekdays := by
  let _ := Tables.ascii
  exact ⟨rfl, .inl rfl, by decide, _, rfl, rfl⟩

theorem noon_hourMinute : letI := Tables.ascii
    hourMinute (noon.get0 (lit "at")).text = .ok (12, 0) := by
  let _ := Tables.ascii
  rfl

/-- Noon is once a day, since no clock is changed then. -/
theorem noon_onceADay (weekly : Prop) (days : List Str) :
    summer.OnceADay weekly days 12 0 := by
  have hoffset : ∀ t, summer.offsetAt t =
      if 1774746000 ≤ t ∧ t < 1792890000 then 7200 else 3600 := by
    intro t
    by_cases h : 1774746000 ≤ t ∧ t < 1792890000
    · simp [Clock.offsetAt, Clock.offset, summer, h]
    · simp [Clock.offsetAt, Clock.offset, summer, h]
  have hshows : ∀ t, summer.Shows 12 0 t ↔ summer.localDay t * 86400 + 43200 -
      summer.offsetAt t = t := fun t => Clock.shows_iff_slotOf (by decide)
  have hday : ∀ t, summer.localDay t = (t + summer.offsetAt t) / 86400 := fun _ => rfl
  intro day _
  refine ⟨day * 86400 + 43200 - if 20541 ≤ day ∧ day < 20751 then 7200 else 3600, ?_, ?_⟩
  · dsimp only
    rw [hshows, hday, hoffset]
    split <;> split <;> omega
  · intro t ht
    obtain ⟨ht, rfl⟩ := ht
    rw [hshows, hday] at ht
    rw [hday]
    rw [hoffset] at ht ⊢
    split at ht <;> split <;> omega

/-- At midnight before the change the first probe is on the day of the next noon. -/
theorem nextRunAt_keeps_iff_noon : letI := Tables.ascii
    ∃ next, IsLeast (summer.Upcoming (Weekly noon) weekdays 1774738800 12 0) next ∧
      (summer.Keeps (Weekly noon) weekdays 1774738800 12 0
          (nextRunAt summer.zone 1774738800 noon .null) ↔
        summer.Meets (Weekly noon) weekdays 1774738800 12 0 next) := by
  let _ := Tables.ascii
  have _ := decimalTables_ascii
  exact nextRunAt_keeps_iff summer noon_byDay rfl noon_hourMinute (noon_onceADay _ _)

/-- It does not have its offset: the slot is at 13:00. -/
theorem noon_moved : letI := Tables.ascii
    (ByDay noon weekdays ∧ anchorOf 1774738800 .null = .ok 1774738800 ∧
      hourMinute (noon.get0 (lit "at")).text = .ok (12, 0) ∧
      summer.OnceADay (Weekly noon) weekdays 12 0) ∧
    ¬summer.Keeps (Weekly noon) weekdays 1774738800 12 0
      (nextRunAt summer.zone 1774738800 noon .null) := by
  let _ := Tables.ascii
  refine ⟨⟨noon_byDay, rfl, noon_hourMinute, noon_onceADay _ _⟩, ?_⟩
  have hfloor : ⌊(1774738800 : Rat)⌋ = 1774738800 := by decide +kernel
  have hresult : nextRunAt summer.zone 1774738800 noon .null = .ok (.int 1774782000) := by
    rw [nextRunAt_byDay noon_byDay rfl noon_hourMinute, firstSlot_eq_iff]
    refine ⟨0, by decide, ?_, ?_, nofun⟩
    · rw [probe, hfloor]
      decide +kernel
    · rw [probe, hfloor]
      decide +kernel
  intro h
  obtain ⟨slot, hslot, hshows, _⟩ := h
  rw [hresult] at hslot
  injection hslot with hslot
  injection hslot with hslot
  subst hslot
  exact absurd hshows.1 (by decide +kernel)

end WebZapret.Selection
