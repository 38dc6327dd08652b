import WebZapret.Selection.LocalTime
import WebZapret.Lib.Py.Decimal
import Mathlib.Order.Bounds.Defs

/-!
# The next slot

A schedule in daily or weekly mode with a valid time of day (`ByDay`) has the instants after the
present at which the local clock shows that time on a listed day (`Clock.Upcoming`). While one
offset is in effect `next_run_at` returns the first of them: the nine instants that it looks at are
on nine days in a row, and seven of these are later than the first.

`valid_hhmm` strips the text before it looks at it, and the conversion does not. The blanks that `int`
does not pass over make it raise: `nextRunAt_isLeast_iff` says for which schedules there is a next run.
-/

namespace WebZapret.Selection

open Py Failing Calendar Json

variable [Tables] [DecimalTables]

/-! ## The time of day -/

/-- `int` of what is on one side of the colon. -/
theorem toInt_padded {ds pre post : Str} (hne : ds ≠ []) (hds : ∀ c ∈ ds, IsDecimal c)
    (hlength : ds.length ≤ 2) (hpre : ∀ c ∈ pre, isNumberSpace c = true)
    (hpost : ∀ c ∈ post, isNumberSpace c = true) :
    (Json.str (pre ++ (ds ++ post))).toInt = .ok (decimalValue 0 ds : Int) := by
  rw [toInt, parseInt_padded hne hds (by omega) hpre hpost]

/-- The text of a valid time, without the blanks around it. -/
theorem validHhmm_parts {value : Json} (h : validHhmm value) :
    ∃ hs ms, value.text.strip = hs ++ 58 :: ms ∧ (hs ≠ [] ∧ hs.length ≤ 2) ∧
      (ms ≠ [] ∧ ms.length ≤ 2) ∧ (∀ c ∈ hs, IsDecimal c) ∧ (∀ c ∈ ms, IsDecimal c) ∧
      decimalValue 0 hs < 24 ∧ decimalValue 0 ms < 60 := by
  have hdigit {c : Nat} (hc : 48 ≤ c) (hc' : c ≤ 57) :
      IsDecimal c ∧ (Tables.decimal c).getD 0 = c - 48 := by
    have hascii : isAsciiDigit c = true := by simp [isAsciiDigit, hc, hc']
    refine ⟨isDecimal_digit hascii, ?_⟩
    rw [DecimalTables.decimal_digit c hascii]
    rfl
  have htrue : value.or (.str []) = value := by
    unfold validHhmm at h
    unfold Json.or at h ⊢
    split
    · rfl
    · rename_i hfalse
      rw [if_neg hfalse] at h
      exact h.elim
  have hpair (c d : Nat) : decimalValue 0 [c, d] =
      10 * (Tables.decimal c).getD 0 + (Tables.decimal d).getD 0 := by
    simp only [decimalValue, List.foldl_cons, List.foldl_nil]
    omega
  have hminutes {m n : Nat} (hm : 48 ≤ m) (hm' : m ≤ 53) (hn : IsDecimal n) :
      (∀ c ∈ [m, n], IsDecimal c) ∧ decimalValue 0 [m, n] < 60 := by
    obtain ⟨hmdec, hmval⟩ := hdigit hm (by omega)
    have hn' := IsDecimal.value_lt hn
    refine ⟨by simpa using ⟨hmdec, hn⟩, ?_⟩
    rw [hpair]
    omega
  unfold validHhmm at h
  rw [htrue] at h
  dsimp only at h
  split at h
  · rename_i g m n heq
    obtain ⟨hg, hm, hm', hn⟩ := h
    obtain ⟨hdecs, hvalue⟩ := hminutes hm hm' hn
    have hg' := IsDecimal.value_lt hg
    refine ⟨[g], [m, n], heq, by simp, by simp, ?_, hdecs, ?_, hvalue⟩
    · exact List.forall_mem_singleton.mpr hg
    · simp only [decimalValue, List.foldl_cons, List.foldl_nil]
      omega
  · rename_i f g m n heq
    obtain ⟨hhour, hm, hm', hn⟩ := h
    obtain ⟨hdecs, hvalue⟩ := hminutes hm hm' hn
    have hhours : IsDecimal f ∧ IsDecimal g ∧
        10 * (Tables.decimal f).getD 0 + (Tables.decimal g).getD 0 < 24 := by
      rcases hhour with ⟨hf, hg⟩ | ⟨hf, hg, hg'⟩
      · change IsDecimal g at hg
        obtain ⟨hfdec, hfval⟩ := hdigit (c := f) (by omega) (by omega)
        have hglt := IsDecimal.value_lt hg
        exact ⟨hfdec, hg, by omega⟩
      · obtain ⟨hfdec, hfval⟩ := hdigit (c := f) (by omega) (by omega)
        obtain ⟨hgdec, hgval⟩ := hdigit hg (by omega)
        exact ⟨hfdec, hgdec, by omega⟩
    refine ⟨[f, g], [m, n], heq, by simp, by simp, ?_, hdecs, ?_, hvalue⟩
    · simpa using ⟨hhours.1, hhours.2.1⟩
    · rw [hpair]
      exact hhours.2.2
  · exact h.elim

/-- The time that a text shows, with or without blanks around it. -/
def ShowsTime (value : Json) (hour minute : Int) : Prop :=
  ∃ hs ms, value.text.strip = hs ++ 58 :: ms ∧ (∀ c ∈ hs, IsDecimal c) ∧ (∀ c ∈ ms, IsDecimal c) ∧
    hour = decimalValue 0 hs ∧ minute = decimalValue 0 ms

/-- None of the four separators of ASCII is in the text. -/
def Unseparated (s : Str) : Prop := ∀ c ∈ s, isSeparator c = false

omit [Tables] [DecimalTables] in
instance (s : Str) : Decidable (Unseparated s) := inferInstanceAs (Decidable (∀ c ∈ s, _))

/-- A valid time with the blanks around it, and what `split` makes of it. -/
theorem validHhmm_split {value : Json} (h : validHhmm value) :
    ∃ pre hs ms post, value.text = pre ++ hs ++ 58 :: (ms ++ post) ∧
      value.text.split 58 = [pre ++ hs, ms ++ post] ∧
      (∀ c ∈ pre, isSpace c = true) ∧ (∀ c ∈ post, isSpace c = true) ∧
      value.text.strip = hs ++ 58 :: ms ∧ (hs ≠ [] ∧ hs.length ≤ 2) ∧ (ms ≠ [] ∧ ms.length ≤ 2) ∧
      (∀ c ∈ hs, IsDecimal c) ∧ (∀ c ∈ ms, IsDecimal c) ∧
      decimalValue 0 hs < 24 ∧ decimalValue 0 ms < 60 := by
  obtain ⟨hs, ms, hcore, hlen, hlen', hds, hds', hlt, hlt'⟩ := validHhmm_parts h
  obtain ⟨pre, post, htext, hpre, hpost⟩ := Str.exists_padding isSpace value.text
  have htext : value.text = pre ++ hs ++ 58 :: (ms ++ post) := by
    change value.text = pre ++ value.text.strip ++ post at htext
    rw [hcore] at htext
    simpa using htext
  have hnone : ∀ part ∈ [pre ++ hs, ms ++ post], 58 ∉ part := by
    have hspace {l : Str} (hl : ∀ c ∈ l, isSpace c = true) : 58 ∉ l :=
      fun hmem => absurd (hl 58 hmem) (by decide)
    have hdec {l : Str} (hl : ∀ c ∈ l, IsDecimal c) : 58 ∉ l :=
      fun hmem => (hl 58 hmem).ne (by decide) rfl rfl
    simp [hspace hpre, hspace hpost, hdec hds, hdec hds']
  have hparts : value.text = [58].intercalate [pre ++ hs, ms ++ post] := by
    rw [htext]
    simp
  refine ⟨pre, hs, ms, post, htext, ?_, hpre, hpost, hcore, hlen, hlen', hds, hds', hlt, hlt'⟩
  rw [Str.split, hparts, List.splitOn_intercalate 58 hnone (List.cons_ne_nil _ _)]

/-- **A valid time without separators is read as the hour and the minute that it shows.** -/
theorem hourMinute_valid {value : Json} (h : validHhmm value) (hclean : Unseparated value.text) :
    ∃ hour minute, hourMinute value.text = .ok (hour, minute) ∧ ShowsTime value hour minute ∧
      (0 ≤ hour ∧ hour < 24) ∧ 0 ≤ minute ∧ minute < 60 := by
  obtain ⟨pre, hs, ms, post, htext, hsplit, hpre, hpost, hcore, hlen, hlen', hds, hds', hlt, hlt'⟩ :=
    validHhmm_split h
  have hnumber {l : Str} (hl : ∀ c ∈ l, isSpace c = true) (hmem : ∀ c ∈ l, c ∈ value.text) :
      ∀ c ∈ l, isNumberSpace c = true := by
    intro c hc
    rw [isNumberSpace, hl c hc, hclean c (hmem c hc)]
    rfl
  have hpre := hnumber hpre fun c hc => by simp [htext, hc]
  have hpost := hnumber hpost fun c hc => by simp [htext, hc]
  have hhour := toInt_padded hlen.1 hds hlen.2 hpre (List.forall_mem_nil _)
  have hminute := toInt_padded hlen'.1 hds' hlen'.2 (List.forall_mem_nil _) hpost
  rw [List.append_nil] at hhour
  rw [List.nil_append] at hminute
  refine ⟨decimalValue 0 hs, decimalValue 0 ms, ?_, ⟨hs, ms, hcore, hds, hds', rfl, rfl⟩,
    ⟨by omega, by omega⟩, by omega, by omega⟩
  unfold hourMinute
  rw [hsplit]
  dsimp only
  rw [hhour, hminute]
  rfl

/-- **With a separator `int` raises**, although the time is a valid one. -/
theorem hourMinute_separated {value : Json} (h : validHhmm value)
    (hsep : ¬Unseparated value.text) : ∃ e, hourMinute value.text = .error e := by
  obtain ⟨pre, hs, ms, post, htext, hsplit, -, -, -, -, -, hds, hds', -, -⟩ := validHhmm_split h
  obtain ⟨c, hc, hcsep⟩ : ∃ c ∈ value.text, isSeparator c = true := by
    by_contra hno
    refine hsep fun c hc => ?_
    by_contra hcsep
    exact hno ⟨c, hc, by simpa using hcsep⟩
  have hint {s : Str} (hs : c ∈ s) : ∃ e, (Json.str s).toInt = .error e := by
    rw [toInt, parseInt_separator hs hcsep]
    exact ⟨_, rfl⟩
  have hside : c ∈ pre ++ hs ∨ c ∈ ms ++ post := by
    rw [htext, List.mem_append, List.mem_cons] at hc
    rcases hc with hc | rfl | hc
    · exact .inl hc
    · cases hcsep
    · exact .inr hc
  unfold hourMinute
  rw [hsplit]
  dsimp only
  cases hhour : (Json.str (pre ++ hs)).toInt with
  | error e => exact ⟨e, rfl⟩
  | ok hour =>
    rcases hside with hc | hc
    · obtain ⟨e, he⟩ := hint hc
      rw [he] at hhour
      cases hhour
    · obtain ⟨e, he⟩ := hint hc
      rw [he]
      exact ⟨e, rfl⟩

/-- A time that is read is one of the day. -/
theorem hourMinute_bounds {value : Json} (h : validHhmm value) {hour minute : Int}
    (hat : hourMinute value.text = .ok (hour, minute)) :
    (0 ≤ hour ∧ hour < 24) ∧ 0 ≤ minute ∧ minute < 60 := by
  by_cases hclean : Unseparated value.text
  · obtain ⟨hour', minute', hat', -, hbounds⟩ := hourMinute_valid h hclean
    rw [hat'] at hat
    cases hat
    exact hbounds
  · obtain ⟨e, he⟩ := hourMinute_separated h hclean
    rw [he] at hat
    cases hat

/-! ## Schedules by the day -/

/-- `schedule.get("mode", "daily")` -/
def modeOf (schedule : Dict) : Json := schedule.get (lit "mode") (.str (lit "daily"))

def Weekly (schedule : Dict) : Prop := (modeOf schedule).Is (lit "weekly")

omit [Tables] [DecimalTables] in
instance (schedule : Dict) : Decidable (Weekly schedule) :=
  inferInstanceAs (Decidable ((modeOf schedule).Is _))

/-- The schedule is enabled and in daily or weekly mode, its time of day is valid, and these are its
days: the known ones of its list, or all of them. -/
structure ByDay (schedule : Dict) (days : List Str) : Prop where
  enabled : (schedule.get0 (lit "enabled")).truthy = true
  mode : (modeOf schedule).Is (lit "daily") ∨ (modeOf schedule).Is (lit "weekly")
  time : validHhmm (schedule.get0 (lit "at"))
  listed : ∃ items, schedule.get (lit "days") (.arr (weekdays.map .str)) = .arr items ∧
    chosenDays items = .ok days

/-- The instants after `anchor` at which the clock shows the time on one of the days. -/
def Clock.Upcoming (c : Clock) (weekly : Prop) (days : List Str) (anchor : Rat)
    (hour minute : Int) : Set Int :=
  {t | anchor < t ∧ c.Shows hour minute t ∧ OnDay weekly days (c.localDay t)}

variable {schedule : Dict} {days : List Str}

omit [Tables] [DecimalTables] in
/-- The days of a schedule are days of the week, and there are some. -/
theorem chosenDays_spec {items : List Json} (h : chosenDays items = .ok days) :
    ∃ w : Fin 7, weekdays[w] ∈ days := by
  have hall : ∀ d ∈ weekdays, ∃ w : Fin 7, weekdays[w] = d := by decide
  unfold chosenDays at h
  split at h
  · cases h
  · cases h
    split
    · exact ⟨0, by decide⟩
    · rename_i hknown
      obtain ⟨d, hd⟩ := List.exists_mem_of_ne_nil _ hknown
      obtain ⟨w, hw⟩ := hall d (mem_weekdays_of_known hd)
      exact ⟨w, hw ▸ hd⟩

omit [DecimalTables] in
/-- `next_run_at` goes by the day. -/
theorem nextRunAt_daySlot (h : ByDay schedule days) (zone : Zone) (now : Rat) (lastRun : Json) :
    nextRunAt zone now schedule lastRun = daySlot zone schedule now lastRun := by
  have hmode := h.mode
  have hinterval : ¬(schedule.get (lit "mode") (.str (lit "daily"))).Is (lit "interval") := by
    intro his
    have his : modeOf schedule = .str (lit "interval") := his
    rw [his] at hmode
    revert hmode
    decide
  unfold nextRunAt
  rw [if_neg (not_not.mpr h.enabled), if_neg hinterval]

omit [DecimalTables] in
/-- What `next_run_at` does for such a schedule. -/
theorem nextRunAt_byDay (h : ByDay schedule days) {now anchor : Rat} {lastRun : Json}
    (hanchor : anchorOf now lastRun = .ok anchor) {hour minute : Int}
    (hat : hourMinute (schedule.get0 (lit "at")).text = .ok (hour, minute)) (zone : Zone) :
    nextRunAt zone now schedule lastRun =
      firstSlot zone (Weekly schedule) days anchor hour minute (List.range 9) := by
  rw [nextRunAt_daySlot h]
  obtain ⟨-, -, htime, items, hitems, hdays⟩ := h
  unfold daySlot
  rw [if_neg (not_not.mpr htime), hat, hitems]
  change (do
    let days ← chosenDays items
    let anchor ← anchorOf now lastRun
    firstSlot zone (Weekly schedule) days anchor hour minute (List.range 9)) = _
  rw [hdays, hanchor]
  rfl

/-! ## Clocks that are not changed for nine days -/

omit [Tables] [DecimalTables]

namespace Clock

variable {c : Clock} {hour minute time : Int} {weekly : Prop} {anchor : Rat}

/-- A clock shows a time at the slots that it gives by itself. -/
theorem shows_iff_slotOf (hminute : 0 ≤ minute ∧ minute < 60) {t : Int} :
    c.Shows hour minute t ↔ c.slotOf (hour * 3600 + minute * 60) t = t := by
  rw [shows_iff hminute.1 hminute.2]
  unfold slotOf localDay localSecond
  omega

/-- One offset is in effect for nine days. -/
def QuietFrom (c : Clock) (anchor : Rat) : Prop :=
  ∀ t, ⌊anchor⌋ ≤ t → t < ⌊anchor⌋ + 9 * 86400 → c.offsetAt t = c.offsetAt ⌊anchor⌋

theorem quietFrom_fixed (offset : Int) (anchor : Rat) : (fixed offset).QuietFrom anchor :=
  fun _ _ _ => rfl

/-- The days of the nine days are counted by one offset. -/
theorem QuietFrom.localDay (hquiet : c.QuietFrom anchor) {t : Int} (h : ⌊anchor⌋ ≤ t)
    (h' : t < ⌊anchor⌋ + 9 * 86400) : c.localDay t = (t + c.offsetAt ⌊anchor⌋) / 86400 := by
  rw [Clock.localDay, localSecond, hquiet t h h']

/-- The probes are on successive days. -/
theorem QuietFrom.slotOf_probe (hquiet : c.QuietFrom anchor) {k : Nat} (hk : k < 9) (time : Int) :
    c.slotOf time (probe anchor k) =
      (c.localDay ⌊anchor⌋ + k) * 86400 + time - c.offsetAt ⌊anchor⌋ := by
  have hlow : ⌊anchor⌋ ≤ probe anchor k := by
    unfold probe
    omega
  have hhigh : probe anchor k < ⌊anchor⌋ + 9 * 86400 := by
    unfold probe
    omega
  rw [slotOf, hquiet _ hlow hhigh, hquiet.localDay hlow hhigh, Clock.localDay, localSecond, probe]
  omega

/-- A slot in the future is within the nine days, on the day of its probe. -/
theorem QuietFrom.slotOf_late (hquiet : c.QuietFrom anchor) {k : Nat} (hk : k < 9)
    (h : 0 ≤ time) (h' : time < 86400) (hlate : ⌊anchor⌋ < c.slotOf time (probe anchor k)) :
    c.localDay (c.slotOf time (probe anchor k)) = c.localDay ⌊anchor⌋ + k ∧
      c.offsetAt (c.slotOf time (probe anchor k)) = c.offsetAt ⌊anchor⌋ := by
  have hslot := hquiet.slotOf_probe hk time
  have hfirst : c.localDay ⌊anchor⌋ = (⌊anchor⌋ + c.offsetAt ⌊anchor⌋) / 86400 := rfl
  have hhigh : c.slotOf time (probe anchor k) < ⌊anchor⌋ + 9 * 86400 := by omega
  refine ⟨?_, hquiet _ hlate.le hhigh⟩
  rw [hquiet.localDay hlate.le hhigh]
  omega

/-- One of the probes is on a day of the schedule. -/
theorem QuietFrom.exists_takes (hquiet : c.QuietFrom anchor) (weekly : Prop) {w : Fin 7}
    (hw : weekdays[w] ∈ days) (h : 0 ≤ time) (h' : time < 86400) :
    ∃ k < 9, Takes c weekly days anchor time (probe anchor k) := by
  obtain ⟨k, hk, hday⟩ := exists_weekday (c.localDay ⌊anchor⌋ + 1) w
  have hslot := hquiet.slotOf_probe (Nat.add_lt_add_right hk 1 |>.trans (by decide)) time
  have hlate : ⌊anchor⌋ < c.slotOf time (probe anchor (k + 1)) := by
    rw [hslot, Clock.localDay, localSecond]
    omega
  refine ⟨k + 1, by omega, Int.floor_lt.mp hlate, ?_⟩
  intro _
  have heq : c.localDay ⌊anchor⌋ + (k + 1 : Nat) = c.localDay ⌊anchor⌋ + 1 + k := by omega
  rw [(hquiet.slotOf_late (by omega) h h' hlate).1, heq]
  exact hday ▸ hw

/-- The slot of the first probe that is taken is the first one. -/
theorem QuietFrom.isLeast (hquiet : c.QuietFrom anchor) (hhour : 0 ≤ hour ∧ hour < 24)
    (hminute : 0 ≤ minute ∧ minute < 60) {k : Nat} (hk : k < 9)
    (htakes : Takes c weekly days anchor (hour * 3600 + minute * 60) (probe anchor k))
    (hbefore : ∀ j < k,
      ¬Takes c weekly days anchor (hour * 3600 + minute * 60) (probe anchor j)) :
    IsLeast (c.Upcoming weekly days anchor hour minute)
      (c.slotOf (hour * 3600 + minute * 60) (probe anchor k)) := by
  obtain ⟨time, htime⟩ : ∃ time, time = hour * 3600 + minute * 60 := ⟨_, rfl⟩
  have hlow : 0 ≤ time := by omega
  have hhigh : time < 86400 := by omega
  rw [← htime] at htakes hbefore ⊢
  have hlate := Int.floor_lt.mpr htakes.1
  obtain ⟨hday, hoffset⟩ := hquiet.slotOf_late hk hlow hhigh hlate
  have hslot := hquiet.slotOf_probe hk time
  constructor
  · refine ⟨htakes.1, ?_, htakes.2⟩
    rw [shows_iff_slotOf hminute, ← htime, slotOf, hday, hoffset, hslot]
  · intro t ht
    obtain ⟨hafter, hshows, honday⟩ := ht
    rw [shows_iff_slotOf hminute, ← htime] at hshows
    have hfloor := Int.floor_lt.mpr hafter
    by_contra hlt
    have hfirst : c.localDay ⌊anchor⌋ = (⌊anchor⌋ + c.offsetAt ⌊anchor⌋) / 86400 := rfl
    have hin : t < ⌊anchor⌋ + 9 * 86400 := by omega
    have htday := hquiet.localDay hfloor.le hin
    obtain ⟨j, hj⟩ := Int.eq_ofNat_of_zero_le (by omega : 0 ≤ c.localDay t - c.localDay ⌊anchor⌋)
    have hself : c.localDay t * 86400 + time - c.offsetAt ⌊anchor⌋ = t := by
      rw [← hquiet t hfloor.le hin]
      exact hshows
    -- the probe on the day of the earlier instant would have been taken before
    have hjk : j < k := by omega
    have heq : c.slotOf time (probe anchor j) = t := by
      rw [hquiet.slotOf_probe (hjk.trans hk)]
      omega
    apply hbefore j hjk
    rw [Takes, heq]
    exact ⟨hafter, honday⟩

end Clock

/-- The next run on such a clock. -/
theorem nextRunAt_quiet [Tables] [DecimalTables] {c : Clock} (h : ByDay schedule days)
    (hclean : Unseparated (schedule.get0 (lit "at")).text) {now anchor : Rat} {lastRun : Json}
    (hanchor : anchorOf now lastRun = .ok anchor) (hquiet : c.QuietFrom anchor) :
    ∃ hour minute slot, ShowsTime (schedule.get0 (lit "at")) hour minute ∧
      nextRunAt c.zone now schedule lastRun = .ok (.int slot) ∧
      IsLeast (c.Upcoming (Weekly schedule) days anchor hour minute) slot := by
  obtain ⟨hour, minute, hat, hshows, hhour, hminute⟩ := hourMinute_valid h.time hclean
  obtain ⟨items, _, hdays⟩ := h.listed
  obtain ⟨w, hw⟩ := chosenDays_spec hdays
  have hsome := hquiet.exists_takes (Weekly schedule) hw (by omega)
    (by omega : hour * 3600 + minute * 60 < 86400)
  classical
  obtain ⟨hk, htakes⟩ := Nat.find_spec hsome
  have hbefore : ∀ j < Nat.find hsome, ¬Takes c (Weekly schedule) days anchor
      (hour * 3600 + minute * 60) (probe anchor j) :=
    fun j hj hjtakes => Nat.find_min hsome hj ⟨hj.trans hk, hjtakes⟩
  refine ⟨hour, minute, _, hshows, ?_, hquiet.isLeast hhour hminute hk htakes hbefore⟩
  rw [nextRunAt_byDay h hanchor hat, firstSlot_eq_iff]
  exact ⟨Nat.find hsome, hk, rfl, htakes, hbefore⟩

/-- With a separator in its time nothing is returned. -/
theorem nextRunAt_separated [Tables] [DecimalTables] (h : ByDay schedule days)
    (hsep : ¬Unseparated (schedule.get0 (lit "at")).text) (zone : Zone) (now : Rat)
    (lastRun : Json) : ∃ e, nextRunAt zone now schedule lastRun = .error e := by
  obtain ⟨e, he⟩ := hourMinute_separated h.time hsep
  rw [nextRunAt_daySlot h]
  unfold daySlot
  rw [if_neg (not_not.mpr h.time), he]
  exact ⟨e, rfl⟩

/-- **On a clock that never changes the next run is the first instant that the schedule names**,
exactly if its time has no separator around it. -/
theorem nextRunAt_isLeast_iff [Tables] [DecimalTables] (h : ByDay schedule days) {now anchor : Rat}
    {lastRun : Json} (hanchor : anchorOf now lastRun = .ok anchor) (offset : Int) :
    (∃ hour minute slot, ShowsTime (schedule.get0 (lit "at")) hour minute ∧
      nextRunAt (Clock.fixed offset).zone now schedule lastRun = .ok (.int slot) ∧
      IsLeast ((Clock.fixed offset).Upcoming (Weekly schedule) days anchor hour minute) slot) ↔
      Unseparated (schedule.get0 (lit "at")).text := by
  constructor
  · rintro ⟨hour, minute, slot, -, hslot, -⟩
    by_contra hsep
    obtain ⟨e, he⟩ := nextRunAt_separated h hsep (Clock.fixed offset).zone now lastRun
    rw [he] at hslot
    cases hslot
  · exact fun hclean => nextRunAt_quiet h hclean hanchor (Clock.quietFrom_fixed offset anchor)

/-- `3:30` on Mondays. -/
def mondays : Dict :=
  [(lit "enabled", .bool true), (lit "mode", .str (lit "weekly")), (lit "at", .str (lit "3:30")),
    (lit "days", .arr [.str (lit "mon")])]

theorem mondays_byDay : letI := Tables.ascii; ByDay mondays [lit "mon"] := by
  let _ := Tables.ascii
  refine ⟨rfl, .inr rfl, by decide, [.str (lit "mon")], rfl, rfl⟩

/-- The first Monday after Thursday, 17 September 2026, two hours east of UTC. -/
theorem nextRunAt_isLeast_iff_mondays : letI := Tables.ascii
    (∃ hour minute slot, ShowsTime (mondays.get0 (lit "at")) hour minute ∧
      nextRunAt (Clock.fixed 7200).zone 1789632000 mondays .null = .ok (.int slot) ∧
      IsLeast ((Clock.fixed 7200).Upcoming (Weekly mondays) [lit "mon"] 1789632000 hour minute)
        slot) ∧
    Unseparated (mondays.get0 (lit "at")).text := by
  let _ := Tables.ascii
  have _ := decimalTables_ascii
  have hclean : Unseparated (mondays.get0 (lit "at")).text := by decide
  exact ⟨(nextRunAt_isLeast_iff mondays_byDay rfl 7200).mpr hclean, hclean⟩

/-- `3:30` after the separator U+001C, every day. -/
def separated : Dict :=
  [(lit "enabled", .bool true), (lit "mode", .str (lit "daily")),
    (lit "at", .str (28 :: lit "3:30"))]

/-- **A valid time on which `next_run_at` raises.** `valid_hhmm` strips the separator and `int` does
not. -/
theorem next_run_raises : letI := Tables.ascii
    ByDay separated weekdays ∧ anchorOf 1789632000 .null = .ok 1789632000 ∧
    nextRunAt (Clock.fixed 7200).zone 1789632000 separated .null =
      .error (.valueError (lit "invalid literal for int() with base 10: '\\x1c3'")) ∧
    ¬∃ hour minute slot, ShowsTime (separated.get0 (lit "at")) hour minute ∧
      nextRunAt (Clock.fixed 7200).zone 1789632000 separated .null = .ok (.int slot) ∧
      IsLeast ((Clock.fixed 7200).Upcoming (Weekly separated) weekdays 1789632000 hour minute)
        slot := by
  let _ := Tables.ascii
  have hraises : nextRunAt (Clock.fixed 7200).zone 1789632000 separated .null =
      .error (.valueError (lit "invalid literal for int() with base 10: '\\x1c3'")) := rfl
  refine ⟨⟨rfl, .inl rfl, by decide, _, rfl, rfl⟩, rfl, hraises, ?_⟩
  rintro ⟨hour, minute, slot, -, hslot, -⟩
  rw [hraises] at hslot
  cases hslot

end WebZapret.Selection
