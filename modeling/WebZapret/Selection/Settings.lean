import WebZapret.Lib.Py.Json
import WebZapret.Lib.Failing

/-!
# Settings blocks

`blockcheck.py`: a settings block is described by a spec, one item a key. Its values come from the
environment and are overridden by the ones that the panel stored. A raw value is coerced by the
kind of its item; numbers are clamped into their range, and a value that cannot be used is
reported and leaves the default.

The block of the scheduler has rules of its own (`normalizeSchedule`). It depends only on the
stored values of its own keys (`normalizeSchedule_congr`), which share their file with the state
of the scheduler.
-/

namespace WebZapret.Selection

open Py Failing

/-! ## Specs -/

inductive Kind where
  | bool
  | int
  | float
  | str
  | csv
  | enum
  deriving DecidableEq

/-- `_spec`, with the key -/
structure Spec where
  key : Str
  kind : Kind
  default : Json
  lo : Json
  hi : Json
  choices : List Str

/-- `DAYS` -/
def weekdays : List Str :=
  [lit "mon", lit "tue", lit "wed", lit "thu", lit "fri", lit "sat", lit "sun"]

/-- `SCHEDULE_SPEC` -/
def scheduleSpec : List Spec :=
  [⟨lit "enabled", .bool, .bool false, .null, .null, []⟩,
    ⟨lit "mode", .enum, .str (lit "daily"), .null, .null,
      [lit "interval", lit "daily", lit "weekly"]⟩,
    ⟨lit "interval_min", .int, .int 360, .int 5, .int 10080, []⟩,
    ⟨lit "at", .str, .str (lit "04:00"), .null, .null, []⟩,
    ⟨lit "days", .csv, .arr (weekdays.map .str), .null, .null, []⟩,
    ⟨lit "run_on_start", .bool, .bool false, .null, .null, []⟩]

/-- The keys of the block. -/
def scheduleKeys : List Str := scheduleSpec.map (·.key)

/-- `for key, value in values.items(): if key in SPEC: persisted[key] = value` -/
def updateKnown (keys : List Str) (persisted values : Dict) : Dict :=
  values.foldl (fun d m => if m.1 ∈ keys then d.set m.1 m.2 else d) persisted

variable [Tables]

/-! ## Coercion -/

/-- `_TRUE` -/
def trueTexts : List Str :=
  [lit "1", lit "true", lit "yes", lit "on", lit "enabled", lit "y"]

/-- `_FALSE` -/
def falseTexts : List Str :=
  [lit "0", lit "false", lit "no", lit "off", lit "disabled", lit "n", []]

/-- `as_bool` -/
def asBool (value default : Json) : Json :=
  match value with
  | .bool b => .bool b
  | .null => default
  | value =>
    let text := Tables.lower value.text.strip
    if text ∈ trueTexts then .bool true
    else if text ∈ falseTexts then .bool false
    else default

/-- The text of the `ValueError` for a value that is no number. -/
def notANumber (value : Json) : Str := lit "not a number: " ++ value.repr

/-- `re.fullmatch(r"[+-]?\d+", text)` -/
def isInteger (text : Str) : Prop :=
  let digits := match text with
    | 43 :: s => s
    | 45 :: s => s
    | s => s
  digits ≠ [] ∧ ∀ c ∈ digits, (Tables.decimal c).isSome

instance (text : Str) : Decidable (isInteger text) := by
  unfold isInteger
  infer_instance

/-- A number between the two bounds that are given. -/
def clampInt (lo hi : Json) (number : Int) : Int :=
  let atLeast := match lo with
    | .int lo => max lo number
    | _ => number
  match hi with
  | .int hi => min hi atLeast
  | _ => atLeast

/-- `as_int`, or the text of its `ValueError`. -/
def asInt (value lo hi : Json) : Except Str Json :=
  match value with
  | .bool _ => .error (notANumber value)
  | value =>
    if isInteger value.text.strip then
      match (Json.str value.text.strip).toInt with
      | .ok number => .ok (.int (clampInt lo hi number))
      | .error (.valueError text) => .error text
      | .error _ => .error []
    else .error (notANumber value)

/-- A double between the two bounds that are given. -/
def clampFloat (lo hi : Json) (number : Flt) : Flt :=
  let atLeast := match lo with
    | .float lo => if lo.lt number then number else lo
    | _ => number
  match hi with
  | .float hi => if atLeast.lt hi then atLeast else hi
  | _ => atLeast

/-- `as_float`, or the text of its `ValueError`. -/
def asFloat (value lo hi : Json) : Except Str Json :=
  match value with
  | .bool _ => .error (notANumber value)
  | value =>
    match Tables.parseFloat value.text.strip with
    | some number => .ok (.float (clampFloat lo hi number))
    | none => .error (notANumber value)

/-- `as_csv` -/
def asCsv : Json → List Str
  | .arr items => (items.map fun x => x.text.strip).filter (· ≠ [])
  | value => Str.words ((value.or (.str [])).text.map fun c => if c = 44 then 32 else c)

/-- `coerce`, or the text of its `ValueError`. -/
def coerce (spec : Spec) (raw : Json) : Except Str Json :=
  match spec.kind with
  | .bool => .ok (asBool raw spec.default)
  | .int => asInt raw spec.lo spec.hi
  | .float => asFloat raw spec.lo spec.hi
  | .csv =>
    match raw with
    | .null => .ok spec.default
    | raw => .ok (.arr ((asCsv raw).map .str))
  | .enum =>
    let text := match raw with
      | .null => []
      | raw => Tables.lower raw.text.strip
    .ok (if text ∈ spec.choices then .str text else spec.default)
  | .str =>
    match raw with
    | .null => .ok (.str spec.default.text.strip)
    | raw => .ok (.str raw.text.strip)

/-- `env_defaults` -/
def envDefaults (environ : Str → Option Str) (spec : List Spec) (keyPrefix : Str) : Dict :=
  spec.map fun item =>
    (item.key, match environ (keyPrefix ++ Tables.upper item.key) with
      | none => item.default
      | some raw =>
        match coerce item (.str raw) with
        | .ok value => value
        | .error _ => item.default)

/-! ## Normalizing -/

/-- `float(value)` of a clamped value. -/
def asDouble : Json → Flt
  | .int i => Flt.round i
  | .float x => x
  | _ => .nan

/-- `_clamp_warning` -/
def clampWarning (spec : Spec) (raw value : Json) : List Str :=
  match Tables.parseFloat raw.text.strip with
  | some numeric =>
    if (Flt.round (1 / 10 ^ 9)).lt (numeric.distance (asDouble value)) then
      [spec.key ++ lit ": " ++ raw.text ++ lit " clamped to " ++ value.text ++ lit " (allowed " ++
        spec.lo.text ++ lit ".." ++ spec.hi.text ++ lit ")"]
    else []
  | none => []

/-- One key of `normalize`: the settings and the warnings. -/
def normalizeKey (values base : Dict) (acc : Dict × List Str) (spec : Spec) : Dict × List Str :=
  match values.lookup spec.key with
  | none => acc
  | some raw =>
    match coerce spec raw with
    | .error text =>
      (acc.1, acc.2 ++ [spec.key ++ lit ": " ++ text ++ lit " — keeping " ++
        (base.get0 spec.key).repr])
    | .ok value =>
      (acc.1.set spec.key value, acc.2 ++
        if spec.kind = .int ∨ spec.kind = .float then clampWarning spec raw value else [])

/-- `normalize` up to its cross-field rules, which are those of the other block. -/
def normalize (spec : List Spec) (values base : Dict) : Dict × List Str :=
  spec.foldl (normalizeKey values base) (base, [])

/-- `valid_hhmm`: `re.fullmatch(r"([01]?\d|2[0-3]):[0-5]\d", ...)` -/
def validHhmm (value : Json) : Prop :=
  let digit (c : Nat) := (Tables.decimal c).isSome = true
  match (value.or (.str [])).text.strip with
  | [h, 58, m, n] => digit h ∧ 48 ≤ m ∧ m ≤ 53 ∧ digit n
  | [g, h, 58, m, n] =>
    ((g = 48 ∨ g = 49) ∧ digit h ∨ g = 50 ∧ 48 ≤ h ∧ h ≤ 51) ∧ 48 ≤ m ∧ m ≤ 53 ∧ digit n
  | _ => False

instance (value : Json) : Decidable (validHhmm value) := by
  unfold validHhmm
  dsimp only
  split <;> infer_instance

/-- A normalized block, with the warnings and the errors. -/
structure Normalized where
  settings : Dict
  warnings : List Str
  errors : List Str

/-- The listed days that are known. -/
def knownDays (items : List Json) : List Str :=
  items.filterMap fun
    | .str d => if d ∈ weekdays then some d else none
    | _ => none

omit [Tables] in
theorem mem_weekdays_of_known {items : List Json} {d : Str} (h : d ∈ knownDays items) :
    d ∈ weekdays := by
  obtain ⟨x, _, hx⟩ := List.mem_filterMap.mp h
  split at hx
  · split at hx
    · rename_i hknown
      cases hx
      exact hknown
    · cases hx
  · cases hx

/-- `normalize_schedule` -/
def normalizeSchedule (values base : Dict) : Result Normalized := do
  let (out, warnings) := normalize scheduleSpec values base
  let days := out.get (lit "days") (.arr [])
  let known := knownDays (← days.iter)
  let warnings := warnings ++
    if known.length ≠ (asCsv days).length then [lit "days: ignoring unknown values"] else []
  let kept := if known = [] then weekdays else known.eraseDups
  let out := out.set (lit "days") (.arr (kept.map .str))
  let mode := out.get0 (lit "mode")
  let errors :=
    if (mode.Is (lit "daily") ∨ mode.Is (lit "weekly")) ∧ ¬validHhmm (out.get0 (lit "at")) then
      [lit "at: expected HH:MM, got " ++ (out.get0 (lit "at")).repr]
    else []
  let minutes ← (out.get (lit "interval_min") (.int 360)).toInt
  return ⟨out.set (lit "interval_min") (.int (max 5 (min minutes 10080))), warnings, errors⟩

/-! ## Only the keys of the block matter -/

/-- The two dicts have the same values for the keys. -/
def SameOn (keys : List Str) (d d' : Dict) : Prop := ∀ key ∈ keys, d.lookup key = d'.lookup key

theorem normalize_congr {spec : List Spec} {values values' base : Dict}
    (h : SameOn (spec.map (·.key)) values values') :
    normalize spec values base = normalize spec values' base := by
  unfold normalize
  apply List.foldl_ext
  intro acc item hitem
  unfold normalizeKey
  rw [h item.key (List.mem_map_of_mem hitem)]

theorem normalizeSchedule_congr {values values' base : Dict}
    (h : SameOn scheduleKeys values values') :
    normalizeSchedule values base = normalizeSchedule values' base := by
  unfold normalizeSchedule
  rw [normalize_congr h]

end WebZapret.Selection
