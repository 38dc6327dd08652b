import WebZapret.Lib.Py.Json
import WebZapret.Lib.Failing

/-!
# The reports of a step

`parse_scan_report` and `parse_check_report` read what the engine wrote. Anything that is no object
with `strategies` is no report. In a report every field is coerced on its own, and a coercion that
fails raises: `scanReport_ok_iff` and `checkReport_ok_iff` say which fields these are.
-/

namespace WebZapret.Selection

open Py Failing

/-- A row of a scan. -/
structure ScanRow where
  protocol : Str
  args : Str
  coverage : Int

structure ScanReport where
  domain : Str
  blockType : Str
  dnsSpoofed : Bool
  blocked : List Json
  total : Int
  working : Int
  strategies : List ScanRow

/-- A row of a check. -/
structure CheckRow where
  protocol : Str
  args : Str
  coverage : Int
  working : Bool
  successRate : Flt
  passesOk : Int
  passesTotal : Int
  medianShare : Option Flt
  medianLatencyMs : Int
  medianSpeedKbps : Flt
  longestSilenceMs : Json
  observed : Str
  admits : List Str

structure CheckReport where
  domain : Str
  total : Int
  working : Int
  elapsedSecs : Flt
  inconclusive : Bool
  strategies : List CheckRow

/-! ## Fields -/

section Fields

variable [Tables] (d : Dict) (key : String)

/-- `str(d.get(key, ""))` -/
def textField : Str := (d.get (lit key) (.str [])).text

/-- `int(d.get(key, default) or default)` -/
def intField (default : Int) : Result Int :=
  ((d.get (lit key) (.int default)).or (.int default)).toInt

/-- `float(d.get(key, 0.0) or 0.0)` -/
def floatField : Result Flt := ((d.get (lit key) (.float (.fin 0))).or (.float (.fin 0))).toFloat

omit [Tables] in
/-- `d.get(key) or []`, one after the other. -/
def listField : Result (List Json) := ((d.get0 (lit key)).or (.arr [])).iter

omit [Tables] in
/-- `bool(d.get(key, False))` -/
def boolField : Bool := (d.get (lit key) (.bool false)).truthy

/-- `None if d.get(key) is None else float(d.get(key))` -/
def shareField : Result (Option Flt) :=
  match d.get0 (lit key) with
  | .null => .ok none
  | share => share.toFloat.map some

end Fields

/-- The object of a report; `loads` is `json.loads`, for a file that holds a text. -/
def reportObject (loads : Str → Option Json) (data : Option Json) : Option Dict :=
  let data := match data.getD .null with
    | .str s => loads s
    | data => some data
  match data with
  | some (.obj d) => if (d.lookup (lit "strategies")).isSome then some d else none
  | _ => none

/-- The item, if it is a dict with `args`. -/
def keptItem : Json → Option Dict
  | .obj item => if (Dict.get0 item (lit "args")).truthy then some item else none
  | _ => none

/-- The items of the strategies that are kept. -/
def keptItems (d : Dict) : Result (List Dict) :=
  (listField d "strategies").map (·.filterMap keptItem)

variable [Tables]

/-! ## The parsers -/

def scanRow (item : Dict) : Result ScanRow := do
  let coverage ← intField item "coverage" 1
  return ⟨textField item "protocol", textField item "args", coverage⟩

/-- A report of `parse_scan_report`. -/
def scanReport (d : Dict) : Result ScanReport := do
  let rows ← (← keptItems d).mapM scanRow
  let blocked ← listField d "blocked"
  let total ← intField d "total" 0
  let working ← intField d "working" 0
  return ⟨textField d "domain", textField d "block_type", boolField d "dns_spoofed", blocked, total,
    working, rows⟩

/-- `parse_scan_report` -/
def parseScanReport (loads : Str → Option Json) (data : Option Json) :
    Result (Option ScanReport) :=
  match reportObject loads data with
  | none => .ok none
  | some d => (scanReport d).map some

def checkRow (item : Dict) : Result CheckRow := do
  let coverage ← intField item "coverage" 1
  let successRate ← floatField item "success_rate"
  let passesOk ← intField item "passes_ok" 0
  let passesTotal ← intField item "passes_total" 0
  let medianShare ← shareField item "median_share"
  let medianLatencyMs ← intField item "median_latency_ms" 0
  let medianSpeedKbps ← floatField item "median_speed_kbps"
  let admits ← listField item "admits"
  return { protocol := textField item "protocol", args := textField item "args", coverage,
           working := boolField item "working", successRate, passesOk, passesTotal, medianShare,
           medianLatencyMs, medianSpeedKbps,
           longestSilenceMs := item.get0 (lit "longest_silence_ms"),
           observed := textField item "observed", admits := admits.map Json.text }

/-- A report of `parse_check_report`. -/
def checkReport (d : Dict) : Result CheckReport := do
  let rows ← (← keptItems d).mapM checkRow
  let total ← intField d "total" 0
  let working ← intField d "working" 0
  let elapsedSecs ← floatField d "elapsed_secs"
  return ⟨textField d "domain", total, working, elapsedSecs, boolField d "inconclusive", rows⟩

/-- `parse_check_report` -/
def parseCheckReport (loads : Str → Option Json) (data : Option Json) :
    Result (Option CheckReport) :=
  match reportObject loads data with
  | none => .ok none
  | some d => (checkReport d).map some

/-! ## Which reports convert -/

/-- The `int` and the iterations that a scan report is put through succeed. -/
structure ScanConverts (d : Dict) : Prop where
  strategies : ∃ items, keptItems d = .ok items ∧
    ∀ item ∈ items, ∃ i, intField item "coverage" 1 = .ok i
  blocked : ∃ items, listField d "blocked" = .ok items
  total : ∃ i, intField d "total" 0 = .ok i
  working : ∃ i, intField d "working" 0 = .ok i

/-- The conversions of a row of a check report succeed. -/
structure RowConverts (item : Dict) : Prop where
  ints : ∀ field ∈ [("coverage", 1), ("passes_ok", 0), ("passes_total", 0),
    ("median_latency_ms", 0)], ∃ i, intField item field.1 field.2 = .ok i
  floats : ∀ key ∈ ["success_rate", "median_speed_kbps"], ∃ x, floatField item key = .ok x
  share : ∃ x, shareField item "median_share" = .ok x
  admits : ∃ items, listField item "admits" = .ok items

/-- The conversions of a check report succeed. -/
structure CheckConverts (d : Dict) : Prop where
  strategies : ∃ items, keptItems d = .ok items ∧ ∀ item ∈ items, RowConverts item
  total : ∃ i, intField d "total" 0 = .ok i
  working : ∃ i, intField d "working" 0 = .ok i
  elapsed : ∃ x, floatField d "elapsed_secs" = .ok x

theorem scanRow_ok_iff {item : Dict} :
    (∃ row, scanRow item = .ok row) ↔ ∃ i, intField item "coverage" 1 = .ok i := by
  constructor
  · rintro ⟨row, h⟩
    obtain ⟨i, hi, _⟩ := bind_eq_ok.mp h
    exact ⟨i, hi⟩
  · rintro ⟨i, hi⟩
    exact ⟨_, bind_eq_ok.mpr ⟨i, hi, rfl⟩⟩

theorem checkRow_ok_iff {item : Dict} : (∃ row, checkRow item = .ok row) ↔ RowConverts item := by
  constructor
  · rintro ⟨row, h⟩
    obtain ⟨coverage, hcoverage, h⟩ := bind_eq_ok.mp h
    obtain ⟨rate, hrate, h⟩ := bind_eq_ok.mp h
    obtain ⟨passes, hpasses, h⟩ := bind_eq_ok.mp h
    obtain ⟨total, htotal, h⟩ := bind_eq_ok.mp h
    obtain ⟨share, hshare, h⟩ := bind_eq_ok.mp h
    obtain ⟨latency, hlatency, h⟩ := bind_eq_ok.mp h
    obtain ⟨speed, hspeed, h⟩ := bind_eq_ok.mp h
    obtain ⟨admits, hadmits, _⟩ := bind_eq_ok.mp h
    refine ⟨?_, ?_, ⟨share, hshare⟩, ⟨admits, hadmits⟩⟩
    · simp only [List.forall_mem_cons, List.not_mem_nil, false_implies, implies_true, and_true]
      exact ⟨⟨coverage, hcoverage⟩, ⟨passes, hpasses⟩, ⟨total, htotal⟩, ⟨latency, hlatency⟩⟩
    · simp only [List.forall_mem_cons, List.not_mem_nil, false_implies, implies_true, and_true]
      exact ⟨⟨rate, hrate⟩, ⟨speed, hspeed⟩⟩
  · rintro ⟨hints, hfloats, ⟨share, hshare⟩, ⟨admits, hadmits⟩⟩
    simp only [List.forall_mem_cons, List.not_mem_nil, false_implies, implies_true, and_true]
      at hints hfloats
    obtain ⟨⟨coverage, hcoverage⟩, ⟨passes, hpasses⟩, ⟨total, htotal⟩, ⟨latency, hlatency⟩⟩ := hints
    obtain ⟨⟨rate, hrate⟩, ⟨speed, hspeed⟩⟩ := hfloats
    exact ⟨_, bind_eq_ok.mpr ⟨coverage, hcoverage, bind_eq_ok.mpr ⟨rate, hrate,
      bind_eq_ok.mpr ⟨passes, hpasses, bind_eq_ok.mpr ⟨total, htotal, bind_eq_ok.mpr ⟨share, hshare,
      bind_eq_ok.mpr ⟨latency, hlatency, bind_eq_ok.mpr ⟨speed, hspeed,
      bind_eq_ok.mpr ⟨admits, hadmits, rfl⟩⟩⟩⟩⟩⟩⟩⟩⟩

omit [Tables] in
/-- The rows of a report are built exactly when every kept item converts. -/
theorem rows_ok_iff {ρ : Type} {row : Dict → Result ρ} {P : Dict → Prop}
    (hrow : ∀ item, (∃ r, row item = .ok r) ↔ P item) {d : Dict} :
    (∃ items rows, keptItems d = .ok items ∧ items.mapM row = .ok rows) ↔
      ∃ items, keptItems d = .ok items ∧ ∀ item ∈ items, P item := by
  constructor
  · rintro ⟨items, rows, hitems, hrows⟩
    exact ⟨items, hitems, fun item hitem => (hrow item).mp (mapM_ok_iff.mp ⟨rows, hrows⟩ item hitem)⟩
  · rintro ⟨items, hitems, hall⟩
    obtain ⟨rows, hrows⟩ := mapM_ok_iff.mpr fun item hitem => (hrow item).mpr (hall item hitem)
    exact ⟨items, rows, hitems, hrows⟩

theorem scanReport_ok_iff {d : Dict} : (∃ r, scanReport d = .ok r) ↔ ScanConverts d := by
  constructor
  · rintro ⟨r, h⟩
    obtain ⟨items, hitems, h⟩ := bind_eq_ok.mp h
    obtain ⟨rows, hrows, h⟩ := bind_eq_ok.mp h
    obtain ⟨blocked, hblocked, h⟩ := bind_eq_ok.mp h
    obtain ⟨total, htotal, h⟩ := bind_eq_ok.mp h
    obtain ⟨working, hworking, _⟩ := bind_eq_ok.mp h
    exact ⟨(rows_ok_iff fun _ => scanRow_ok_iff).mp ⟨items, rows, hitems, hrows⟩,
      ⟨blocked, hblocked⟩, ⟨total, htotal⟩, ⟨working, hworking⟩⟩
  · rintro ⟨hstrategies, ⟨blocked, hblocked⟩, ⟨total, htotal⟩, ⟨working, hworking⟩⟩
    obtain ⟨items, rows, hitems, hrows⟩ := (rows_ok_iff fun _ => scanRow_ok_iff).mpr hstrategies
    exact ⟨_, bind_eq_ok.mpr ⟨items, hitems, bind_eq_ok.mpr ⟨rows, hrows,
      bind_eq_ok.mpr ⟨blocked, hblocked, bind_eq_ok.mpr ⟨total, htotal,
      bind_eq_ok.mpr ⟨working, hworking, rfl⟩⟩⟩⟩⟩⟩

theorem checkReport_ok_iff {d : Dict} : (∃ r, checkReport d = .ok r) ↔ CheckConverts d := by
  constructor
  · rintro ⟨r, h⟩
    obtain ⟨items, hitems, h⟩ := bind_eq_ok.mp h
    obtain ⟨rows, hrows, h⟩ := bind_eq_ok.mp h
    obtain ⟨total, htotal, h⟩ := bind_eq_ok.mp h
    obtain ⟨working, hworking, h⟩ := bind_eq_ok.mp h
    obtain ⟨elapsed, helapsed, _⟩ := bind_eq_ok.mp h
    exact ⟨(rows_ok_iff fun _ => checkRow_ok_iff).mp ⟨items, rows, hitems, hrows⟩,
      ⟨total, htotal⟩, ⟨working, hworking⟩, ⟨elapsed, helapsed⟩⟩
  · rintro ⟨hstrategies, ⟨total, htotal⟩, ⟨working, hworking⟩, ⟨elapsed, helapsed⟩⟩
    obtain ⟨items, rows, hitems, hrows⟩ := (rows_ok_iff fun _ => checkRow_ok_iff).mpr hstrategies
    exact ⟨_, bind_eq_ok.mpr ⟨items, hitems, bind_eq_ok.mpr ⟨rows, hrows,
      bind_eq_ok.mpr ⟨total, htotal, bind_eq_ok.mpr ⟨working, hworking,
      bind_eq_ok.mpr ⟨elapsed, helapsed, rfl⟩⟩⟩⟩⟩⟩

end WebZapret.Selection
