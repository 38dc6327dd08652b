import WebZapret.Selection.Commands
import WebZapret.Selection.Filter

/-!
# A run of the harness

`run` executes the two steps of every planned domain and writes `result.json`. A step ends with an
exit code, a timeout, or an error of the launch; what its report holds is anything. The domains are
handled one after the other, and no domain's record depends on another one (`run_domains`). But an
exception of one domain ends the whole run.
-/

namespace WebZapret.Selection

open Py Failing

/-! ## Steps -/

/-- How a step ends. -/
inductive StepOutcome where
  | exit (rc : Int)
  | timeout
  /-- `subprocess.run` raises `OSError` with this text -/
  | osError (text : Str)

/-- The exit code that `_run_step` returns. -/
def StepOutcome.rc : StepOutcome → Int
  | .exit rc => rc
  | .timeout => 124
  | .osError _ => 127

/-- What the system printed: a time, a number, or the log decoded with replacement characters. -/
abbrev Printed := { s : Str // EncodableText s }

/-- The note of `_run_step`; `budget` is the text of its time limit. -/
def StepOutcome.note (budget : Printed) : StepOutcome → Str
  | .exit _ => []
  | .timeout => lit "timeout after " ++ budget.1 ++ lit "s"
  | .osError text => text

/-- What `os.fsencode` and `execve` take as an argument: no NUL, and no lone surrogate but those
that stand for undecodable bytes. -/
def Launchable (arg : Str) : Prop :=
  ∀ c ∈ arg, c ≠ 0 ∧ ¬(55296 ≤ c ∧ c < 56448 ∨ 56575 < c ∧ c ≤ 57343)

instance (arg : Str) : Decidable (Launchable arg) := by
  unfold Launchable
  infer_instance

/-- The arguments of a command line; the log line is joined of them. -/
def argTexts (cmd : List Json) : Result (List Str) :=
  cmd.mapM fun
    | .str s => .ok s
    | _ => .error .typeError

/-- `_run_step`; an argument that cannot be passed on raises a `ValueError`, which is not caught. -/
def runStep (cmd : List Json) (budget : Printed) (outcome : StepOutcome) :
    Result (Int × Str) := do
  let args ← argTexts cmd
  if ∀ a ∈ args, Launchable a then return (outcome.rc, outcome.note budget)
  else .error (.valueError (lit "embedded null byte"))

/-! ## Records -/

/-- The record of a domain in the result. -/
structure DomRecord where
  domain : Json
  scanRc : Option Int
  checkRc : Option Int
  blockType : Str
  blocked : List Json
  scanned : Nat
  checked : Nat
  inconclusive : Bool
  working : List CheckRow
  refused : List (CheckRow × Str)
  scan : Option ScanReport
  check : Option CheckReport

/-- The record that a domain starts with. -/
def DomRecord.blank (domain : Json) : DomRecord :=
  ⟨domain, none, none, [], [], 0, 0, false, [], [], none, none⟩

/-- The record with the scan's report. -/
def DomRecord.withScan (dom : DomRecord) (scan : ScanReport) : DomRecord where
  __ := dom
  blockType := scan.blockType
  blocked := scan.blocked
  scanned := scan.strategies.length
  scan := some scan

/-- The record with the check's report and the filtered rows, of which the first hundred refused ones
are kept. -/
def DomRecord.withCheck (dom : DomRecord) (check : CheckReport) (accepted : List CheckRow)
    (refused : List (CheckRow × Str)) : DomRecord where
  __ := dom
  checked := check.strategies.length
  inconclusive := check.inconclusive
  check := some check
  working := accepted
  refused := refused.take 100

/-- What happens during the two steps of a domain. -/
structure Events where
  scan : StepOutcome
  scanBudget : Printed
  scanReport : Option Json
  check : StepOutcome
  checkBudget : Printed
  checkReport : Option Json

/-- What a run finds outside its settings: `json.loads`, the order of rows with a NaN, the name of
the run, the clock, the log, and the steps. -/
structure RunEnv where
  loads : Str → Option Json
  sortNaN : SortNaN
  runId : Str
  startedAt : Printed
  finishedAt : Printed
  tookS : Flt
  log : Printed
  events : Nat → Events

/-- `"%s: %s failed (rc=%s%s)"` -/
def failedText (domain : Json) (step : String) (rc : Int) (note : Str) [Tables] : Str :=
  domain.text ++ lit ": " ++ lit step ++ lit " failed (rc=" ++ intStr rc ++
    (if note = [] then [] else lit ": " ++ note) ++ lit ")"

/-- `"%s: %s produced no readable report"` -/
def unreadableText (domain : Json) (step : String) [Tables] : Str :=
  domain.text ++ lit ": " ++ lit step ++ lit " produced no readable report"

variable [Tables]

/-- A record and the errors that the domain added. -/
abbrev Recorded := DomRecord × List Str

/-- A domain after its `check` report was parsed. -/
def afterCheck (env : RunEnv) (settings : Dict) (dom : DomRecord) :
    Option CheckReport → Result Recorded
  | none => .ok (dom, [unreadableText dom.domain "check"])
  | some check => do
    let (accepted, refused) ← selectWorking env.sortNaN check.strategies settings
    return (dom.withCheck check accepted refused, [])

/-- The second step of a domain. -/
def checkStep (env : RunEnv) (settings : Dict) (item : Planned) (e : Events) (dom : DomRecord) :
    Result Recorded := do
  let (rc, note) ← runStep item.check e.checkBudget e.check
  let dom := { dom with checkRc := some rc }
  if rc ≠ 0 then return (dom, [failedText item.domain "check" rc note])
  afterCheck env settings dom (← parseCheckReport env.loads e.checkReport)

/-- A domain after its `scan` report was parsed. -/
def afterScan (env : RunEnv) (settings : Dict) (item : Planned) (e : Events) (dom : DomRecord) :
    Option ScanReport → Result Recorded
  | none => .ok (dom, [unreadableText item.domain "scan"])
  | some scan =>
    if scan.strategies = [] then .ok (dom.withScan scan, [])
    else checkStep env settings item e (dom.withScan scan)

/-- One turn of the loop of `run`. -/
def domainStep (env : RunEnv) (settings : Dict) (item : Planned) (e : Events) :
    Result Recorded := do
  let (rc, note) ← runStep item.scan e.scanBudget e.scan
  let dom := { DomRecord.blank item.domain with scanRc := some rc }
  if rc ≠ 0 then return (dom, [failedText item.domain "scan" rc note])
  afterScan env settings item e dom (← parseScanReport env.loads e.scanReport)

/-! ## The result -/

structure RunResult where
  ok : Bool
  success : Bool
  runId : Str
  startedAt : Printed
  finishedAt : Printed
  tookS : Flt
  queue : Json
  settings : Dict
  plans : List Planned
  domains : List DomRecord
  errors : List Str
  log : Printed

/-- The result of the records. -/
def resultOf (env : RunEnv) (settings : Dict) (plans : List Planned) (records : List Recorded) :
    RunResult where
  ok := records.any fun r => r.1.scanRc = some 0
  success := records.any fun r => !r.1.working.isEmpty
  runId := env.runId
  startedAt := env.startedAt
  finishedAt := env.finishedAt
  tookS := env.tookS
  queue := settings.get (lit "queue") (.int bcwQueueFixed)
  settings := settingsKeys.map fun key => (key, settings.get0 key)
  plans
  domains := records.map (·.1)
  errors := records.flatMap (·.2)
  log := env.log

/-! ## JSON -/

/-- A member of an object. -/
def member (key : String) (value : Json) : Str × Json := (lit key, value)

def optJson {α : Type} (f : α → Json) : Option α → Json
  | none => .null
  | some a => f a

def Planned.json (p : Planned) : Json := .obj
  [member "domain" p.domain, member "scan_out" (.str p.scanOut),
    member "check_out" (.str p.checkOut), member "log" (.str p.log), member "scan" (.arr p.scan),
    member "check" (.arr p.check)]

def ScanRow.json (r : ScanRow) : Json := .obj
  [member "protocol" (.str r.protocol), member "args" (.str r.args),
    member "coverage" (.int r.coverage)]

def ScanReport.json (r : ScanReport) : Json := .obj
  [member "domain" (.str r.domain), member "block_type" (.str r.blockType),
    member "dns_spoofed" (.bool r.dnsSpoofed), member "blocked" (.arr r.blocked),
    member "total" (.int r.total), member "working" (.int r.working),
    member "strategies" (.arr (r.strategies.map ScanRow.json))]

/-- The members of a checked row. -/
def CheckRow.members (r : CheckRow) : Dict :=
  [member "protocol" (.str r.protocol), member "args" (.str r.args),
    member "coverage" (.int r.coverage), member "working" (.bool r.working),
    member "success_rate" (.float r.successRate), member "passes_ok" (.int r.passesOk),
    member "passes_total" (.int r.passesTotal),
    member "median_share" (optJson Json.float r.medianShare),
    member "median_latency_ms" (.int r.medianLatencyMs),
    member "median_speed_kbps" (.float r.medianSpeedKbps),
    member "longest_silence_ms" r.longestSilenceMs, member "observed" (.str r.observed),
    member "admits" (Json.texts r.admits)]

def CheckRow.json (r : CheckRow) : Json := .obj r.members

/-- `dict(row, reason=reason)` -/
def refusedJson (r : CheckRow × Str) : Json := .obj (r.1.members ++ [member "reason" (.str r.2)])

def CheckReport.json (r : CheckReport) : Json := .obj
  [member "domain" (.str r.domain), member "total" (.int r.total), member "working" (.int r.working),
    member "elapsed_secs" (.float r.elapsedSecs), member "inconclusive" (.bool r.inconclusive),
    member "strategies" (.arr (r.strategies.map CheckRow.json))]

def DomRecord.json (r : DomRecord) : Json := .obj
  [member "domain" r.domain, member "scan_rc" (optJson Json.int r.scanRc),
    member "check_rc" (optJson Json.int r.checkRc), member "block_type" (.str r.blockType),
    member "blocked" (.arr r.blocked), member "scanned" (.int r.scanned),
    member "checked" (.int r.checked), member "inconclusive" (.bool r.inconclusive),
    member "working" (.arr (r.working.map CheckRow.json)),
    member "refused" (.arr (r.refused.map refusedJson)),
    member "scan" (optJson ScanReport.json r.scan),
    member "check" (optJson CheckReport.json r.check)]

def RunResult.json (r : RunResult) : Json := .obj
  [member "ok" (.bool r.ok), member "success" (.bool r.success), member "run_id" (.str r.runId),
    member "started_at" (.str r.startedAt.1), member "finished_at" (.str r.finishedAt.1),
    member "took_s" (.float r.tookS), member "queue" r.queue, member "settings" (.obj r.settings),
    member "plans" (.arr (r.plans.map Planned.json)),
    member "domains" (.arr (r.domains.map DomRecord.json)),
    member "errors" (Json.texts r.errors), member "log" (.str r.log.1)]

/-- `run`: what it returns, and what it wrote to `result.json`; `write_json` writes nothing when
the result cannot be encoded. -/
def run (env : RunEnv) (settings : Dict) (runDir : Str) : Result (RunResult × Option Json) := do
  let _ ← (settings.get (lit "job_timeout") (.int 3600)).toFloat
  let plans := (← plan settings runDir).runs
  let records ← plans.zipIdx.mapM fun p => domainStep env settings p.1 (env.events p.2)
  let result := resultOf env settings plans records
  return (result, if result.json.encodable then some result.json else none)

end WebZapret.Selection
