import WebZapret.Panel.Get
import WebZapret.Panel.Answers

/-!
# `do_POST`

The routes that change something. Each reads a body that can be any JSON value, and answers with a
dict, unless an exception leaves it: the body is no dict, a text of the request cannot be printed or
passed to a program, a program prints what is no UTF-8, the engine is missing at `/api/bcw/cancel`, and,
at `/api/bcw/import`, always.
-/

namespace WebZapret.Panel.Http

open Py Failing Selection Catalog Json

/-- How `subprocess.run` of a program with `text=True` ends. -/
inductive ProgramRun where
  | timedOut
  /-- an output is no UTF-8 -/
  | undecodable
  | finished (rc : Int) (stdout stderr : Printed)

/-- What the routes find and what the programs do that they start. -/
structure PostEnv extends PanelEnv where
  /-- `json.loads(bytes.decode("utf-8"))`, where it does not raise -/
  loads : List Nat → Option Json
  /-- what `raw_decode` makes of an output from its first brace on, where it does not raise -/
  rawDecode : Str → Option Json
  /-- `wz-apply.sh` and `wz-test.sh` with these arguments -/
  applied : List Str → ProgramRun
  tested : List Str → ProgramRun
  /-- the error handler of stdout is `surrogateescape`, as it is in the locale C -/
  escapes : Bool
  importEnv : ImportEnv
  /-- `bcw_import` -/
  imported : (runId protocols limit : Json) → Result Dict
  /-- `str(e)` of an exception without a text of its own -/
  exception : Exc → Printed
  /-- a file can be written -/
  disk : Bool
  /-- `time.strftime("%Y%m%d-%H%M%S")` -/
  runId : Printed
  /-- the error of `os.makedirs` -/
  makedirs : Option Printed
  /-- the pid of the harness, or the error of its start -/
  popen : Except Printed Int
  /-- a signal reaches the harness, or its process -/
  signalled : Int → Bool

/-- `200 if res.get("ok") else 400` -/
def codeOf (res : Dict) : Nat := if (res.get0 (lit "ok")).truthy then 200 else 400

/-- The dict of a route with its code. -/
def coded (res : Result Dict) : Result (Nat × Json) := res.map fun res => (codeOf res, .obj res)

/-! ## Programs -/

/-- What stdout takes. -/
def PostEnv.Shows (env : PostEnv) (text : Str) : Prop :=
  ∀ c ∈ text, 55296 ≤ c ∧ c ≤ 57343 → env.escapes = true ∧ 56448 ≤ c ∧ c ≤ 56575

instance (env : PostEnv) (text : Str) : Decidable (env.Shows text) := by
  unfold PostEnv.Shows
  infer_instance

/-- `print(text, flush=True)` -/
def PostEnv.print (env : PostEnv) (text : Str) : Result Unit :=
  if env.Shows text then .ok () else .error Utf8.encodeError

/-- `subprocess.run` of a command line; only a timeout is caught. -/
def launch (args : List Str) (run : List Str → ProgramRun) : Result (Option (Int × Str × Str)) :=
  if ∀ a ∈ args, Launchable a then
    match run args with
    | .timedOut => .ok none
    | .undecodable => .error (.valueError (lit "invalid start byte"))
    | .finished rc stdout stderr => .ok (some (rc, stdout.1, stderr.1))
  else .error (.valueError (lit "embedded null byte"))

/-- `apply` -/
def PostEnv.apply (env : PostEnv) (args : List Str) : Result Dict := do
  env.print (lit "panel: apply: " ++ Str.join (lit " ") args)
  match ← launch args env.applied with
  | some (rc, stdout, stderr) => return [member "ok" (.bool (rc = 0)), member "rc" (.int rc),
      member "stdout" (.str (lastOnes 6000 stdout)), member "stderr" (.str (lastOnes 2000 stderr))]
  | none => return [member "ok" (.bool false), member "rc" (.int (-1)), member "stdout" (.str []),
      member "stderr" (.str (lit "timed out (90s)"))]

/-- `self._send(200, dict(apply([command, arg]), key=arg))` -/
def PostEnv.applyRoute (env : PostEnv) (command key : String) (arg : Str) : Result (Nat × Json) := do
  let res ← env.apply [lit command, arg]
  return (200, .obj (res.set (lit key) (.str arg)))

variable [Tables]

/-- `str(body.get(key, ""))` -/
def textOf (body : Dict) (key : String) : Str := (body.get (lit key) (.str [])).text

/-- `"unknown strategy '%s'" % sid` -/
def unknownStrategy (sid : Str) : Dict := refusal (lit "unknown strategy '" ++ sid ++ lit "'")

/-- `POST /api/strategy` -/
def postStrategy (env : PostEnv) (body : Json) : Result (Nat × Json) := do
  let sid := textOf (← body.dict) "id"
  if ¬HasId (← strategyIds env.catalog) sid then return (400, .obj (unknownStrategy sid))
  env.applyRoute "strategy" "strategy" sid

/-- `POST /api/exit` -/
def postExit (env : PostEnv) (body : Json) : Result (Nat × Json) := do
  let mode := textOf (← body.dict) "mode"
  if mode ∉ [lit "direct", lit "socks5", lit "ss"] then
    return (400, .obj (refusal (lit "mode must be direct|socks5|ss")))
  env.applyRoute "exit" "mode" mode

/-! ## The test of a strategy -/

/-- A letter, whatever its case; the long s is a case of `s`. -/
def isLetter (letter c : Nat) : Bool := c == letter || c + 32 == letter || (letter == 115 && c == 383)

/-- The rest of a URL after `https?://`, whatever the case. -/
def afterScheme : Str → Option Str
  | h :: t :: t' :: p :: rest =>
    if isLetter 104 h && isLetter 116 t && isLetter 116 t' && isLetter 112 p then
      match rest with
      | 58 :: 47 :: 47 :: host => some host
      | s :: 58 :: 47 :: 47 :: host => if isLetter 115 s then some host else none
      | _ => none
    else none
  | _ => none

/-- `_TEST_URL_RE.match(url)` of a stripped text, which has no line break at its end. -/
def isUrl (url : Str) : Bool :=
  match afterScheme url with
  | some host => host ≠ [] && host.all fun c => !isSpace c
  | none => false

/-- The URL of a test. -/
def PostEnv.urlOf (env : PostEnv) (body : Dict) : Str :=
  ((body.get (lit "url") (.str [])).or (.str env.testUrl.1)).text.strip

/-- `max(10, min(int(timeout or TEST_YTDLP_TIMEOUT), 600))`; an infinite one is not caught. -/
def timeoutOf (default : Int) (timeout : Json) : Result Int :=
  match (timeout.or (.int default)).toInt with
  | .ok n => .ok (max 10 (min n 600))
  | .error .overflowError => .error .overflowError
  | .error _ => .ok default

/-- What `test_strategy` makes of the output of the harness. -/
def PostEnv.testResult (env : PostEnv) : Option (Int × Str × Str) → Dict
  | none => refusal (lit "test harness timed out")
  | some (rc, stdout, stderr) =>
    let malformed := refusal (lit "malformed test harness output (rc=" ++ intStr rc ++ lit "): " ++
      lastOnes 800 (if stdout = [] then stderr else stdout))
    match env.rawDecode stdout with
    | some (.obj res) => if (res.lookup (lit "ok")).isSome then res else malformed
    | _ => malformed

/-- The test of a strategy that is known, with a URL that is one. -/
def PostEnv.runTest (env : PostEnv) (sid url : Str) (timeout : Json) : Result Dict := do
  let timeout ← timeoutOf env.testTimeout timeout
  env.print (lit "panel: strategy test: id=" ++ sid ++ lit " url=" ++ url ++ lit " timeout=" ++
    intStr timeout ++ lit "s")
  return env.testResult (← launch [sid, url, intStr timeout] env.tested)

/-- `test_strategy` -/
def PostEnv.testStrategy (env : PostEnv) (body : Dict) : Result Dict := do
  let sid := textOf body "id"
  let url := env.urlOf body
  if ¬HasId (← strategyIds env.catalog) sid then return unknownStrategy sid
  if ¬(url.length ≤ 2048 ∧ isUrl url = true) then
    return refusal (lit "test URL must be a single http(s) URL")
  env.runTest sid url (body.get0 (lit "timeout"))

/-! ## The selection -/

/-- A route of the selection that needs the engine. -/
def PostEnv.withEngine (env : PostEnv) (route : Result (Nat × Json)) : Result (Nat × Json) :=
  if env.selection.engine then route
  else .ok (400, .obj (refusal (lit "strategy selection unavailable")))

/-- What `/api/bcw/settings` and `/api/bcw/schedule` send. -/
def blockSent (name : String) (answer : Selection.Answer) : Nat × Json :=
  let ok := answer.saved && decide (answer.merged.errors = [])
  (if ok then 200 else 400, .obj [member "ok" (.bool ok), member name (.obj answer.merged.settings),
    member "warnings" (texts answer.merged.warnings), member "errors" (texts answer.merged.errors)])

/-- `save_settings` on the disk of the panel. -/
def PostEnv.save (env : PostEnv) (values : Dict) : Result (SettingsFile × Selection.Answer) :=
  let file := env.selection.settings
  let updated := updateKnown settingsKeys (persisted file) values
  saveSettings env.selection.environ values (saves env.disk (some (.obj updated))) file

/-- `POST /api/bcw/settings` -/
def postSettings (env : PostEnv) (body : Json) : Result (Nat × Json) :=
  env.withEngine do
    let (_, answer) ← env.save (← (body.or (.obj [])).dict)
    return blockSent "settings" answer

/-- `POST /api/bcw/reset` -/
def postReset (env : PostEnv) : Result (Nat × Json) :=
  env.withEngine (.ok (200, .obj [member "ok" (.bool true),
    member "settings" (.obj (settingsDefaults env.selection.environ))]))

/-- `POST /api/bcw/schedule`; what has been saved is read again, to drop `next_run`. -/
def postBcwSchedule (env : PostEnv) (body : Json) : Result (Nat × Json) :=
  env.withEngine do
    let (updated, merged) ←
      mergedSchedule (scheduleDefaults env.selection.environ) body env.selection.schedule
    let saved := decide (merged.errors = []) && saves env.disk (some (.obj updated))
    let _ ← stateOf (if saved then some (.obj updated) else none)
    return blockSent "schedule" ⟨merged, saved⟩

/-- The overrides of a run are saved, and the settings are read again. -/
def PostEnv.runSettings (env : PostEnv) (overrides : Dict) : Result (Option Normalized) := do
  if overrides = [] then return some (← loadSettings env.selection.environ env.selection.settings)
  let (file, answer) ← env.save overrides
  if answer.saved then return some (← loadSettings env.selection.environ file)
  return none

/-- `bcw_start_run` from the loaded settings on. -/
def PostEnv.launchRun (env : PostEnv) (settings : Normalized) : Result Dict :=
  if settings.errors ≠ [] then
    .ok (refusal (Str.join (lit "; ") settings.errors) ++
      [member "errors" (texts settings.errors), member "warnings" (texts settings.warnings)])
  else
    match env.makedirs, env.popen with
    | some error, _ => .ok (refusal (lit "cannot create run dir: " ++ error.1))
    | none, .error error => .ok (refusal (lit "cannot start the harness: " ++ error.1))
    | none, .ok pid => do
      env.print (lit "panel: bcw run " ++ env.runId.1 ++ lit " started (manual)")
      return [member "ok" (.bool true), member "run_id" (.str env.runId.1), member "pid" (.int pid),
        member "settings" (.obj settings.settings), member "warnings" (texts settings.warnings)]

/-- The job is running, and its process is alive. -/
def PostEnv.InProgress (env : PostEnv) (job : Dict) : Prop :=
  (job.get0 (lit "state")).Is (lit "running") ∧
    pidAlive env.selection.kill (job.get0 (lit "pid")) = true

instance (env : PostEnv) (job : Dict) : Decidable (env.InProgress job) := by
  unfold PostEnv.InProgress
  infer_instance

/-- `bcw_start_run` -/
def PostEnv.startRun (env : PostEnv) (overrides : Dict) : Result Dict := do
  match env.selection.notReady with
  | some error => return refusal error
  | none =>
    let job ← stateOf env.selection.job
    if env.InProgress job then
      return refusal (lit "a run is already in progress (run " ++
        (job.get (lit "run_id") (.str (lit "?"))).text ++ lit ")")
    match ← env.runSettings overrides with
    | none => return refusal (lit "cannot persist settings")
    | some settings => env.launchRun settings

/-- `body.get("settings")`, if it is a dict -/
def overridesOf (body : Dict) : Dict :=
  match body.get0 (lit "settings") with
  | .obj overrides => overrides
  | _ => []

/-- `POST /api/bcw/run` -/
def postRun (env : PostEnv) (body : Json) : Result (Nat × Json) := do
  coded (env.startRun (overridesOf (← body.dict)))

/-- `bcw_cancel`, which does not ask whether the engine is there. -/
def PostEnv.cancel (env : PostEnv) : Result Dict :=
  if ¬env.selection.engine then .error .attributeError
  else do
    let job ← stateOf env.selection.job
    if ¬env.InProgress job then return refusal (lit "no running selection")
    let pid ← (job.get0 (lit "pid")).toInt
    if ¬env.signalled pid then return refusal (lit "process already gone")
    env.print (lit "panel: bcw run " ++ (job.get0 (lit "run_id")).text ++ lit " cancelled")
    return [member "ok" (.bool true), member "run_id" (job.get0 (lit "run_id"))]

/-- `POST /api/bcw/import`: `bcw_import` has no parameter for the rows. -/
def postBcwImport (env : PostEnv) (body : Json) : Result (Nat × Json) := do
  let body ← body.dict
  let (runId, protocols, limit) ← bindParams [body.get0 (lit "run_id"), body.get0 (lit "protocols"),
    body.get0 (lit "limit"), body.get0 (lit "rows")]
  coded (env.imported runId protocols limit)

/-! ## The handler -/

/-- What the two routes that change the catalog answer. -/
def PostEnv.change (env : PostEnv) (task : Task Catalog.Stored Catalog.Answer) : Result (Nat × Json) :=
  coded (changed env.exception env.disk env.catalog task)

/-- The routes of `do_POST`. -/
def postRoute (env : PostEnv) (path : Str) (body : Json) : Outcome :=
  if path = lit "/api/strategy" then reply (postStrategy env body)
  else if path = lit "/api/strategy/import" then
    reply (env.change (importStrategyFromJson env.importEnv body))
  else if path = lit "/api/strategy/test" then reply do coded (env.testStrategy (← body.dict))
  else if path = lit "/api/strategy/delete" then reply do
    let sid := textOf (← body.dict) "id"
    env.change (deleteStrategy (env.status.stateGet "strategy" "standard") (.str sid))
  else if path = lit "/api/bcw/settings" then reply (postSettings env body)
  else if path = lit "/api/bcw/reset" then reply (postReset env)
  else if path = lit "/api/bcw/run" then reply (postRun env body)
  else if path = lit "/api/bcw/cancel" then reply (coded env.cancel)
  else if path = lit "/api/bcw/import" then reply (postBcwImport env body)
  else if path = lit "/api/bcw/schedule" then reply (postBcwSchedule env body)
  else if path = lit "/api/exit" then reply (postExit env body)
  else notFound

/-- `do_POST` -/
def doPost (env : PostEnv) (r : Request) : Outcome :=
  withAuth env.auth r (postRoute env r.path (readBody env.loads r))

/-- What `http.server` calls for a request. -/
def handle (env : PostEnv) (r : Request) : Outcome :=
  match r.method with
  | .get => doGet env.toPanelEnv r
  | .post => doPost env r

end WebZapret.Panel.Http
