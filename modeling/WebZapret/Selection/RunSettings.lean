import WebZapret.Selection.Settings
import Mathlib.Data.List.Lex

/-!
# The settings of a run

`SETTINGS_SPEC` and the cross-field rules of `normalize`, which apply to this block only. A rule
that is broken is an error, with its text; a run is refused while there is one.

`load_settings` and `settings_from_file` both normalize a file over the defaults of the
environment.
-/

namespace WebZapret.Selection

open Py Failing

/-- `PROTOCOLS` -/
def knownProtocols : List Str := [lit "http", lit "tls12", lit "tls13"]

/-- `BCW_QUEUE_FIXED` -/
def bcwQueueFixed : Int := 200

/-- An item of the kind `int`. -/
def intSpec (key : String) (default lo hi : Int) : Spec :=
  ⟨lit key, .int, .int default, .int lo, .int hi, []⟩

/-- An item of the kind `str`. -/
def strSpec (key default : String) : Spec :=
  ⟨lit key, .str, .str (lit default), .null, .null, []⟩

/-- An item of the kind `bool`. -/
def boolSpec (key : String) (default : Bool) : Spec :=
  ⟨lit key, .bool, .bool default, .null, .null, []⟩

/-- An item of the kind `csv`. -/
def csvSpec (key : String) (default : List String) : Spec :=
  ⟨lit key, .csv, .arr (default.map fun s => .str (lit s)), .null, .null, []⟩

/-- An item of the kind `enum`. -/
def enumSpec (key default : String) (choices : List String) : Spec :=
  ⟨lit key, .enum, .str (lit default), .null, .null, choices.map lit⟩

/-- `SETTINGS_SPEC` -/
def settingsSpec : List Spec :=
  [boolSpec "enabled" true,
    strSpec "bin" "/opt/webzapret/bin/blockcheckw",
    enumSpec "grid" "corpus" ["corpus", "file"],
    strSpec "grid_file" "",
    csvSpec "domains" ["youtube.com"],
    csvSpec "protocols" ["tls12", "tls13"],
    enumSpec "dns" "auto" ["auto", "system", "doh"],
    intSpec "workers" 64 1 2048,
    intSpec "profiles_per_instance" 1024 1 65535,
    intSpec "queue" bcwQueueFixed 1 65535,
    strSpec "via" "",
    strSpec "alive_via" "",
    intSpec "scan_timeout" 0 0 3600,
    intSpec "scan_top" 5 0 1000,
    intSpec "passes" 3 0 10,
    intSpec "take" 3 0 1000,
    intSpec "check_timeout" 3 1 60,
    intSpec "idle_ms" 1000 100 60000,
    strSpec "probe_path" "/",
    strSpec "identity_path" "/robots.txt",
    strSpec "reference_via" "",
    ⟨lit "min_share", .float, .float (.fin 0), .float (.fin 0), .float (.fin 10), []⟩,
    boolSpec "exclude_mirage" true,
    intSpec "max_import" 5 0 100,
    strSpec "import_prefix" "bcw",
    boolSpec "auto_import" false,
    boolSpec "auto_apply" false,
    intSpec "job_timeout" 3600 60 14400,
    intSpec "log_lines" 400 50 5000,
    boolSpec "raise_limits" true,
    intSpec "nf_queue_maxlen" 65536 1024 1048576,
    intSpec "nf_conntrack_max" 131072 1024 4194304]

/-- The keys of the block. -/
def settingsKeys : List Str := settingsSpec.map (·.key)

/-- `[A-Za-z0-9._:-]` -/
def isDomainChar (c : Nat) : Bool :=
  (65 ≤ c && c ≤ 90) || isLower c || isAsciiDigit c || c == 46 || c == 95 || c == 58 || c == 45

/-- `re.fullmatch(r"[A-Za-z0-9._:-]{1,253}", domain)` -/
def IsDomain (domain : Str) : Prop :=
  1 ≤ domain.length ∧ domain.length ≤ 253 ∧ ∀ c ∈ domain, isDomainChar c = true

instance (domain : Str) : Decidable (IsDomain domain) := by
  unfold IsDomain
  infer_instance

variable [Tables]

/-- `env_defaults(environ)` -/
def settingsDefaults (environ : Str → Option Str) : Dict :=
  envDefaults environ settingsSpec (lit "BCW_")

/-! ## The rules -/

def unknownWarnings (values : Dict) : List Str :=
  let unknown := (values.map (·.1)).filter (· ∉ settingsKeys)
  if unknown = [] then []
  else [lit "ignoring unknown settings: " ++ Str.join (lit ",")
    (unknown.mergeSort fun a b => decide (a ≤ b))]

/-- `p in PROTOCOLS` -/
def isProtocol : Json → Bool
  | .str p => p ∈ knownProtocols
  | _ => false

/-- `[p for p in dict.fromkeys(listed) if p in PROTOCOLS]` -/
def keptProtocols (listed : List Json) : List Str :=
  (listed.filterMap fun
    | .str p => if p ∈ knownProtocols then some p else none
    | _ => none).eraseDups

def protocolWarnings (listed : List Json) : Result (List Str) :=
  let bad := listed.filter fun p => !isProtocol p
  if bad.isEmpty then .ok []
  else do return [lit "protocols: ignoring unknown " ++ (← (Json.arr bad).joinComma)]

def protocolErrors (protocols : List Str) : List Str :=
  if protocols = [] then
    [lit "protocols: at least one of " ++ Str.join (lit ",") knownProtocols ++ lit " is required"]
  else []

/-- `[d for d in dict.fromkeys(as_csv(listed)) if d]` -/
def keptDomains (listed : Json) : List Str := (asCsv listed).eraseDups.filter (· ≠ [])

def domainErrors (domains : List Str) : List Str :=
  (domains.filter fun d => ¬IsDomain d).map (fun d =>
    lit "domains: " ++ Json.reprStr d ++ lit " is not a valid domain") ++
    if domains = [] then [lit "domains: at least one domain is required"] else []

def gridErrors (out : Dict) : List Str :=
  if (out.get0 (lit "grid")).Is (lit "file") ∧ ¬(out.get0 (lit "grid_file")).truthy then
    [lit "grid=file needs grid_file (a strategy corpus for --from-file)"]
  else []

def viaErrors (out : Dict) : List Str :=
  if (out.get0 (lit "via")).truthy ∧ (out.get0 (lit "reference_via")).truthy then
    [lit "via and reference_via are mutually exclusive (blockcheckw: the whole run already goes " ++
      lit "through the gateway)"]
  else []

def pathErrors (out : Dict) (key : Str) : List Str :=
  if (out.get key (.str [])).text.StartsWith (lit "/") then []
  else [key ++ lit ": must be an absolute path"]

/-- `x > y` of two integers; other numbers do not get here. -/
def greater : Json → Json → Result Bool
  | .int i, .int j => .ok (j < i)
  | _, _ => .error .typeError

def workerErrors (out : Dict) : Result (List Str) := do
  let workers := out.get0 (lit "workers")
  let profiles := out.get0 (lit "profiles_per_instance")
  if ← greater workers profiles then
    return [lit "workers (" ++ (← workers.formatInt) ++ lit ") exceeds profiles_per_instance (" ++
      (← profiles.formatInt) ++ lit ") — blockcheckw would exit 2"]
  else return []

/-- `x == i` for an integer `i` -/
def equalsInt (i : Int) : Json → Bool
  | .int j => j = i
  | .bool b => b.toNat = i
  | .float x => x.toRat? = some (i : Rat)
  | _ => false

def queueWarnings (out : Dict) : List Str :=
  if equalsInt bcwQueueFixed (out.get0 (lit "queue")) then []
  else [lit "queue=" ++ (out.get0 (lit "queue")).text ++
    lit " has no effect: blockcheckw's NFQUEUE base is the compile-time constant " ++
      intStr bcwQueueFixed]

/-- `out["queue"] = BCW_QUEUE_FIXED`, if it is another number. -/
def pinQueue (out : Dict) : Dict :=
  if equalsInt bcwQueueFixed (out.get0 (lit "queue")) then out
  else out.set (lit "queue") (.int bcwQueueFixed)

/-- `normalize(values, base)` -/
def normalizeSettings (values base : Dict) : Result Normalized := do
  let (out, warnings) := normalize settingsSpec values base
  let listed ← (out.get (lit "protocols") (.arr [])).iter
  let badProtocols ← protocolWarnings listed
  let protocols := keptProtocols listed
  let out := out.set (lit "protocols") (.arr (protocols.map .str))
  let domains := keptDomains (out.get (lit "domains") (.arr []))
  let out := out.set (lit "domains") (.arr (domains.map .str))
  let tooManyWorkers ← workerErrors out
  return ⟨pinQueue out, warnings ++ unknownWarnings values ++ badProtocols ++ queueWarnings out,
    protocolErrors protocols ++ domainErrors domains ++ gridErrors out ++ viaErrors out ++
      pathErrors out (lit "probe_path") ++ pathErrors out (lit "identity_path") ++ tooManyWorkers⟩

/-! ## The file -/

/-- A file of settings. Only objects are written to it; `none` is a file that is absent. -/
abbrev SettingsFile := Option Dict

/-- `read_json(path, {}) or {}` -/
def persisted (file : SettingsFile) : Dict := file.getD []

/-- `load_settings` -/
def loadSettings (environ : Str → Option Str) (file : SettingsFile) : Result Normalized :=
  normalizeSettings (persisted file) (settingsDefaults environ)

/-- `settings_from_file` -/
def settingsFromFile (environ : Str → Option Str) (file : SettingsFile) : Result Normalized :=
  normalizeSettings (persisted file) (settingsDefaults environ)

end WebZapret.Selection
