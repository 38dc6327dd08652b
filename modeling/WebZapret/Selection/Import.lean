import WebZapret.Catalog.Stored

/-!
# Importing a finished run

`bcw_import` of `panel.py`, with its two callers: the HTTP route passes four arguments, one more
than the function has parameters, and `_bcw_collect` passes the run's id. The body tests the
variable `rows` before anything has bound it. So no call gets to the catalog: `endToEnd_iff` says
when what a call does is still right.

The part of the body that works on the catalog is `bcwCatalog`.
-/

namespace WebZapret.Selection

open Py Catalog

/-- What `bcw_import` finds outside its arguments and the catalog. -/
structure Host where
  /-- the error of `bcw_ready`, when there is one -/
  notReady : Option Str
  runsDir : Str
  stateDir : Str
  /-- `bcw.read_json(path)` -/
  file : Str → Option Json
  /-- `bcw.load_settings` -/
  settings : ImportSettings
  /-- `time.strftime(...)` -/
  now : Str

/-- `os.path.join(dir, name)` -/
def joinPath (dir name : Str) : Str :=
  if name.StartsWith (lit "/") then name
  else if dir = [] ∨ dir.getLast? = some 47 then dir ++ name
  else dir ++ lit "/" ++ name

/-! ## The selected rows -/

/-- `BCW_PROTOCOL_NAMES.get` -/
def protocolName (p : Str) : Option Str :=
  if p = lit "http" then some (lit "HTTP")
  else if p = lit "tls12" then some (lit "HTTPS/TLS1.2")
  else if p = lit "tls13" then some (lit "HTTPS/TLS1.3")
  else none

/-- The domains of a result. -/
def domainsOf (result : Dict) : Result (List Json) :=
  ((result.get0 (lit "domains")).or (.arr [])).iter

/-- The first domain that has a name. -/
def firstDomain : List Json → Result Json
  | [] => .ok (.str [])
  | dom :: doms => do
    let domain := (← dom.dict).get0 (lit "domain")
    if domain.truthy then return domain
    firstDomain doms

/-- `row.get("protocol") in allowed`; a list or a dict cannot be looked up in a set. -/
def inSet (allowed : List Str) : Json → Result Bool
  | .str s => .ok (s ∈ allowed)
  | .arr _ => .error .typeError
  | .obj _ => .error .typeError
  | _ => .ok false

/-- The domain without the rows of other protocols. -/
def filterDomain (allowed : List Str) (dom : Json) : Result Json := do
  let dom ← dom.dict
  let rows ← ((dom.get0 (lit "working")).or (.arr [])).iter
  let kept ← rows.filterM fun row => do
    inSet allowed ((← row.dict).get0 (lit "protocol"))
  return .obj (dom.set (lit "working") (.arr kept))

variable [Tables]

/-- One row of the explicit selection; `none` when it is passed over. -/
def cleanRow : Json → Option Dict
  | .obj row =>
    if (Dict.get0 row (lit "args")).truthy then
      some [(lit "protocol", .str (rowProtocol row)),
        (lit "args", .str (Dict.get0 row (lit "args")).text),
        (lit "passes_ok", Dict.get row (lit "passes_ok") (.int 0)),
        (lit "passes_total", Dict.get row (lit "passes_total") (.int 0)),
        (lit "median_share", Dict.get0 row (lit "median_share")),
        (lit "median_latency_ms", Dict.get row (lit "median_latency_ms") (.int 0)),
        (lit "success_rate", Dict.get row (lit "success_rate") (.float (.fin 1))),
        (lit "admits", (Dict.get0 row (lit "admits")).or (.arr [])),
        (lit "observed", Dict.get row (lit "observed") (.str [])),
        (lit "working", .bool true)]
    else none
  | _ => none

/-- The result with the rows of the explicit selection, when there is one. -/
def selectRows (rows : Json) (result : Dict) : Result Dict :=
  match rows with
  | .arr (row :: rows) => do
    let domain ← firstDomain (← domainsOf result)
    let clean := (row :: rows).filterMap cleanRow
    return result.set (lit "domains") (.arr [.obj [
      (lit "domain", domain.or (.str (lit "manual"))),
      (lit "block_type", .str []),
      (lit "working", .arr (clean.map .obj))]])
  | _ => .ok result

/-- The settings with the limit; a limit that is no number is passed over, an infinite one is not
caught. -/
def limitSettings (limit : Json) (settings : ImportSettings) : Result ImportSettings :=
  match limit with
  | .null => .ok settings
  | limit =>
    match limit.toInt with
    | .ok i => .ok { settings with maxImport := max 0 (min i 100) }
    | .error .overflowError => .error .overflowError
    | .error _ => .ok settings

/-- The result with the rows of the given protocols, when some are given. -/
def filterProtocols (protocols : Json) (result : Dict) : Result Dict := do
  if protocols.truthy then
    let allowed := (← protocols.iter).filterMap fun p => protocolName (Tables.lower p.text.strip)
    let domains ← (← domainsOf result).mapM (filterDomain allowed)
    return result.set (lit "domains") (.arr domains)
  return result

/-- The selected rows and the settings that `bcw_import` plans with. -/
def selection (settings : ImportSettings) (rows protocols limit : Json) (result : Dict) :
    Result (Dict × ImportSettings) := do
  let result ← selectRows rows result
  let settings ← limitSettings limit settings
  return (← filterProtocols protocols result, settings)

/-! ## The catalog part -/

/-- The entries that `plan_import` makes for a catalog. -/
def planFor (result : Json) (settings : ImportSettings) (runId now : Str) (stored : Stored) :
    Result (List Dict × List Dict) := do
  planImport result settings (← strategies stored) runId now

/-- The catalog with the entries; `strategies` has already refused one that is no dict. -/
def mergeStored (entries : List Dict) (stored : Stored) : Result Json := do
  let catalog ← ((stored.getD emptyCatalog).or emptyCatalog).dict
  return .obj (← mergeCatalog catalog entries)

/-- The end of `bcw_import`: from the planned entries to the answer. -/
def bcwMerge (entries skipped : List Dict) : Task Stored Answer :=
  if entries = [] then .ret (.refused (lit "nothing to import") skipped)
  else .read fun stored =>
    match mergeStored entries stored with
    | .error e => .ret (.raised e)
    | .ok merged => .write (some merged) fun saved => .ret <|
      if saved then .ok (.selected (entries.map idText) entries skipped)
      else .refused (lit "failed to write strategies file") []

/-- The part of `bcw_import` that reads and writes the catalog. -/
def bcwCatalog (result : Json) (settings : ImportSettings) (runId now : Str) :
    Task Stored Answer :=
  .read fun stored =>
    match planFor result settings runId now stored with
    | .error e => .ret (.raised e)
    | .ok (entries, skipped) => bcwMerge entries skipped

/-! ## The function -/

/-- The path of the result of a run, or of the last one. -/
def Host.resultPath (h : Host) (runId : Json) : Str :=
  if runId.truthy then joinPath (joinPath h.runsDir runId.text) (lit "result.json")
  else joinPath h.stateDir (lit "bcw_last.json")

/-- The stored result of a run that has `ok`. -/
def Host.finished (h : Host) (runId : Json) : Option Dict :=
  match h.file (h.resultPath runId) with
  | some (.obj result) => if (Dict.get0 result (lit "ok")).truthy then some result else none
  | _ => none

/-- `rows` in the body of `bcw_import`, where it is neither a parameter nor bound before. -/
def unboundRows : Result Json := .error (.unboundLocalError (lit "rows"))

/-- `str(run_id or "last")` -/
def runName (runId : Json) : Str := (runId.or (.str (lit "last"))).text

/-- `bcw_import` -/
def bcwImport (h : Host) (runId protocols limit : Json) : Task Stored Answer :=
  match h.notReady with
  | some error => .ret (.refused error [])
  | none =>
    match h.finished runId with
    | none => .ret (.refused
        (lit "no finished run to import from (" ++ h.resultPath runId ++ lit ")") [])
    | some result =>
      match (do selection h.settings (← unboundRows) protocols limit result) with
      | .error e => .ret (.raised e)
      | .ok (result, settings) => bcwCatalog (.obj result) settings (runName runId) h.now

/-! ## The callers -/

/-- A call of `bcw_import`. -/
inductive Call where
  /-- `POST /api/bcw/import`, with what its body has -/
  | http (runId protocols limit rows : Json)
  /-- `_bcw_collect` -/
  | collect (runId : Json)

/-- The arguments that the caller passes. -/
def Call.args : Call → List Json
  | .http runId protocols limit rows => [runId, protocols, limit, rows]
  | .collect runId => [runId]

/-- The arguments bound to the parameters of `bcw_import`, with their defaults. -/
def bindParams : List Json → Result (Json × Json × Json)
  | [] => .ok (.null, .null, .null)
  | [runId] => .ok (runId, .null, .null)
  | [runId, protocols] => .ok (runId, protocols, .null)
  | [runId, protocols, limit] => .ok (runId, protocols, limit)
  | _ => .error .typeError

def Call.run (h : Host) (call : Call) : Task Stored Answer :=
  match bindParams call.args with
  | .error e => .ret (.raised e)
  | .ok (runId, protocols, limit) => bcwImport h runId protocols limit

def Call.runId : Call → Json
  | .http runId _ _ _ => runId
  | .collect runId => runId

/-! ## What an import is to do -/

/-- The entries of `plan_import` for the rows that a call selects. -/
def Call.planned (h : Host) (call : Call) (result : Dict) (stored : Stored) :
    Result (List Dict × List Dict) := do
  let (result, settings) ← match call with
    | .http _ protocols limit rows => selection h.settings rows protocols limit result
    | .collect _ => selection h.settings .null .null .null result
  planFor (.obj result) settings (runName call.runId) h.now stored

/-- `plan_import` accepts at least one of the selected rows. -/
def Call.Accepts (h : Host) (call : Call) (result : Dict) (stored : Stored) : Prop :=
  ∃ entries skipped, call.planned h result stored = .ok (entries, skipped) ∧ entries ≠ []

/-- A catalog with entries appended to its strategies. -/
def Appended (catalog : Json) (entries : List Dict) (stored : Stored) : Prop :=
  ∃ members old, catalog = .obj members ∧
    Dict.get members (lit "strategies") (.arr []) = .arr old ∧
    stored = some (.obj (Dict.set members (lit "strategies") (.arr (old ++ entries.map .obj))))

/-- What a call is to do with a readable catalog: append the planned entries and answer `ok`, or
answer `ok` false and leave the catalog. -/
structure EndToEnd (h : Host) (call : Call) (result : Dict) (catalog : Json) : Prop where
  accepted : ∀ entries skipped, call.planned h result (some catalog) = .ok (entries, skipped) →
    entries ≠ [] →
    ((call.run h).result (some catalog)).Ok ∧
      Appended catalog entries ((call.run h).effect (some catalog))
  otherwise : ¬call.Accepts h result (some catalog) →
    (∃ error skipped, (call.run h).result (some catalog) = .refused error skipped) ∧
      (call.run h).effect (some catalog) = some catalog

/-- A call that raises before it gets to the catalog is never right. -/
theorem not_endToEnd_of_raised {h : Host} {call : Call} {result : Dict} {catalog : Json} {e : Exc}
    (hrun : call.run h = .ret (.raised e)) : ¬EndToEnd h call result catalog := by
  intro hend
  by_cases haccepts : call.Accepts h result (some catalog)
  · obtain ⟨entries, skipped, hplanned, hne⟩ := haccepts
    obtain ⟨⟨report, hok⟩, _⟩ := hend.accepted entries skipped hplanned hne
    rw [hrun, Task.result] at hok
    cases hok
  · obtain ⟨⟨error, skipped, hrefused⟩, _⟩ := hend.otherwise haccepts
    rw [hrun, Task.result] at hrefused
    cases hrefused

/-- The HTTP route passes one argument too many. -/
theorem http_raises (h : Host) (runId protocols limit rows : Json) :
    (Call.http runId protocols limit rows).run h = .ret (.raised .typeError) := rfl

/-- With the engine ready, `_bcw_collect` gets to the unbound variable. -/
theorem collect_raises {h : Host} {runId : Json} {result : Dict} (hready : h.notReady = none)
    (hresult : h.finished runId = some result) :
    (Call.collect runId).run h = .ret (.raised (.unboundLocalError (lit "rows"))) := by
  rw [Call.run, Call.args, bindParams]
  dsimp only
  rw [bcwImport, hready]
  dsimp only
  rw [hresult]
  rfl

theorem collect_refuses {h : Host} {error : Str} (hready : h.notReady = some error)
    (runId : Json) :
    (Call.collect runId).run h = .ret (.refused error []) := by
  rw [Call.run, Call.args, bindParams]
  dsimp only
  rw [bcwImport, hready]

/-- **When an import does what it is to do.** For a finished run, only a call of `_bcw_collect`
that finds the engine missing, and that had nothing to import. -/
theorem endToEnd_iff {h : Host} {call : Call} {result : Dict} {catalog : Json}
    (hresult : h.finished call.runId = some result) :
    EndToEnd h call result catalog ↔
      (∃ runId, call = .collect runId) ∧ h.notReady.isSome ∧
        ¬call.Accepts h result (some catalog) := by
  constructor
  · intro hend
    cases call with
    | http runId protocols limit rows =>
      exact absurd hend (not_endToEnd_of_raised (http_raises h runId protocols limit rows))
    | collect runId =>
      cases hready : h.notReady with
      | none => exact absurd hend (not_endToEnd_of_raised (collect_raises hready hresult))
      | some error =>
        refine ⟨⟨runId, rfl⟩, rfl, ?_⟩
        rintro ⟨entries, skipped, hplanned, hne⟩
        obtain ⟨⟨report, hok⟩, _⟩ := hend.accepted entries skipped hplanned hne
        rw [collect_refuses hready, Task.result] at hok
        cases hok
  · rintro ⟨⟨runId, rfl⟩, hready, hnone⟩
    obtain ⟨error, herror⟩ := Option.isSome_iff_exists.mp hready
    have hrun := collect_refuses herror runId
    refine ⟨fun entries skipped hplanned hne => ?_, fun _ => ?_⟩
    · exact absurd ⟨entries, skipped, hplanned, hne⟩ hnone
    · rw [hrun]
      exact ⟨⟨error, [], rfl⟩, rfl⟩

omit [Tables]

/-- A finished run with the given rows. -/
def runWith (rows : List Json) : Dict :=
  [(lit "ok", .bool true), (lit "domains", .arr [.obj [(lit "working", .arr rows)]])]

/-- A panel on which every run has the given result. -/
def hostWith (notReady : Option Str) (result : Dict) : Host :=
  ⟨notReady, lit "/state/bcw/runs", lit "/state/bcw", fun _ => some (.obj result), ⟨5, []⟩, []⟩

/-- A run whose only row has an option that is not allowed. -/
def refusedRow : Dict := runWith [.obj [(lit "args", .str (lit "--qnum=1 --lua-desync=fake"))]]

/-- The engine is missing, and the row would be refused. -/
theorem endToEnd_iff_refusedRow : letI := Tables.ascii
    let host := hostWith (some (lit "harness missing: wz-bcw.sh")) refusedRow
    let call := Call.collect (.str (lit "20240101-000000"))
    (∃ row, call.planned host refusedRow (some emptyCatalog) = .ok ([], [row])) ∧
      EndToEnd host call refusedRow emptyCatalog := by
  let _ := Tables.ascii
  have hplanned : ∃ row, (Call.collect (.str (lit "20240101-000000"))).planned
      (hostWith (some (lit "harness missing: wz-bcw.sh")) refusedRow) refusedRow
      (some emptyCatalog) = .ok ([], [row]) := ⟨_, rfl⟩
  refine ⟨hplanned, (endToEnd_iff rfl).mpr ⟨⟨_, rfl⟩, rfl, ?_⟩⟩
  rintro ⟨entries, skipped, haccepted, hne⟩
  obtain ⟨row, hrow⟩ := hplanned
  rw [hrow] at haccepted
  cases haccepted
  exact hne rfl

/-- The import of a run with one usable row raises, from the HTTP route and from
`_bcw_collect`. -/
theorem usable_run_not_imported : letI := Tables.ascii
    let result := runWith [.obj [(lit "args", .str (lit "--payload=tls_client_hello"))]]
    let host := hostWith none result
    let runId := .str (lit "20240101-000000")
    ((Call.http runId .null .null .null).Accepts host result (some emptyCatalog) ∧
      ¬EndToEnd host (.http runId .null .null .null) result emptyCatalog) ∧
    ((Call.collect runId).Accepts host result (some emptyCatalog) ∧
      ¬EndToEnd host (.collect runId) result emptyCatalog) := by
  let _ := Tables.ascii
  refine ⟨⟨⟨_, _, rfl, List.cons_ne_nil _ _⟩, ?_⟩, ⟨⟨_, _, rfl, List.cons_ne_nil _ _⟩, ?_⟩⟩
  · exact not_endToEnd_of_raised (http_raises _ _ _ _ _)
  · exact not_endToEnd_of_raised (collect_raises rfl rfl)

end WebZapret.Selection
