import WebZapret.Catalog.Stored
import Mathlib.Data.List.Sort

/-!
# Importing test results

`import_strategy_from_json` of `panel.py`: the strategies of one tested domain, best first, are
put into the catalog under ids made from the domain and the date. Whatever raises on the way is
caught, and nothing is written.
-/

namespace WebZapret.Catalog

open Py Failing

/-- `time.time()` and `time.strftime(...)`, and what `sorted` does with keys that are not all
numbers: it fails, or puts the rows into some order. -/
structure ImportEnv where
  epoch : Int
  now : Str
  sortOther : (keyed : List ((Json × Json) × Dict)) →
    Result { rows : List Dict // rows.Perm (keyed.map (·.2)) }

/-- The start of the epoch, and `sorted` fails on keys that are not numbers. -/
def ImportEnv.start : ImportEnv where
  epoch := 0
  now := lit "1970-01-01 00:00:00"
  sortOther _ := .error .typeError

/-! ## Ranking -/

/-- `(-s.get("success_rate", 0), s.get("median_latency_ms", 9999))` -/
def rankKey (row : Dict) : Result (Json × Json) := do
  let rate ← (row.get (lit "success_rate") (.int 0)).neg
  return (rate, row.get (lit "median_latency_ms") (.int 9999))

/-- The two numbers of a key. -/
def keyNumbers (keyed : (Json × Json) × Dict) : Option ((Flt × Flt) × Dict) := do
  return ((← keyed.1.1.number, ← keyed.1.2.number), keyed.2)

/-- The order of the keys. -/
def RanksBefore (a b : (Flt × Flt) × Dict) : Prop :=
  ¬b.1.1.le a.1.1 ∨ a.1.1.le b.1.1 ∧ a.1.2.le b.1.2

instance : DecidableRel RanksBefore := fun a b => by
  unfold RanksBefore
  infer_instance

/-- `sorted(strategies_list, key=...)`, which is stable; one row is not compared with anything. -/
def ranked (env : ImportEnv) (strategiesList : List Json) : Result (List Dict) := do
  let keyed ← strategiesList.mapM fun s => do
    let row ← s.dict
    return (← rankKey row, row)
  if keyed.length ≤ 1 then return keyed.map (·.2)
  match keyed.mapM keyNumbers with
  | some numbered => return (numbered.insertionSort RanksBefore).map (·.2)
  | none => return (← env.sortOther keyed).1

/-- Sorting loses no rows. -/
theorem ranked_ne_nil {env : ImportEnv} {strategiesList : List Json} {rows : List Dict}
    (h : ranked env strategiesList = .ok rows) (hne : strategiesList ≠ []) : rows ≠ [] := by
  unfold ranked at h
  obtain ⟨keyed, hkeyed, hrest⟩ := bind_eq_ok.mp h
  have hlength := length_of_mapM hkeyed
  have hkeyedNe : keyed ≠ [] := by
    rintro rfl
    exact hne (List.length_eq_zero_iff.mp hlength.symm)
  split at hrest
  · cases hrest
    simpa using hkeyedNe
  · split at hrest
    · rename_i numbered hnumbered
      cases hrest
      have hnumberedNe : numbered ≠ [] := by
        rintro rfl
        cases keyed with
        | nil => exact hkeyedNe rfl
        | cons k keyed =>
          rw [List.mapM_cons] at hnumbered
          simp [Option.bind_eq_some_iff] at hnumbered
      rw [Ne, List.map_eq_nil_iff, ← List.length_eq_zero_iff, List.length_insertionSort,
        List.length_eq_zero_iff]
      exact hnumberedNe
    · obtain ⟨sorted, _, hsorted⟩ := bind_eq_ok.mp hrest
      cases hsorted
      have hperm := sorted.2.length_eq
      intro hnil
      rw [hnil, List.length_nil, List.length_map] at hperm
      exact hkeyedNe (List.length_eq_zero_iff.mp hperm.symm)

/-! ## Entries -/

variable [Tables]

/-- What the loop takes from the head of the data. -/
structure Batch where
  domain : Str
  idBase : Str
  rows : List Dict

/-- `timestamp[:10].replace("-", "") if timestamp else str(int(time.time()))` -/
def dateSlug (env : ImportEnv) (timestamp : Json) : Result Str :=
  if timestamp.truthy then
    match timestamp with
    | .str s => .ok ((s.take 10).filter (· ≠ 45))
    | .arr _ => .error .attributeError
    | _ => .error .typeError
  else .ok (intStr env.epoch)

/-- The domain, which must have a `lower`. -/
def importDomain (data : Dict) : Result Str :=
  match data.get (lit "domain") (.str (lit "custom")) with
  | .str s => .ok s
  | _ => .error .attributeError

/-- The head of `import_strategy_from_json`; `none` when there are no strategies. -/
def importBatch (env : ImportEnv) (data : Json) : Result (Option Batch) := do
  let data ← data.dict
  let strategiesList := data.get (lit "strategies") (.arr [])
  if ¬strategiesList.truthy then return none
  let rows ← ranked env (← strategiesList.iter)
  let domain ← importDomain data
  let domainSlug := ((Tables.lower domain).filter fun c => isLower c || isAsciiDigit c).take 20
  let date ← dateSlug env (data.get (lit "timestamp") (.str []))
  return some ⟨domain, lit "custom_" ++ domainSlug ++ lit "_" ++ date, rows⟩

/-- `no_reasm` -/
def NoReasm (tokens : List Str) : Prop :=
  (∃ t ∈ tokens, t.Contains (lit "tls_client_hello")) ∨ AnyStarts tokens (lit "--filter-tcp=443")

instance (tokens : List Str) : Decidable (NoReasm tokens) := by
  unfold NoReasm
  infer_instance

/-- The args of a row. -/
def importArgs (row : Dict) : Result Str :=
  match row.get (lit "args") (.str []) with
  | .str s =>
    if s.strip = [] then .error (.valueError (lit "Strategy args must be a non-empty string"))
    else .ok s
  | _ => .error (.valueError (lit "Strategy args must be a non-empty string"))

/-- `new_strategy` -/
def importEntry (env : ImportEnv) (domain id : Str) (row : Dict) : Result Dict := do
  let protocol := row.get (lit "protocol") (.str (lit "HTTPS/TLS1.2"))
  let args ← importArgs row
  let tokens ← Shlex.split args
  let latency ← (row.get (lit "median_latency_ms") (.int 0)).toInt
  let success ← (row.get (lit "success_rate") (.int 0)).formatPercent 1
  return [(lit "id", .str id),
    (lit "name", .str (lit "Custom: " ++ domain ++ lit " (" ++ protocol.text ++ lit ")")),
    (lit "desc", .str (lit "Imported from " ++ domain ++ lit " test results (" ++ success ++
      lit "% success, " ++ intStr latency ++ lit "ms latency)")),
    (lit "nfqws_opt", .str args),
    (lit "lua_opt", .str (if args.Contains (lit "--lua-desync=") then args else [])),
    (lit "protocol", protocol),
    (lit "imported", .bool true),
    (lit "import_time", .str env.now),
    (lit "import_original_args", .str args)] ++
    (if NoReasm tokens then [(lit "no_reasm", .bool true)] else [])

/-! ## The loop -/

/-- `id_base if idx == 0 else "%s_%d" % (id_base, idx + 1)` -/
def importId (idBase : Str) (idx : Nat) : Str :=
  if idx = 0 then idBase else idBase ++ lit "_" ++ intStr (idx + 1 : Nat)

/-- The body of the loop: the strategies of the catalog, and `imported`. -/
def importRow (env : ImportEnv) (batch : Batch) (acc : Json × List Dict) (row : Dict × Nat) :
    Result (Json × List Dict) := do
  let id := importId batch.idBase row.2
  let entry ← importEntry env batch.domain id row.1
  let kept ← withoutId acc.1 id
  return (.arr ((kept ++ [entry]).map .obj), acc.2 ++ [entry])

/-- The catalog with the batch, and `imported`. -/
def addBatch (env : ImportEnv) (batch : Batch) (stored : Stored) : Result (Json × List Dict) := do
  let catalog ← (stored.getD emptyCatalog).dict
  let data := catalog.setDefault (lit "strategies") (.arr [])
  let (strategies, imported) ← batch.rows.zipIdx.foldlM (importRow env batch)
    (data.get0 (lit "strategies"), [])
  return (.obj (data.set (lit "strategies") strategies), imported)

/-- `import_strategy_from_json` -/
def importStrategyFromJson (env : ImportEnv) (data : Json) : Task Stored Answer :=
  match importBatch env data with
  | .error e => .ret (.failed e)
  | .ok none => .ret (.refused (lit "No strategies found in import data") [])
  | .ok (some batch) => .read fun stored =>
    match addBatch env batch stored with
    | .error e => .ret (.failed e)
    | .ok (catalog, imported) => .write (some catalog) fun saved => .ret <|
        if saved then .ok (.imported imported)
        else .refused (lit "Failed to write strategies file") []

/-! ## What a batch has -/

/-- A batch has at least one row. -/
theorem importBatch_rows {env : ImportEnv} {data : Json} {batch : Batch}
    (h : importBatch env data = .ok (some batch)) : batch.rows.zipIdx ≠ [] := by
  unfold importBatch at h
  obtain ⟨members, _, hdata⟩ := bind_eq_ok.mp h
  by_cases htruthy : (members.get (lit "strategies") (.arr [])).truthy
  · rw [if_neg (not_not_intro htruthy)] at hdata
    obtain ⟨items, hitems, hranked⟩ := bind_eq_ok.mp hdata
    obtain ⟨rows, hrows, hdomain⟩ := bind_eq_ok.mp hranked
    obtain ⟨domain, _, hdate⟩ := bind_eq_ok.mp hdomain
    obtain ⟨date, _, hret⟩ := bind_eq_ok.mp hdate
    cases hret
    have hne := ranked_ne_nil hrows (Json.iter_ne_nil htruthy hitems)
    rw [Ne, List.zipIdx_eq_nil_iff]
    exact hne
  · rw [if_pos htruthy] at hdata
    cases hdata

/-- An entry has the id that it was made for. -/
theorem importEntry_lookup {env : ImportEnv} {domain id : Str} {row entry : Dict}
    (h : importEntry env domain id row = .ok entry) :
    entry.lookup (lit "id") = some (.str id) := by
  unfold importEntry at h
  obtain ⟨text, _, h₁⟩ := bind_eq_ok.mp h
  obtain ⟨ts, _, h₂⟩ := bind_eq_ok.mp h₁
  obtain ⟨latency, _, h₃⟩ := bind_eq_ok.mp h₂
  obtain ⟨success, _, h₄⟩ := bind_eq_ok.mp h₃
  cases h₄
  rfl

end WebZapret.Catalog
