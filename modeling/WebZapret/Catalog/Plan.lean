import WebZapret.Catalog.Render
import WebZapret.Lib.Failing

/-!
# Planning an import

`blockcheck.py`: the selected rows of a finished run become catalog entries (`plan_import`), which
are merged into the catalog (`merge_catalog`). A row whose text is unusable, already known or over
the cap of its protocol is skipped with a reason; a row that is not shaped like one of
`parse_check_report` can raise.
-/

namespace WebZapret.Catalog

open Py Failing

variable [Tables]

/-! ## Texts -/

/-- `slug` -/
def slug (text : Str) (limit : Nat) : Str :=
  let s := (((Tables.lower text).squash fun c => isLower c || isAsciiDigit c).stripBy (· == 95)).take
    limit
  if s = [] then lit "x" else s

/-- `FORBIDDEN_ARGS` -/
def forbiddenArgs : List Str :=
  [lit "--qnum", lit "--fwmark", lit "--daemon", lit "--pidfile", lit "--intercept",
    lit "--dry-run", lit "--version", lit "--chdir", lit "--uid", lit "--user", lit "--lua-init",
    lit "--writable"]

/-- The check of one token of `validate_args`. -/
def checkToken (token : Str) : Result Unit :=
  if 0 ∈ token ∨ ¬token.StartsWith (lit "--") then
    .error (.valueError (lit "invalid strategy argument: " ++ Json.reprStr token))
  else if token.key ∈ forbiddenArgs then
    .error (.valueError (lit "forbidden strategy argument: " ++ token.key))
  else .ok ()

/-- `validate_args` -/
def validateArgs (text : Json) : Result Str := do
  let tokens ← match splitText (text.or (.str [])) with
    | .error (.valueError e) => .error (.valueError (lit "unparsable strategy args: " ++ e))
    | r => r
  if tokens = [] then throw (.valueError (lit "empty strategy args"))
  tokens.forM checkToken
  return Str.join (lit " ") tokens

/-- What `_needs_no_reasm` returns is true; otherwise it falls off its end and returns `None`. -/
def needsNoReasm (args : Str) : Prop :=
  args.Contains (lit "--filter-tcp=443") ∨ args.Contains (lit "--payload=tls_client_hello")

instance (args : Str) : Decidable (needsNoReasm args) := by
  unfold needsNoReasm
  infer_instance

/-! ## The loop -/

/-- The settings that `plan_import` reads. -/
structure ImportSettings where
  maxImport : Int
  importPrefix : Str

/-- The inputs that do not change during the loop: the cap, the slug of the prefix, the run's id
and the time. -/
structure PlanEnv where
  limit : Int
  idPrefix : Str
  runId : Str
  now : Str

/-- The variables of the loop. -/
structure Plan where
  entries : List Dict
  skipped : List Dict
  perProtocol : List (Str × Int)
  knownArgs : List Str
  knownIds : List Str

/-- `stem`, `stem_2`, `stem_3`, ... -/
def candidateId (stem : Str) (counter : Nat) : Str :=
  if counter ≤ 1 then stem else stem ++ lit "_" ++ intStr counter

/-- `while strategy_id in known_ids: counter += 1 ...` -/
def freshIdFrom (known : List Str) (stem : Str) : Nat → Nat → Str
  | 0, counter => candidateId stem counter
  | fuel + 1, counter =>
    if candidateId stem counter ∈ known then freshIdFrom known stem fuel (counter + 1)
    else candidateId stem counter

/-- The first candidate that is not known; it is among the first `known.length + 1`. -/
def freshId (known : List Str) (stem : Str) : Str := freshIdFrom known stem known.length 1

/-- A skipped row. -/
def skippedRow (domain protocol args reason : Str) : Dict :=
  [(lit "domain", .str domain), (lit "protocol", .str protocol), (lit "args", .str args),
    (lit "reason", .str reason)]

/-- `"%.0f%%" % (shares * 100)` or `n/a` -/
def shareText : Json → Result Str
  | .null => .ok (lit "n/a")
  | shares => (shares.formatPercent 0).map (· ++ lit "%")

/-- `",".join(row.get("admits") or []) or row.get("observed", "n/a")` -/
def authenticityText (row : Dict) : Result Str := do
  let admits ← ((row.get0 (lit "admits")).or (.arr [])).joinComma
  if admits = [] then return (row.get (lit "observed") (.str (lit "n/a"))).text
  return admits

/-- The description of an entry. -/
def entryDesc (row : Dict) (domain : Str) : Result Str := do
  let share ← shareText (row.get0 (lit "median_share"))
  let latency ← ((row.get (lit "median_latency_ms") (.int 0)).or (.int 0)).toInt
  let authenticity ← authenticityText row
  let passesOk ← (row.get (lit "passes_ok") (.int 0)).formatInt
  let passesTotal ← (row.get (lit "passes_total") (.int 0)).formatInt
  return lit "Selected by blockcheckw: " ++ passesOk ++ lit "/" ++ passesTotal ++
    lit " full passes, " ++ share ++ lit " of the reference volume, " ++ intStr latency ++
    lit " ms, authenticity: " ++ authenticity ++
    (if domain = [] then [] else lit " (domain: " ++ domain ++ lit ")")

/-- The measurements that an entry keeps. -/
def entryBcw (env : PlanEnv) (dom row : Dict) (domain : Str) : Json :=
  .obj [(lit "domain", .str domain),
    (lit "block_type", dom.get (lit "block_type") (.str [])),
    (lit "run_id", .str env.runId),
    (lit "passes_ok", row.get (lit "passes_ok") (.int 0)),
    (lit "passes_total", row.get (lit "passes_total") (.int 0)),
    (lit "median_share", row.get0 (lit "median_share")),
    (lit "median_latency_ms", row.get (lit "median_latency_ms") (.int 0)),
    (lit "success_rate", row.get (lit "success_rate") (.float (.fin 0))),
    (lit "admits", (row.get0 (lit "admits")).or (.arr [])),
    (lit "observed", row.get (lit "observed") (.str []))]

/-- The entry of an accepted row. -/
def planEntry (env : PlanEnv) (id desc args protocol domain : Str) (dom row : Dict) : Dict :=
  [(lit "id", .str id),
    (lit "name", .str (lit "blockcheckw: " ++ (if domain = [] then lit "domain" else domain) ++
      lit " (" ++ protocol ++ lit ")")),
    (lit "desc", .str desc),
    (lit "nfqws_opt", .str args),
    (lit "lua_opt", .str (if args.Contains (lit "--lua-desync=") then args else [])),
    (lit "protocol", .str protocol),
    (lit "imported", .bool true),
    (lit "import_time", .str env.now),
    (lit "import_original_args", .str args),
    (lit "bcw", entryBcw env dom row domain)] ++
  (if needsNoReasm args then [(lit "no_reasm", .bool true)] else [])

/-- `per_protocol.get(protocol, 0)` -/
def Plan.count (p : Plan) (protocol : Str) : Int := (p.perProtocol.lookup protocol).getD 0

/-- `skipped.append(...)` -/
def Plan.skip (p : Plan) (row : Dict) : Plan := { p with skipped := p.skipped ++ [row] }

/-- Take a row whose text is usable and new. -/
def Plan.accept (env : PlanEnv) (p : Plan) (args protocol domain : Str) (dom row : Dict) :
    Result Plan := do
  let stem := env.idPrefix ++ lit "_" ++ slug domain 20 ++ lit "_" ++ slug protocol 16
  let id := freshId p.knownIds stem
  let desc ← entryDesc row domain
  return { p with
    entries := p.entries ++ [planEntry env id desc args protocol domain dom row]
    knownIds := p.knownIds ++ [id]
    knownArgs := p.knownArgs ++ [args]
    perProtocol := (protocol, p.count protocol + 1) :: p.perProtocol }

/-- The protocol of a row, `str(row.get("protocol") or "HTTPS/TLS1.2")`. -/
def rowProtocol (row : Dict) : Str :=
  ((row.get0 (lit "protocol")).or (.str (lit "HTTPS/TLS1.2"))).text

/-- The body of the inner loop of `plan_import`. -/
def Plan.row (env : PlanEnv) (dom : Dict) (domain : Str) (p : Plan) (row : Json) :
    Result Plan := do
  let row ← row.dict
  let protocol := rowProtocol row
  match validateArgs (row.get (lit "args") (.str [])) with
  | .error (.valueError reason) =>
    return p.skip (skippedRow domain protocol (row.get (lit "args") (.str [])).text reason)
  | .error e => throw e
  | .ok args =>
    if args ∈ p.knownArgs then
      return p.skip (skippedRow domain protocol args (lit "already in the catalog"))
    if env.limit ≠ 0 ∧ p.count protocol ≥ env.limit then
      return p.skip (skippedRow domain protocol args
        (lit "over max_import=" ++ intStr env.limit ++ lit " for this protocol"))
    p.accept env args protocol domain dom row

/-- The body of the outer loop. -/
def Plan.domain (env : PlanEnv) (p : Plan) (dom : Json) : Result Plan := do
  let dom ← dom.dict
  let domain := (dom.get (lit "domain") (.str [])).text
  let rows ← ((dom.get0 (lit "working")).or (.arr [])).iter
  rows.foldlM (Plan.row env dom domain) p

/-- The texts of a catalog entry: `known_args` gets its options, words joined by blanks. -/
def entryArgs (entry : Dict) : List Str :=
  [lit "nfqws_opt", lit "lua_opt"].filterMap fun key =>
    let opt := entry.get0 key
    if opt.truthy then some (Str.join (lit " ") opt.text.words) else none

/-- What `known_ids` gets from a catalog entry. -/
def entryIds (entry : Dict) : List Str :=
  let id := entry.get0 (lit "id")
  if id.truthy then [id.text] else []

/-- `(result.get("domains") if isinstance(result, dict) else None) or []` -/
def resultDomains : Json → Result (List Json)
  | .obj result => ((Dict.get0 result (lit "domains")).or (.arr [])).iter
  | _ => .ok []

/-- The dicts of a list of strategies. -/
def entriesIn (strategies : Json) : Result (List Dict) := do
  (← strategies.iter).mapM Json.dict

/-- `plan_import`: the entries and the skipped rows. -/
def planImport (result : Json) (settings : ImportSettings) (existing : Json) (runId now : Str) :
    Result (List Dict × List Dict) := do
  let importPrefix := if settings.importPrefix = [] then lit "bcw" else settings.importPrefix
  let env : PlanEnv := ⟨settings.maxImport, slug importPrefix 16, runId, now⟩
  let known ← entriesIn (existing.or (.arr []))
  let p ← (← resultDomains result).foldlM (Plan.domain env)
    ⟨[], [], [], known.flatMap entryArgs, known.flatMap entryIds⟩
  return (p.entries, p.skipped)

/-! ## What a row does -/

/-- A row is skipped, or taken when its text is valid, new and under the cap. -/
theorem Plan.row_cases {env : PlanEnv} {dom : Dict} {domain : Str} {p p' : Plan} {row : Json}
    (h : p.row env dom domain row = .ok p') :
    (∃ skipped, p' = p.skip skipped) ∨
    ∃ r args, row = .obj r ∧ validateArgs (Dict.get r (lit "args") (.str [])) = .ok args ∧
      args ∉ p.knownArgs ∧ ¬(env.limit ≠ 0 ∧ p.count (rowProtocol r) ≥ env.limit) ∧
      p.accept env args (rowProtocol r) domain dom r = .ok p' := by
  unfold Plan.row at h
  obtain ⟨r, hr, h⟩ := bind_eq_ok.mp h
  have hrow : row = .obj r := by
    cases row <;> cases hr
    rfl
  dsimp only at h
  split at h
  · cases h
    exact .inl ⟨_, rfl⟩
  · cases h
  · rename_i args hargs
    by_cases hknown : args ∈ p.knownArgs
    · rw [if_pos hknown] at h
      cases h
      exact .inl ⟨_, rfl⟩
    · rw [if_neg hknown] at h
      by_cases hcap : env.limit ≠ 0 ∧ p.count (rowProtocol r) ≥ env.limit
      · rw [if_pos hcap] at h
        cases h
        exact .inl ⟨_, rfl⟩
      · rw [if_neg hcap] at h
        exact .inr ⟨r, args, hrow, hargs, hknown, hcap, h⟩

/-- A taken row adds one entry, under a fresh id. -/
theorem Plan.accept_eq {env : PlanEnv} {p p' : Plan} {args protocol domain : Str} {dom row : Dict}
    (h : p.accept env args protocol domain dom row = .ok p') :
    ∃ desc, p'.entries = p.entries ++ [planEntry env
      (freshId p.knownIds (env.idPrefix ++ lit "_" ++ slug domain 20 ++ lit "_" ++
        slug protocol 16)) desc args protocol domain dom row] := by
  unfold Plan.accept at h
  obtain ⟨desc, _, h⟩ := bind_eq_ok.mp h
  cases h
  exact ⟨desc, rfl⟩

/-- What every row preserves holds after the loop. -/
theorem planImport_induct {result : Json} {settings : ImportSettings} {existing : Json}
    {runId now : Str} {entries skipped : List Dict} (P : Plan → Prop)
    (hstep : ∀ env dom domain p row p', P p → p.row env dom domain row = .ok p' → P p')
    (hstart : ∀ knownArgs knownIds, P ⟨[], [], [], knownArgs, knownIds⟩)
    (h : planImport result settings existing runId now = .ok (entries, skipped)) :
    ∃ p, P p ∧ p.entries = entries ∧ p.skipped = skipped := by
  unfold planImport at h
  obtain ⟨known, _, h⟩ := bind_eq_ok.mp h
  obtain ⟨domains, _, h⟩ := bind_eq_ok.mp h
  obtain ⟨p, hp, h⟩ := bind_eq_ok.mp h
  cases h
  refine ⟨p, foldlM_induct P ?_ (hstart _ _) hp, rfl, rfl⟩
  intro p hp dom _ p' hdom
  unfold Plan.domain at hdom
  obtain ⟨d, _, hdom⟩ := bind_eq_ok.mp hdom
  obtain ⟨rows, _, hdom⟩ := bind_eq_ok.mp hdom
  exact foldlM_induct P (fun p hp row _ p' hrow => hstep _ _ _ _ _ _ hp hrow) hp hdom

/-- An entry that `plan_import` makes is that of some row. -/
def Planned (entry : Dict) : Prop :=
  ∃ env id desc args protocol domain dom row,
    entry = planEntry env id desc args protocol domain dom row

/-- Every entry of `plan_import` is that of some row. -/
theorem planImport_planned {result : Json} {settings : ImportSettings} {existing : Json}
    {runId now : Str} {entries skipped : List Dict}
    (h : planImport result settings existing runId now = .ok (entries, skipped)) :
    ∀ e ∈ entries, Planned e := by
  have hstep : ∀ env dom domain (p : Plan) row p', (∀ e ∈ p.entries, Planned e) →
      p.row env dom domain row = .ok p' → ∀ e ∈ p'.entries, Planned e := by
    intro env dom domain p row p' hp hrow
    rcases Plan.row_cases hrow with ⟨skipped, rfl⟩ | ⟨r, args, _, _, _, _, haccept⟩
    · exact hp
    · obtain ⟨desc, hentries⟩ := Plan.accept_eq haccept
      rw [hentries]
      intro e he
      rcases List.mem_append.mp he with he | he
      · exact hp e he
      · rw [List.mem_singleton.mp he]
        exact ⟨env, _, desc, args, _, domain, dom, r, rfl⟩
  obtain ⟨p, hp, hentries, _⟩ := planImport_induct (fun p => ∀ e ∈ p.entries, Planned e) hstep
    (fun _ _ e he => nomatch he) h
  rwa [hentries] at hp

/-! ## Merging -/

/-- `str(e.get("id"))` -/
def idText (e : Dict) : Str := (e.get0 (lit "id")).text

/-- `merge_catalog` of a catalog that is a dict. -/
def mergeCatalog (catalog : Dict) (entries : List Dict) : Result Dict := do
  let data := catalog.setDefault (lit "strategies") (.arr [])
  let strategies ← entriesIn (data.get0 (lit "strategies"))
  let kept := strategies.filter fun s => idText s ∉ entries.map idText
  return data.set (lit "strategies") (.arr ((kept ++ entries).map .obj))

end WebZapret.Catalog
