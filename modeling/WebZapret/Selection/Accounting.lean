import WebZapret.Catalog.Accounting
import WebZapret.Selection.Harness

/-!
# The accounts of `plan_import`

On rows of `parse_check_report`, `plan_import` does not raise, and every row is accounted for: it becomes
one entry or one skipped row, in order. Ids and texts are distinct and new, and the cap holds.
-/

namespace WebZapret.Selection

open Py Failing Catalog

variable [Tables]

/-- What a row of a domain becomes: an entry with its checked text, or a skipped row. -/
def Accounts (env : PlanEnv) (row : Dict × Dict) : Fate → Prop
  | .taken entry => ∃ id desc args,
      validateArgs (row.2.get (lit "args") (.str [])) = .ok args ∧
      entry = planEntry env id desc args (rowProtocol row.2) (domainText row.1) row.1 row.2
  | .skipped s => ∃ args reason, s = skippedRow (domainText row.1) (rowProtocol row.2) args reason

/-- The accounts of an import into a catalog. -/
structure Accounting (env : PlanEnv) (existing : List Dict) (rows : List (Dict × Dict))
    (entries skipped : List Dict) : Prop where
  /-- every row, in order, is one entry or one skipped row; one that is refused for the cap comes after
  as many entries for its protocol as the cap allows -/
  fates : ∃ fates, List.Forall₂ (Accounts env) rows fates ∧
    entries = fates.filterMap Fate.entry ∧ skipped = fates.filterMap Fate.skip ∧
    ∀ before s after, fates = before ++ .skipped s :: after →
      s.get0 (lit "reason") = .str (capReason env.limit) →
      env.limit ≤ countOf (protocolOf s) (before.filterMap Fate.entry)
  ids_nodup : (entries.map idText).Nodup
  ids_new : ∀ e ∈ entries, ∀ s ∈ existing, s.get0 (lit "id") ≠ .str (idText e)
  args_nodup : (entries.map argsOf).Nodup
  args_new : ∀ e ∈ entries, ∀ s ∈ existing, ∀ key ∈ [lit "nfqws_opt", lit "lua_opt"], ∀ text,
    s.get0 key = .str text → argsOf e ≠ Str.join (lit " ") text.words
  cap : 0 < env.limit → ∀ protocol, countOf protocol entries ≤ env.limit

/-! ## Rows of a check report do not raise -/

theorem entryDesc_ok (r : CheckRow) (domain : Str) : ∃ desc, entryDesc r.members domain = .ok desc := by
  have hshare : ∃ share, shareText (Dict.get0 r.members (lit "median_share")) = .ok share := by
    have hget : Dict.get0 r.members (lit "median_share") = optJson Json.float r.medianShare := rfl
    rw [hget]
    cases r.medianShare with
    | none => exact ⟨_, rfl⟩
    | some share => exact ⟨_, rfl⟩
  have hlatency : ∃ latency, ((Dict.get r.members (lit "median_latency_ms") (.int 0)).or
      (.int 0)).toInt = .ok latency := by
    have hget : Dict.get r.members (lit "median_latency_ms") (.int 0) = .int r.medianLatencyMs := rfl
    rw [hget, Json.or]
    split
    · exact ⟨_, rfl⟩
    · exact ⟨_, rfl⟩
  have hadmits : ∃ admits, ((Dict.get0 r.members (lit "admits")).or (.arr [])).joinComma =
      .ok admits := by
    have hget : Dict.get0 r.members (lit "admits") = Json.texts r.admits := rfl
    rw [hget, Json.or]
    split
    · exact ⟨_, joinComma_texts r.admits⟩
    · exact ⟨_, joinComma_texts []⟩
  have hauthenticity : ∃ text, authenticityText r.members = .ok text := by
    obtain ⟨admits, hadmits⟩ := hadmits
    by_cases hempty : admits = []
    · exact ⟨_, bind_eq_ok.mpr ⟨admits, hadmits, if_pos hempty⟩⟩
    · exact ⟨_, bind_eq_ok.mpr ⟨admits, hadmits, if_neg hempty⟩⟩
  obtain ⟨share, hshare⟩ := hshare
  obtain ⟨latency, hlatency⟩ := hlatency
  obtain ⟨text, hauthenticity⟩ := hauthenticity
  exact ⟨_, bind_eq_ok.mpr ⟨share, hshare, bind_eq_ok.mpr ⟨latency, hlatency,
    bind_eq_ok.mpr ⟨text, hauthenticity, bind_eq_ok.mpr ⟨_, rfl, bind_eq_ok.mpr ⟨_, rfl, rfl⟩⟩⟩⟩⟩⟩

/-- The loop handles every row of a check report. -/
theorem checkRow_handles (env : PlanEnv) (p : Plan) (dom : Dict) (r : CheckRow) :
    ∃ fate q, Handles env p dom r.members fate q := by
  have hargs : Dict.get r.members (lit "args") (.str []) = .str r.args := rfl
  cases hvalid : validateArgs (.str r.args) with
  | error e =>
    obtain ⟨reason, rfl, _⟩ := validateArgs_error hvalid
    exact ⟨_, _, .unusable (hargs ▸ hvalid) rfl⟩
  | ok args =>
    by_cases hknown : args ∈ p.knownArgs
    · exact ⟨_, _, .known (hargs ▸ hvalid) hknown rfl⟩
    · by_cases hcap : env.limit ≠ 0 ∧ p.count (rowProtocol r.members) ≥ env.limit
      · exact ⟨_, _, .capped (hargs ▸ hvalid) hknown hcap rfl⟩
      · obtain ⟨desc, hdesc⟩ := entryDesc_ok r (domainText dom)
        exact ⟨_, _, .taken (hargs ▸ hvalid) hknown hcap hdesc rfl⟩

theorem checkRows_handled (env : PlanEnv) (p : Plan) (rows : List (Dict × CheckRow)) :
    ∃ fates q, Handled env p (rows.map fun row => (row.1, row.2.members)) fates q := by
  induction rows generalizing p with
  | nil => exact ⟨[], p, .nil⟩
  | cons row rows ih =>
    obtain ⟨fate, q, hrow⟩ := checkRow_handles env p row.1 row.2
    obtain ⟨fates, r, hrows⟩ := ih q
    exact ⟨fate :: fates, r, .cons hrow hrows⟩

/-! ## The accounts -/

theorem Handles.accounts {env : PlanEnv} {p q : Plan} {dom row : Dict} {fate : Fate}
    (h : Handles env p dom row fate q) : Accounts env (dom, row) fate := by
  cases h with
  | unusable hargs hs => exact ⟨_, _, hs⟩
  | known hargs hknown hs => exact ⟨_, _, hs⟩
  | capped hargs hnew hcap hs => exact ⟨_, _, hs⟩
  | taken hargs hnew hcap hdesc hentry => exact ⟨_, _, _, hargs, hentry⟩

theorem Handled.accounts {env : PlanEnv} {p q : Plan} {rows : List (Dict × Dict)}
    {fates : List Fate} (h : Handled env p rows fates q) :
    List.Forall₂ (Accounts env) rows fates := by
  induction h with
  | nil => exact .nil
  | cons hrow _ ih => exact .cons (Handles.accounts hrow) ih

/-- A row that is refused for the cap. -/
theorem Handled.capped {env : PlanEnv} {p q : Plan} {rows : List (Dict × Dict)}
    {before after : List Fate} {s : Dict}
    (h : Handled env p rows (before ++ .skipped s :: after) q)
    (hreason : s.get0 (lit "reason") = .str (capReason env.limit)) :
    env.limit ≤ p.count (protocolOf s) + countOf (protocolOf s) (before.filterMap Fate.entry) := by
  induction before generalizing p rows with
  | nil =>
    cases h with
    | cons hrow hrows =>
      rw [List.filterMap_nil, countOf_nil, add_zero]
      exact hrow.capped_count hreason
  | cons fate before ih =>
    cases h with
    | cons hrow hrows =>
      have hrest := ih hrows
      rw [hrow.adds.count, add_assoc, ← countOf_append, ← List.filterMap_append] at hrest
      exact hrest

/-- The accounts of the rows that were handled. -/
theorem Handled.accounting {env : PlanEnv} {existing : List Dict} {rows : List (Dict × Dict)}
    {fates : List Fate} {q : Plan} (h : Handled env (.start existing) rows fates q) :
    Accounting env existing rows q.entries q.skipped := by
  have hadds := h.adds
  have hentries : q.entries = fates.filterMap Fate.entry := hadds.entries
  have hids := h.distinct (fun _ _ _ hadd => hadd.ids) fun _ _ _ _ _ hrow => hrow.id_new
  have hargs := h.distinct (fun _ _ _ hadd => hadd.args) fun _ _ _ _ _ hrow => hrow.args_new
  have hzero : ∀ protocol, (Plan.start existing).count protocol = 0 := fun _ => rfl
  constructor
  · refine ⟨fates, Handled.accounts h, hentries, hadds.skipped, ?_⟩
    intro before s after heq hreason
    subst heq
    have hcapped := Handled.capped h hreason
    rwa [hzero, zero_add] at hcapped
  · rw [hentries]
    exact hids.1
  · intro e he s hs hid
    have htext : idText s = idText e := by rw [idText, hid, Json.text]
    refine h.id_other hs ?_ (htext ▸ List.mem_map_of_mem he)
    by_cases hnil : idText e = []
    · exact .inr (by simp [htext, hnil])
    · exact .inl (by simpa [hid, Json.truthy] using hnil)
  · rw [hentries]
    exact hargs.1
  · intro e he s hs key hkey text htext heq
    rw [hentries] at he
    have hne := h.forall_taken (fun _ _ _ _ _ hrow => hrow.args_ne_nil) e he
    refine hargs.2 _ (List.mem_map_of_mem he) (List.mem_flatMap.mpr ⟨s, hs, ?_⟩)
    have htruthy : (s.get0 key).truthy := by
      rw [htext]
      refine decide_eq_true fun hnil => ?_
      subst hnil
      exact hne heq
    refine List.mem_filterMap.mpr ⟨key, hkey, ?_⟩
    rw [if_pos htruthy, htext, heq]
    rfl
  · intro hlimit protocol
    have hcount := h.count_le hlimit (fun _ => by rw [hzero]; exact hlimit.le) protocol
    rwa [hadds.count, hzero, zero_add, ← hentries] at hcount

/-- **Every row is accounted for.** -/
theorem planImport_accounting {result : Json} {rows : List (Dict × CheckRow)}
    (hrows : resultRows result = .ok (rows.map fun row => (row.1, row.2.members)))
    (settings : ImportSettings) (existing : List Dict) (runId now : Str) :
    ∃ entries skipped, planImport result settings (.arr (existing.map .obj)) runId now =
        .ok (entries, skipped) ∧
      Accounting (settings.env runId now) existing (rows.map fun row => (row.1, row.2.members))
        entries skipped := by
  obtain ⟨fates, q, hhandled⟩ := checkRows_handled (settings.env runId now) (.start existing) rows
  refine ⟨q.entries, q.skipped, ?_, Handled.accounting hhandled⟩
  exact planImport_eq_ok.mpr ⟨existing, _, fates, q, entriesIn_or (entriesIn_arr existing), hrows,
    hhandled, rfl, rfl⟩

omit [Tables]

/-- A working row of a check. -/
def workingRow (args : Str) : CheckRow where
  protocol := lit "HTTPS/TLS1.2"
  args := args
  coverage := 1
  working := true
  successRate := .fin 1
  passesOk := 3
  passesTotal := 3
  medianShare := none
  medianLatencyMs := 120
  medianSpeedKbps := .fin 0
  longestSilenceMs := .null
  observed := []
  admits := [lit "Direct"]

theorem planImport_accounting_twice : letI := Tables.ascii
    ∃ rows entries skipped,
      planImport (.obj (runWith [(workingRow (lit "--lua-desync=fake")).json,
        (workingRow (lit "--lua-desync=fake")).json])) ⟨1, []⟩ (.arr ([].map .obj)) [] [] =
        .ok (entries, skipped) ∧
      Accounting (ImportSettings.env ⟨1, []⟩ [] []) [] rows entries skipped := by
  let _ := Tables.ascii
  let row := workingRow (lit "--lua-desync=fake")
  let dom : Dict := [(lit "working", .arr [row.json, row.json])]
  have hrows : resultRows (.obj (runWith [row.json, row.json])) =
      .ok ([(dom, row), (dom, row)].map fun row => (row.1, row.2.members)) := rfl
  exact ⟨_, planImport_accounting hrows ⟨1, []⟩ [] [] []⟩

end WebZapret.Selection
