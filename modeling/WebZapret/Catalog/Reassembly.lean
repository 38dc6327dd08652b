import WebZapret.Catalog.ImportJson

/-!
# Imported TLS strategies and the reassembly of the ClientHello

`nfqws2` drops every packet of a ClientHello until it has all of it, so a strategy for port 443
should switch that off. Three places decide what is such a strategy: `_needs_no_reasm` looks for
two substrings of the text, `import_strategy_from_json` looks at its tokens, and `native_options`
inserts `--filter-tcp=443` for the protocol of the entry. They do not agree: a text without any
filter gets one for port 443, and neither importer looks at the protocol. The dead code behind
the `return` of `merge_catalog` is the test of the protocol that `_needs_no_reasm` lacks.

`hello_covered_iff` says for which texts and protocols the option is rendered.
-/

namespace WebZapret.Catalog

open Py Failing

/-- The filter for HTTPS. -/
def tcp443 : Str := lit "--filter-tcp=443"

/-- The option that switches the reassembly of the ClientHello off. -/
def noHello : Str := reasmDisable (lit "tls_client_hello")

/-! ## What rendering keeps -/

/-- An option that the conversion of legacy text neither makes nor drops. -/
structure Kept (x : Str) : Prop where
  ne_new : x ≠ lit "--new"
  not_legacy : ¬x.StartsWith (lit "--dpi-desync")
  not_payload : ¬x.StartsWith (lit "--payload=")
  not_lua : ¬x.StartsWith (lit "--lua-desync=")

theorem kept_tcp443 : Kept tcp443 := by
  constructor <;> decide

theorem kept_noHello : Kept noHello := by
  constructor <;> decide

theorem mem_intercalate {α : Type} {x sep : α} (hx : x ≠ sep) (parts : List (List α)) :
    x ∈ [sep].intercalate parts ↔ ∃ part ∈ parts, x ∈ part := by
  induction parts with
  | nil => simp
  | cons part parts ih =>
    cases parts with
    | nil => simp
    | cons next parts =>
      rw [List.intercalate_cons_cons, List.mem_append, List.mem_append, ih]
      simp [hx]

theorem mem_legacyFilters {x : Str} (hx : Kept x) (profile : List Str) :
    x ∈ legacyFilters profile ↔ x ∈ profile := by
  simp [legacyFilters, List.mem_filter, hx.not_legacy]

theorem desync_startsWith {l : Legacy} {blob mode s : Str} (h : l.desync blob mode = .ok s) :
    s.StartsWith (lit "--lua-desync=") := by
  simp only [Legacy.desync] at h
  by_cases hfake : modeName mode = lit "fake" ∨ modeName mode = lit "fakedsplit"
  · rw [if_pos hfake] at h
    split at h
    · cases h
    · cases h
      exact List.prefix_append ..
  · rw [if_neg hfake] at h
    split at h
    · cases h
      simp only [List.append_assoc]
      exact List.prefix_append ..
    · cases h

theorem mem_addProfile {x : Str} (hx : Kept x) {result result' profile : List Str}
    (h : addProfile result profile = .ok result') :
    x ∈ result' ↔ x ∈ result ∨ x ∈ profile := by
  rw [← mem_legacyFilters hx profile]
  unfold addProfile at h
  by_cases hfilters : legacyFilters profile = []
  · rw [if_pos hfilters] at h
    cases h
    simp [hfilters]
  · rw [if_neg hfilters] at h
    generalize payloadAndBlob (legacyFilters profile) = names at h
    obtain ⟨payload, blob⟩ := names
    obtain ⟨l, _, h⟩ := bind_eq_ok.mp h
    obtain ⟨desync, hdesync, h⟩ := bind_eq_ok.mp h
    cases h
    have hpayload : x ∉ [lit "--payload=" ++ payload] := by
      intro hmem
      exact hx.not_payload (List.mem_singleton.mp hmem ▸ List.prefix_append ..)
    have hlua : x ∉ desync := by
      intro hmem
      obtain ⟨mode, _, hmode⟩ := mem_of_mapM hdesync hmem
      exact hx.not_lua (desync_startsWith hmode)
    have hnew : x ∉ (if result = [] then [] else [lit "--new"]) := by
      split
      · exact List.not_mem_nil
      · exact fun hmem => hx.ne_new (List.mem_singleton.mp hmem)
    simp only [List.mem_append, hpayload, hlua, hnew, or_false]

/-- The legacy branch keeps the option. -/
theorem mem_legacyArgs {x : Str} (hx : Kept x) {args opts : List Str}
    (h : legacyArgs args = .ok opts) : x ∈ opts ↔ x ∈ args := by
  have hfold : ∀ (profiles : List (List Str)) (result result' : List Str),
      profiles.foldlM addProfile result = .ok result' →
      (x ∈ result' ↔ x ∈ result ∨ ∃ profile ∈ profiles, x ∈ profile) := by
    intro profiles
    induction profiles with
    | nil =>
      intro result result' hr
      cases hr
      simp
    | cons profile profiles ih =>
      intro result result' hr
      rw [List.foldlM_cons, bind_eq_ok] at hr
      obtain ⟨mid, hmid, hrest⟩ := hr
      rw [ih mid result' hrest, mem_addProfile hx hmid]
      simp [or_assoc]
  rw [hfold _ _ _ h, ← mem_intercalate hx.ne_new, List.intercalate_splitOn]
  simp

/-- The tokens of a text. -/
def tokens (text : Str) : List Str :=
  match Shlex.split text with
  | .ok tokens => tokens
  | .error _ => []

theorem tokens_eq {text : Str} {ts : List Str} (h : Shlex.split text = .ok ts) :
    tokens text = ts := by
  rw [tokens, h]

/-- `native_options` puts a filter for the protocol in front of the text. -/
def Inserts (tokens : List Str) (protocol : Json) : Prop :=
  tokens ≠ [] ∧ Native tokens ∧ protocol.truthy ∧ ¬AnyStarts tokens (lit "--filter-")

instance (tokens : List Str) (protocol : Json) : Decidable (Inserts tokens protocol) := by
  unfold Inserts
  infer_instance

variable [Tables]

/-- What `native_options` renders: the option of the text, or the filter that it inserts. -/
theorem mem_nativeOptions {x : Str} (hx : Kept x) {text : Str} {protocol : Json}
    {opts : List Str} (h : nativeOptions (.str text) protocol = .ok opts) :
    x ∈ opts ↔
      x ∈ tokens text ∨ Inserts (tokens text) protocol ∧ x = protocolFilter protocol.text := by
  unfold nativeOptions at h
  obtain ⟨ts, hts, h⟩ := bind_eq_ok.mp h
  rw [tokens_eq hts]
  by_cases hempty : ts = []
  · rw [if_pos hempty] at h
    cases h
    simp [hempty, Inserts]
  rw [if_neg hempty] at h
  by_cases hnative : Native ts
  · simp only [hnative, if_true] at h
    unfold nativeArgs at h
    by_cases hinserts : protocol.truthy ∧ ¬AnyStarts ts (lit "--filter-")
    · rw [if_pos hinserts] at h
      split at h
      · cases h
        have hIns : Inserts ts (.str _) := ⟨hempty, hnative, hinserts⟩
        simp only [List.mem_cons, hIns, true_and, Json.text]
        exact or_comm
      · cases h
    · rw [if_neg hinserts] at h
      have hIns : ¬Inserts ts protocol := fun hins => hinserts hins.2.2
      cases h
      simp [hIns]
  · simp only [hnative, if_false] at h
    rw [mem_legacyArgs hx h]
    have hIns : ¬Inserts ts protocol := fun hins => hnative hins.2.1
    simp [hIns]

theorem noHello_ne_protocolFilter (protocol : Str) : noHello ≠ protocolFilter protocol := by
  simp only [protocolFilter]
  split
  · decide
  · split <;> decide

/-! ## What the renderer reads of an imported entry -/

/-- The fields of an entry that `strategy_args` reads. -/
structure Reads (entry : Dict) (text : Str) (protocol : Json) (noReasm : Prop) : Prop where
  text : (entry.get0 (lit "lua_opt")).or (entry.get (lit "nfqws_opt") (.str [])) = .str text
  protocol : entry.get (lit "protocol") (.str []) = protocol
  noReasm : (entry.get0 (lit "no_reasm")).truthy = true ↔ noReasm
  payloads : entry.get0 (lit "no_reasm_payloads") = .null
  scripts : entry.get (lit "lua_init") (.arr []) = .arr []

theorem disabledPayloads_eq {entry : Dict} (h : entry.get0 (lit "no_reasm_payloads") = .null) :
    disabledPayloads entry = .ok [noHello] := by
  rw [disabledPayloads, h]
  rfl

/-- The text gives or gets a filter for port 443. -/
def Asks443 (text : Str) (protocol : Json) : Prop :=
  tcp443 ∈ tokens text ∨
    Inserts (tokens text) protocol ∧ tcp443 = protocolFilter protocol.text

/-- With `no_reasm` the option is rendered; without it the text decides. -/
theorem Reads.hello_iff {entry : Dict} {text : Str} {protocol : Json} {noReasm : Prop}
    (hr : Reads entry text protocol noReasm) {args : List Str} (h : strategyArgs entry = .ok args) :
    (tcp443 ∈ args → noHello ∈ args) ↔
      noReasm ∨ noHello ∈ tokens text ∨ ¬Asks443 text protocol := by
  unfold strategyArgs at h
  rw [hr.text, hr.protocol] at h
  obtain ⟨opts, hopts, h⟩ := bind_eq_ok.mp h
  obtain ⟨_, _, h⟩ := bind_eq_ok.mp h
  obtain ⟨rendered, hrendered, h⟩ := bind_eq_ok.mp h
  have hscripts : initScripts entry = .ok [] := by
    rw [initScripts, hr.scripts]
    rfl
  rw [hscripts] at h
  cases h
  rw [List.map_nil, List.nil_append]
  unfold withReasm at hrendered
  by_cases hdetected : noReasm
  · rw [if_pos (hr.noReasm.mpr hdetected), disabledPayloads_eq hr.payloads] at hrendered
    cases hrendered
    simp [hdetected]
  · rw [if_neg (fun htrue => hdetected (hr.noReasm.mp htrue))] at hrendered
    cases hrendered
    rw [mem_nativeOptions kept_tcp443 hopts, mem_nativeOptions kept_noHello hopts, ← Asks443]
    simp only [hdetected, noHello_ne_protocolFilter, and_false, or_false, false_or]
    rw [imp_iff_not_or, or_comm]

omit [Tables] in
/-- The text of an entry is its `lua_opt` when it has a `--lua-desync` option. -/
theorem or_optText (text : Str) :
    (Json.str (if text.Contains (lit "--lua-desync=") then text else [])).or (.str text) =
      .str text := by
  split
  · rename_i hcontains
    have hne : text ≠ [] := by
      rintro rfl
      exact absurd hcontains (by decide)
    simp [Json.or, Json.truthy, hne]
  · rfl

omit [Tables] in
/-- Both importers end an entry in the same way. -/
theorem reads_of_head {head : Dict} {text : Str} {protocol : Json} {noReasm : Prop}
    [Decidable noReasm]
    (hlua : head.lookup (lit "lua_opt") =
      some (.str (if text.Contains (lit "--lua-desync=") then text else [])))
    (hnfqws : head.lookup (lit "nfqws_opt") = some (.str text))
    (hprotocol : head.lookup (lit "protocol") = some protocol)
    (hnone : ∀ key ∈ [lit "no_reasm", lit "no_reasm_payloads", lit "lua_init"],
      head.lookup key = none) :
    Reads (head ++ if noReasm then [(lit "no_reasm", .bool true)] else []) text protocol
      noReasm where
  text := by
    simp only [Dict.get0, Dict.get, List.lookup_append, hlua, hnfqws, Option.some_or,
      Option.getD_some]
    exact or_optText text
  protocol := by simp [Dict.get, List.lookup_append, hprotocol]
  noReasm := by
    rw [Dict.get0, Dict.get, List.lookup_append, hnone _ (by simp)]
    by_cases hflag : noReasm
    · rw [if_pos hflag]
      exact iff_of_true rfl hflag
    · rw [if_neg hflag]
      exact iff_of_false Bool.false_ne_true hflag
  payloads := by
    rw [Dict.get0, Dict.get, List.lookup_append, hnone _ (by simp)]
    split <;> rfl
  scripts := by
    rw [Dict.get, List.lookup_append, hnone _ (by simp)]
    split <;> rfl

omit [Tables] in
theorem planEntry_reads (env : PlanEnv) (id desc args protocol domain : Str) (dom row : Dict) :
    Reads (planEntry env id desc args protocol domain dom row) args (.str protocol)
      (needsNoReasm args) := by
  refine reads_of_head rfl rfl rfl ?_
  simp only [List.forall_mem_cons]
  exact ⟨rfl, rfl, rfl, nofun⟩

/-! ## The importers -/

theorem importEntry_reads {env : ImportEnv} {domain id : Str} {row entry : Dict}
    (h : importEntry env domain id row = .ok entry) :
    ∃ text ts, Shlex.split text = .ok ts ∧
      entry.get0 (lit "import_original_args") = .str text ∧
      Reads entry text (entry.get0 (lit "protocol")) (NoReasm ts) := by
  unfold importEntry at h
  obtain ⟨text, _, h⟩ := bind_eq_ok.mp h
  obtain ⟨ts, hts, h⟩ := bind_eq_ok.mp h
  obtain ⟨latency, _, h⟩ := bind_eq_ok.mp h
  obtain ⟨success, _, h⟩ := bind_eq_ok.mp h
  cases h
  refine ⟨text, ts, hts, rfl, reads_of_head rfl rfl rfl ?_⟩
  simp only [List.forall_mem_cons]
  exact ⟨rfl, rfl, rfl, nofun⟩

/-- Every entry of an imported batch is one of `importEntry`. -/
theorem addBatch_entry {env : ImportEnv} {batch : Batch} {stored : Stored} {catalog : Json}
    {imported : List Dict} (h : addBatch env batch stored = .ok (catalog, imported)) :
    ∀ e ∈ imported, ∃ id row, importEntry env batch.domain id row = .ok e := by
  unfold addBatch at h
  obtain ⟨d, _, h⟩ := bind_eq_ok.mp h
  obtain ⟨⟨strategies, imported'⟩, hloop, h⟩ := bind_eq_ok.mp h
  cases h
  refine foldlM_induct (fun acc : Json × List Dict =>
    ∀ e ∈ acc.2, ∃ id row, importEntry env batch.domain id row = .ok e) ?_ ?_ hloop
  · intro acc hacc row _ acc' hrow
    unfold importRow at hrow
    obtain ⟨entry, hentry, hrow⟩ := bind_eq_ok.mp hrow
    obtain ⟨kept, _, hrow⟩ := bind_eq_ok.mp hrow
    cases hrow
    intro e he
    rcases List.mem_append.mp he with he | he
    · exact hacc e he
    · rw [List.mem_singleton.mp he]
      exact ⟨_, row.1, hentry⟩
  · exact fun e he => nomatch he

/-- What `import_strategy_from_json` reports comes from the batch that it wrote. -/
theorem imported_of_result {env : ImportEnv} {data : Json} {stored : Stored}
    {entries : List Dict}
    (h : (importStrategyFromJson env data).result stored = .ok (.imported entries)) :
    ∃ batch catalog, addBatch env batch stored = .ok (catalog, entries) := by
  unfold importStrategyFromJson at h
  split at h
  · cases h
  · cases h
  · rename_i batch _
    rw [Task.result] at h
    split at h
    · cases h
    · rename_i catalog imported hbatch
      cases h
      exact ⟨batch, catalog, hbatch⟩

/-- The two importers. -/
inductive Importer where
  | blockcheck
  | json

/-- The importer takes the text for one of TLS. -/
def Importer.Detects : Importer → Str → Prop
  | .blockcheck, text => needsNoReasm text
  | .json, text => NoReasm (tokens text)

/-- An entry that an importer makes. -/
inductive Imported : Importer → Dict → Prop where
  | blockcheck {result : Json} {settings : ImportSettings} {existing : Json} {runId now : Str}
      {entries skipped : List Dict} {entry : Dict}
      (hplan : planImport result settings existing runId now = .ok (entries, skipped))
      (hentry : entry ∈ entries) : Imported .blockcheck entry
  | json {env : ImportEnv} {data : Json} {stored : Stored} {entries : List Dict} {entry : Dict}
      (himport : (importStrategyFromJson env data).result stored = .ok (.imported entries))
      (hentry : entry ∈ entries) : Imported .json entry

/-- `import_original_args` -/
def originalArgs (entry : Dict) : Str := (entry.get0 (lit "import_original_args")).text

/-- The importer sees that the text is for TLS, or the text has the option itself, or no filter
for port 443 is given or inserted. -/
def Covered (how : Importer) (text : Str) (protocol : Json) : Prop :=
  how.Detects text ∨ noHello ∈ tokens text ∨ ¬Asks443 text protocol

theorem Imported.reads {how : Importer} {entry : Dict} (h : Imported how entry) :
    Reads entry (originalArgs entry) (entry.get0 (lit "protocol"))
      (how.Detects (originalArgs entry)) := by
  cases h with
  | blockcheck hplan hentry =>
    obtain ⟨env, id, desc, args, protocol, domain, dom, row, rfl⟩ :=
      planImport_planned hplan entry hentry
    exact planEntry_reads env id desc args protocol domain dom row
  | json himport hentry =>
    obtain ⟨batch, catalog, hbatch⟩ := imported_of_result himport
    obtain ⟨id, row, hrow⟩ := addBatch_entry hbatch entry hentry
    obtain ⟨text, ts, hts, htext, hreads⟩ := importEntry_reads hrow
    rw [originalArgs, htext, Importer.Detects, Json.text, tokens_eq hts]
    exact hreads

/-- **When an imported strategy for port 443 switches the reassembly off.** An entry that renders
`--filter-tcp=443` renders `--reasm-disable=tls_client_hello` too exactly when its text and
protocol are covered. -/
theorem hello_covered_iff {how : Importer} {entry : Dict} (h : Imported how entry)
    {args : List Str} (hargs : strategyArgs entry = .ok args) :
    (tcp443 ∈ args → noHello ∈ args) ↔
      Covered how (originalArgs entry) (entry.get0 (lit "protocol")) :=
  h.reads.hello_iff hargs

omit [Tables]

/-- A run that selected one text. -/
def runOf (args : Str) : Json :=
  .obj [(lit "domains", .arr [.obj [(lit "working", .arr [.obj [(lit "args", .str args)]])]])]

theorem hello_covered_iff_filtered : letI := Tables.ascii
    ∃ entry args, Imported .blockcheck entry ∧ strategyArgs entry = .ok args ∧
      ((tcp443 ∈ args → noHello ∈ args) ↔
        Covered .blockcheck (originalArgs entry) (entry.get0 (lit "protocol"))) := by
  let _ := Tables.ascii
  obtain ⟨entry, args, skipped, hplan, hargs⟩ : ∃ entry args skipped,
      planImport (runOf (lit "--filter-tcp=443 --lua-desync=fake")) ⟨5, []⟩ (.arr []) [] [] =
        .ok ([entry], skipped) ∧ strategyArgs entry = .ok args := ⟨_, _, _, rfl, rfl⟩
  have himported := Imported.blockcheck hplan (List.mem_singleton_self entry)
  exact ⟨entry, args, himported, hargs, hello_covered_iff himported hargs⟩

/-- A text without a filter, selected for TLS, gets the filter for port 443 from its protocol and
keeps the reassembly. -/
theorem unfiltered_not_covered : letI := Tables.ascii
    ¬∀ how entry args, Imported how entry → strategyArgs entry = .ok args →
      tcp443 ∈ args → noHello ∈ args := by
  let _ := Tables.ascii
  intro h
  obtain ⟨entry, args, skipped, hplan, hargs, h443, hno⟩ : ∃ entry args skipped,
      planImport (runOf (lit "--lua-desync=multisplit")) ⟨5, []⟩ (.arr []) [] [] =
        .ok ([entry], skipped) ∧ strategyArgs entry = .ok args ∧
        tcp443 ∈ args ∧ noHello ∉ args := by
    refine ⟨_, _, _, rfl, rfl, ?_, ?_⟩
    · decide
    · decide
  have himported := Imported.blockcheck hplan (List.mem_singleton_self entry)
  exact hno (h _ entry args himported hargs h443)

end WebZapret.Catalog
