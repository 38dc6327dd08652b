import WebZapret.Selection.Clean
import Mathlib.Data.List.Nodup

/-!
# Accepted settings are sound

The harness and the launcher do not check the settings again. What they rely on (`SoundSettings`)
holds of every output of `normalize` without errors, whatever the environment and the values are:
every value is a clean value of its item, and the cross-field rules hold of the merged result.

Main results: `normalizeSettings_ok` (nothing is raised) and `normalize_sound`.
-/

namespace WebZapret.Selection

open Py Failing

/-- What the launcher relies on. -/
structure SoundSettings (s : Dict) : Prop where
  protocols : ∃ ps : List Str, s.lookup (lit "protocols") = some (.arr (ps.map .str)) ∧ ps ≠ [] ∧
    ps.Nodup ∧ ∀ p ∈ ps, p ∈ knownProtocols
  domains : ∃ ds : List Str, s.lookup (lit "domains") = some (.arr (ds.map .str)) ∧ ds ≠ [] ∧
    ds.Nodup ∧ ∀ d ∈ ds, IsDomain d
  ints : ∀ spec ∈ settingsSpec, spec.kind = .int → ∃ lo hi i : Int, spec.lo = .int lo ∧
    spec.hi = .int hi ∧ s.lookup spec.key = some (.int i) ∧ lo ≤ i ∧ i ≤ hi
  floats : ∀ spec ∈ settingsSpec, spec.kind = .float → ∃ lo hi x : Rat, spec.lo = .float (.fin lo) ∧
    spec.hi = .float (.fin hi) ∧ s.lookup spec.key = some (.float (.fin x)) ∧ lo ≤ x ∧ x ≤ hi
  enums : ∀ spec ∈ settingsSpec, spec.kind = .enum →
    ∃ text ∈ spec.choices, s.lookup spec.key = some (.str text)
  grid : s.lookup (lit "grid") = some (.str (lit "file")) →
    ∃ file, s.lookup (lit "grid_file") = some (.str file) ∧ file ≠ []
  via : s.lookup (lit "via") = some (.str []) ∨ s.lookup (lit "reference_via") = some (.str [])
  paths : ∀ key ∈ [lit "probe_path", lit "identity_path"], ∃ path,
    s.lookup key = some (.str path) ∧ path.StartsWith (lit "/")
  workers : ∃ workers profiles : Int, s.lookup (lit "workers") = some (.int workers) ∧
    s.lookup (lit "profiles_per_instance") = some (.int profiles) ∧ workers ≤ profiles
  queue : s.lookup (lit "queue") = some (.int bcwQueueFixed)

/-! ## The spec -/

section Specs

theorem intSpec_wellFormed {key : String} {default lo hi : Int} (h : lo ≤ default)
    (h' : default ≤ hi) : (intSpec key default lo hi).WellFormed :=
  ⟨⟨lo, hi, default, rfl, rfl, rfl, h, h'⟩, nofun⟩

theorem strSpec_wellFormed {key default : String} (h : (lit default).strip = lit default) :
    (strSpec key default).WellFormed := ⟨⟨lit default, rfl, h⟩, nofun⟩

theorem boolSpec_wellFormed {key : String} {default : Bool} :
    (boolSpec key default).WellFormed := ⟨⟨default, rfl⟩, nofun⟩

theorem csvSpec_wellFormed {key : String} {default : List String}
    (h : ∀ t ∈ default.map lit, t ≠ [] ∧ t.strip = t) : (csvSpec key default).WellFormed :=
  ⟨⟨default.map lit, by simp [csvSpec], h⟩, nofun⟩

theorem enumSpec_wellFormed {key default : String} {choices : List String}
    (h : default ∈ choices) : (enumSpec key default choices).WellFormed :=
  ⟨⟨lit default, List.mem_map_of_mem h, rfl⟩, nofun⟩

theorem floatSpec_wellFormed {key : Str} {default lo hi : Rat} (h0 : 0 ≤ lo) (h : lo ≤ default)
    (h' : default ≤ hi) :
    Spec.WellFormed ⟨key, .float, .float (.fin default), .float (.fin lo), .float (.fin hi), []⟩ :=
  ⟨⟨lo, hi, default, rfl, rfl, rfl, h, h'⟩, fun l hl => by
    cases hl
    exact h0⟩

/-- Every default passes its own check. -/
theorem settingsSpec_wellFormed : ∀ spec ∈ settingsSpec, spec.WellFormed := by
  unfold settingsSpec
  simp only [List.forall_mem_cons, List.not_mem_nil, false_implies, implies_true, and_true]
  refine ⟨boolSpec_wellFormed, strSpec_wellFormed (by decide), enumSpec_wellFormed (by decide),
    strSpec_wellFormed (by decide), csvSpec_wellFormed (by decide), csvSpec_wellFormed (by decide),
    enumSpec_wellFormed (by decide), intSpec_wellFormed (by decide) (by decide),
    intSpec_wellFormed (by decide) (by decide), intSpec_wellFormed (by decide) (by decide),
    strSpec_wellFormed (by decide), strSpec_wellFormed (by decide),
    intSpec_wellFormed (by decide) (by decide), intSpec_wellFormed (by decide) (by decide),
    intSpec_wellFormed (by decide) (by decide), intSpec_wellFormed (by decide) (by decide),
    intSpec_wellFormed (by decide) (by decide), intSpec_wellFormed (by decide) (by decide),
    strSpec_wellFormed (by decide), strSpec_wellFormed (by decide), strSpec_wellFormed (by decide),
    floatSpec_wellFormed (by norm_num) (by norm_num) (by norm_num), boolSpec_wellFormed,
    intSpec_wellFormed (by decide) (by decide), strSpec_wellFormed (by decide),
    boolSpec_wellFormed, boolSpec_wellFormed, intSpec_wellFormed (by decide) (by decide),
    intSpec_wellFormed (by decide) (by decide), boolSpec_wellFormed,
    intSpec_wellFormed (by decide) (by decide), intSpec_wellFormed (by decide) (by decide)⟩

theorem settingsSpec_nodup : (settingsSpec.map (·.key)).Nodup := by decide

theorem strSpec_gridFile_mem : strSpec "grid_file" "" ∈ settingsSpec :=
  List.mem_of_getElem? (i := 3) rfl

theorem strSpec_via_mem : strSpec "via" "" ∈ settingsSpec := List.mem_of_getElem? (i := 10) rfl

theorem strSpec_probePath_mem : strSpec "probe_path" "/" ∈ settingsSpec :=
  List.mem_of_getElem? (i := 18) rfl

theorem strSpec_identityPath_mem : strSpec "identity_path" "/robots.txt" ∈ settingsSpec :=
  List.mem_of_getElem? (i := 19) rfl

theorem strSpec_referenceVia_mem : strSpec "reference_via" "" ∈ settingsSpec :=
  List.mem_of_getElem? (i := 20) rfl

theorem csvSpec_protocols_mem : csvSpec "protocols" ["tls12", "tls13"] ∈ settingsSpec :=
  List.mem_of_getElem? (i := 5) rfl

theorem csvSpec_domains_mem : csvSpec "domains" ["youtube.com"] ∈ settingsSpec :=
  List.mem_of_getElem? (i := 4) rfl

theorem intSpec_workers_mem : intSpec "workers" 64 1 2048 ∈ settingsSpec :=
  List.mem_of_getElem? (i := 7) rfl

theorem intSpec_profiles_mem : intSpec "profiles_per_instance" 1024 1 65535 ∈ settingsSpec :=
  List.mem_of_getElem? (i := 8) rfl

theorem intSpec_queue_mem : intSpec "queue" bcwQueueFixed 1 65535 ∈ settingsSpec :=
  List.mem_of_getElem? (i := 9) rfl

end Specs

variable [Tables]

theorem defaults_clean (environ : Str → Option Str) :
    Values Clean settingsSpec (settingsDefaults environ) :=
  envDefaults_values settingsSpec_nodup (fun spec h => (settingsSpec_wellFormed spec h).default)
    (fun spec h _ _ => coerce_clean (settingsSpec_wellFormed spec h)) environ _

theorem normalize_clean {base : Dict} (h : Values Clean settingsSpec base) (values : Dict) :
    Values Clean settingsSpec (normalize settingsSpec values base).1 :=
  normalize_values settingsSpec_nodup
    (fun spec h _ _ => coerce_clean (settingsSpec_wellFormed spec h)) h values

/-! ## Reading a clean block -/

section Block

variable {d : Dict} {key : Str}

omit [Tables] in
theorem get_of_lookup {v : Json} (h : d.lookup key = some v) (default : Json) :
    d.get key default = v := by
  rw [Dict.get, h]
  rfl

omit [Tables] in
theorem values_csv {key : String} {default : List String} (h : Values Clean settingsSpec d)
    (hspec : csvSpec key default ∈ settingsSpec) :
    ∃ texts : List Str, d.lookup (lit key) = some (.arr (texts.map .str)) ∧
      ∀ t ∈ texts, t ≠ [] ∧ t.strip = t := by
  obtain ⟨v, hv, texts, rfl, hclean⟩ := h _ hspec
  exact ⟨texts, hv, hclean⟩

omit [Tables] in
theorem values_str {key default : String} (h : Values Clean settingsSpec d)
    (hspec : strSpec key default ∈ settingsSpec) :
    ∃ text : Str, d.lookup (lit key) = some (.str text) ∧ text.strip = text := by
  obtain ⟨v, hv, text, rfl, hstrip⟩ := h _ hspec
  exact ⟨text, hv, hstrip⟩

omit [Tables] in
theorem values_int {key : String} {default lo hi : Int} (h : Values Clean settingsSpec d)
    (hspec : intSpec key default lo hi ∈ settingsSpec) :
    ∃ i : Int, d.lookup (lit key) = some (.int i) ∧ lo ≤ i ∧ i ≤ hi := by
  obtain ⟨v, hv, lo', hi', i, hlo, hhi, rfl, hle, hge⟩ := h _ hspec
  cases hlo
  cases hhi
  exact ⟨i, hv, hle, hge⟩

omit [Tables] in
theorem lookup_pinQueue_ne (h : key ≠ lit "queue") : (pinQueue d).lookup key = d.lookup key := by
  unfold pinQueue
  split
  · rfl
  · exact Dict.lookup_set_ne _ h _

omit [Tables] in
theorem lookup_pinQueue_self {i : Int} (h : d.lookup (lit "queue") = some (.int i)) :
    (pinQueue d).lookup (lit "queue") = some (.int bcwQueueFixed) := by
  unfold pinQueue
  split
  · rename_i heq
    rw [Dict.get0, get_of_lookup h] at heq
    rw [h, of_decide_eq_true heq]
  · exact Dict.lookup_set_self _ _ _

end Block

/-! ## The lists -/

omit [Tables] in
theorem keptProtocols_spec (listed : List Json) :
    (keptProtocols listed).Nodup ∧ ∀ p ∈ keptProtocols listed, p ∈ knownProtocols := by
  refine ⟨nodup_eraseDups _, ?_⟩
  intro p hp
  obtain ⟨x, _, hx⟩ := List.mem_filterMap.mp (List.mem_eraseDups.mp hp)
  split at hx
  · split at hx
    · rename_i hknown
      cases hx
      exact hknown
    · cases hx
  · cases hx

theorem keptDomains_nodup (listed : Json) : (keptDomains listed).Nodup :=
  (nodup_eraseDups _).filter _

omit [Tables] in
theorem protocolErrors_eq_nil {protocols : List Str} :
    protocolErrors protocols = [] ↔ protocols ≠ [] := by
  unfold protocolErrors
  split
  · rename_i h
    simp [h]
  · rename_i h
    simp [h]

theorem domainErrors_eq_nil {domains : List Str} :
    domainErrors domains = [] ↔ domains ≠ [] ∧ ∀ d ∈ domains, IsDomain d := by
  unfold domainErrors
  rw [List.append_eq_nil_iff, List.map_eq_nil_iff, List.filter_eq_nil_iff]
  by_cases hnil : domains = []
  · simp [hnil]
  · simp [hnil]

omit [Tables] in
theorem joinComma_texts (texts : List Str) :
    (Json.arr (texts.map .str)).joinComma = .ok (Str.join (lit ",") texts) := by
  refine bind_eq_ok.mpr ⟨texts.map .str, rfl, bind_eq_ok.mpr ⟨texts, ?_, rfl⟩⟩
  induction texts with
  | nil => rfl
  | cons t texts ih =>
    rw [List.map_cons, List.mapM_cons]
    exact bind_eq_ok.mpr ⟨t, rfl, bind_eq_ok.mpr ⟨texts, ih, rfl⟩⟩

omit [Tables] in
/-- The unknown protocols are texts, so that joining them raises nothing. -/
theorem protocolWarnings_ok (texts : List Str) :
    ∃ warnings, protocolWarnings (texts.map .str) = .ok warnings := by
  unfold protocolWarnings
  rw [List.filter_map]
  by_cases hempty : ((texts.filter ((fun p => !isProtocol p) ∘ Json.str)).map Json.str).isEmpty
  · exact ⟨[], if_pos hempty⟩
  · refine ⟨_, (if_neg hempty).trans (bind_eq_ok.mpr ⟨_, joinComma_texts _, rfl⟩)⟩

theorem workerErrors_ok {d : Dict} {workers profiles : Int}
    (hworkers : d.lookup (lit "workers") = some (.int workers))
    (hprofiles : d.lookup (lit "profiles_per_instance") = some (.int profiles)) :
    ∃ errors, workerErrors d = .ok errors ∧ (errors = [] ↔ workers ≤ profiles) := by
  unfold workerErrors
  rw [Dict.get0, Dict.get0, get_of_lookup hworkers, get_of_lookup hprofiles]
  by_cases hle : workers ≤ profiles
  · have hnot : decide (profiles < workers) = false := by simpa using hle
    refine ⟨[], ?_, by simp [hle]⟩
    exact bind_eq_ok.mpr ⟨false, congrArg Except.ok hnot, rfl⟩
  · have hlt : decide (profiles < workers) = true := by simpa using hle
    exact ⟨[_], bind_eq_ok.mpr ⟨true, congrArg Except.ok hlt, rfl⟩, by simp [hle]⟩

/-! ## The block with its rules -/

/-- `out["protocols"] = …; out["domains"] = …` -/
def setLists (protocols domains : List Str) (out : Dict) : Dict :=
  (out.set (lit "protocols") (.arr (protocols.map .str))).set (lit "domains")
    (.arr (domains.map .str))

section Lists

variable {protocols domains : List Str} {d : Dict}

omit [Tables] in
theorem lookup_setLists_ne {key : Str} (h : key ≠ lit "protocols") (h' : key ≠ lit "domains") :
    (setLists protocols domains d).lookup key = d.lookup key := by
  rw [setLists, Dict.lookup_set_ne _ h', Dict.lookup_set_ne _ h]

omit [Tables] in
theorem lookup_setLists_protocols :
    (setLists protocols domains d).lookup (lit "protocols") = some (.arr (protocols.map .str)) := by
  rw [setLists, Dict.lookup_set_ne _ (by decide), Dict.lookup_set_self]

omit [Tables] in
theorem lookup_setLists_domains :
    (setLists protocols domains d).lookup (lit "domains") = some (.arr (domains.map .str)) :=
  Dict.lookup_set_self _ _ _

end Lists

/-- What `normalizeSettings` makes of a merged block: `out` is the block with its lists cleaned. -/
structure Ruled (merged out : Dict) (listed protocols domains tooManyWorkers : List Str)
    (n : Normalized) : Prop where
  listed_eq : merged.lookup (lit "protocols") = some (.arr (listed.map .str))
  protocols_eq : protocols = keptProtocols (listed.map .str)
  domains_eq : domains = keptDomains (merged.get (lit "domains") (.arr []))
  out_eq : out = setLists protocols domains merged
  workers_eq : workerErrors out = .ok tooManyWorkers
  settings_eq : n.settings = pinQueue out
  errors_eq : n.errors = protocolErrors protocols ++ domainErrors domains ++ gridErrors out ++
    viaErrors out ++ pathErrors out (lit "probe_path") ++ pathErrors out (lit "identity_path") ++
    tooManyWorkers

section Base

variable {base : Dict}

/-- Over a clean base nothing is raised. -/
theorem normalizeSettings_base_ok (h : Values Clean settingsSpec base) (values : Dict) :
    ∃ n, normalizeSettings values base = .ok n := by
  have hclean := normalize_clean h values
  obtain ⟨listed, hlisted, _⟩ := values_csv hclean csvSpec_protocols_mem
  obtain ⟨bad, hbad⟩ := protocolWarnings_ok listed
  obtain ⟨workers, hworkers, _⟩ := values_int hclean intSpec_workers_mem
  obtain ⟨profiles, hprofiles, _⟩ := values_int hclean intSpec_profiles_mem
  have hiter : ((normalize settingsSpec values base).1.get (lit "protocols") (.arr [])).iter =
      .ok (listed.map .str) := by
    rw [get_of_lookup hlisted]
    rfl
  have hrules (domains : List Str) := workerErrors_ok
    (d := setLists (keptProtocols (listed.map .str)) domains (normalize settingsSpec values base).1)
    (by rw [lookup_setLists_ne (by decide) (by decide), hworkers])
    (by rw [lookup_setLists_ne (by decide) (by decide), hprofiles])
  obtain ⟨tooMany, htooMany, _⟩ := hrules _
  unfold normalizeSettings
  dsimp only
  exact ⟨_, bind_eq_ok.mpr ⟨_, hiter, bind_eq_ok.mpr ⟨bad, hbad,
    bind_eq_ok.mpr ⟨tooMany, htooMany, rfl⟩⟩⟩⟩

theorem ruled_of_ok (h : Values Clean settingsSpec base) {values : Dict} {n : Normalized}
    (hn : normalizeSettings values base = .ok n) :
    ∃ out listed protocols domains tooManyWorkers,
      Ruled (normalize settingsSpec values base).1 out listed protocols domains tooManyWorkers n := by
  have hclean := normalize_clean h values
  obtain ⟨listed, hlisted, _⟩ := values_csv hclean csvSpec_protocols_mem
  unfold normalizeSettings at hn
  dsimp only at hn
  obtain ⟨items, hitems, hn⟩ := bind_eq_ok.mp hn
  obtain ⟨bad, _, hn⟩ := bind_eq_ok.mp hn
  obtain ⟨tooMany, htooMany, hn⟩ := bind_eq_ok.mp hn
  rw [get_of_lookup hlisted] at hitems
  cases hitems
  cases hn
  refine ⟨_, listed, _, _, tooMany, hlisted, rfl, ?_, rfl, htooMany, rfl, rfl⟩
  rw [Dict.get, Dict.lookup_set_ne _ (by decide), Dict.get]

end Base

/-- Nothing is raised over the defaults of an environment. -/
theorem normalizeSettings_ok (environ : Str → Option Str) (values : Dict) :
    ∃ n, normalizeSettings values (settingsDefaults environ) = .ok n :=
  normalizeSettings_base_ok (defaults_clean environ) values

section Ruled

variable {merged out : Dict} {listed protocols domains tooMany : List Str} {n : Normalized}

/-- The rules change the lists and the queue number only. -/
theorem Ruled.lookup_eq (h : Ruled merged out listed protocols domains tooMany n) {key : Str}
    (hprotocols : key ≠ lit "protocols") (hdomains : key ≠ lit "domains")
    (hqueue : key ≠ lit "queue") : n.settings.lookup key = merged.lookup key := by
  rw [h.settings_eq, lookup_pinQueue_ne hqueue, h.out_eq, lookup_setLists_ne hprotocols hdomains]

/-- The rules read the block that they return, the queue number apart. -/
theorem Ruled.get_eq (h : Ruled merged out listed protocols domains tooMany n) {key : Str}
    (hqueue : key ≠ lit "queue") (default : Json) :
    out.get key default = n.settings.get key default := by
  rw [Dict.get, Dict.get, h.settings_eq, lookup_pinQueue_ne hqueue]

end Ruled

/-! ## Soundness -/

omit [Tables] in
theorem gridErrors_eq_nil {d : Dict} : gridErrors d = [] ↔
    ((d.get0 (lit "grid")).Is (lit "file") → (d.get0 (lit "grid_file")).truthy) := by
  unfold gridErrors
  simp

omit [Tables] in
theorem viaErrors_eq_nil {d : Dict} : viaErrors d = [] ↔
    ¬((d.get0 (lit "via")).truthy ∧ (d.get0 (lit "reference_via")).truthy) := by
  unfold viaErrors
  simp

theorem pathErrors_eq_nil {d : Dict} {key : Str} : pathErrors d key = [] ↔
    (d.get key (.str [])).text.StartsWith (lit "/") := by
  unfold pathErrors
  simp

omit [Tables] in
/-- Which items the rules change. -/
theorem ruled_keys : ∀ spec ∈ settingsSpec,
    (spec.key = lit "protocols" ∨ spec.key = lit "domains" → spec.kind = .csv) ∧
      (spec.key = lit "queue" → spec.kind = .int) := by decide

omit [Tables] in
theorem queue_unique {spec : Spec} (hspec : spec ∈ settingsSpec) (h : spec.key = lit "queue") :
    spec = intSpec "queue" bcwQueueFixed 1 65535 :=
  List.inj_on_of_nodup_map settingsSpec_nodup hspec intSpec_queue_mem h

section Sound

variable {merged out : Dict} {listed protocols domains tooMany : List Str} {n : Normalized}

/-- An item that is neither a list nor a whole number keeps its merged value. -/
theorem Ruled.lookup_spec (h : Ruled merged out listed protocols domains tooMany n) {spec : Spec}
    (hspec : spec ∈ settingsSpec) (hkind : spec.kind ≠ .csv) (hint : spec.kind ≠ .int) :
    n.settings.lookup spec.key = merged.lookup spec.key := by
  obtain ⟨hlists, hqueue⟩ := ruled_keys spec hspec
  exact h.lookup_eq (fun heq => hkind (hlists (.inl heq))) (fun heq => hkind (hlists (.inr heq)))
    fun heq => hint (hqueue heq)

theorem Ruled.lookup_queue (h : Ruled merged out listed protocols domains tooMany n)
    (hclean : Values Clean settingsSpec merged) :
    n.settings.lookup (lit "queue") = some (.int bcwQueueFixed) := by
  obtain ⟨i, hi, _⟩ := values_int hclean intSpec_queue_mem
  rw [h.settings_eq]
  apply lookup_pinQueue_self
  rw [h.out_eq, lookup_setLists_ne (by decide) (by decide), hi]

theorem Ruled.ints (h : Ruled merged out listed protocols domains tooMany n)
    (hclean : Values Clean settingsSpec merged) {spec : Spec} (hspec : spec ∈ settingsSpec)
    (hkind : spec.kind = .int) : ∃ lo hi i : Int, spec.lo = .int lo ∧ spec.hi = .int hi ∧
      n.settings.lookup spec.key = some (.int i) ∧ lo ≤ i ∧ i ≤ hi := by
  by_cases hqueue : spec.key = lit "queue"
  · rw [queue_unique hspec hqueue]
    exact ⟨1, 65535, bcwQueueFixed, rfl, rfl, h.lookup_queue hclean, by decide, by decide⟩
  · obtain ⟨v, hv, hvalue⟩ := hclean spec hspec
    unfold Clean at hvalue
    rw [hkind] at hvalue
    obtain ⟨lo, hi, i, hlo, hhi, rfl, hle, hge⟩ := hvalue
    have hlists : ¬(spec.key = lit "protocols" ∨ spec.key = lit "domains") := by
      intro heq
      have hcsv := (ruled_keys spec hspec).1 heq
      rw [hkind] at hcsv
      cases hcsv
    refine ⟨lo, hi, i, hlo, hhi, ?_, hle, hge⟩
    rw [h.lookup_eq (fun heq => hlists (.inl heq)) (fun heq => hlists (.inr heq)) hqueue, hv]

/-- The texts among the settings. -/
theorem Ruled.text (h : Ruled merged out listed protocols domains tooMany n)
    (hclean : Values Clean settingsSpec merged) {key default : String}
    (hspec : strSpec key default ∈ settingsSpec) :
    ∃ text : Str, n.settings.lookup (lit key) = some (.str text) := by
  obtain ⟨text, htext, _⟩ := values_str hclean hspec
  exact ⟨text, (h.lookup_spec hspec nofun nofun).trans htext⟩

theorem Ruled.floats (h : Ruled merged out listed protocols domains tooMany n)
    (hclean : Values Clean settingsSpec merged) {spec : Spec} (hspec : spec ∈ settingsSpec)
    (hkind : spec.kind = .float) : ∃ lo hi x : Rat, spec.lo = .float (.fin lo) ∧
      spec.hi = .float (.fin hi) ∧ n.settings.lookup spec.key = some (.float (.fin x)) ∧
      lo ≤ x ∧ x ≤ hi := by
  obtain ⟨v, hv, hvalue⟩ := hclean spec hspec
  have hsame := h.lookup_spec hspec (by rw [hkind]; nofun) (by rw [hkind]; nofun)
  unfold Clean at hvalue
  rw [hkind] at hvalue
  obtain ⟨lo, hi, x, hlo, hhi, rfl, hle, hge⟩ := hvalue
  exact ⟨lo, hi, x, hlo, hhi, hsame.trans hv, hle, hge⟩

theorem Ruled.enums (h : Ruled merged out listed protocols domains tooMany n)
    (hclean : Values Clean settingsSpec merged) {spec : Spec} (hspec : spec ∈ settingsSpec)
    (hkind : spec.kind = .enum) :
    ∃ text ∈ spec.choices, n.settings.lookup spec.key = some (.str text) := by
  obtain ⟨v, hv, hvalue⟩ := hclean spec hspec
  have hsame := h.lookup_spec hspec (by rw [hkind]; nofun) (by rw [hkind]; nofun)
  unfold Clean at hvalue
  rw [hkind] at hvalue
  obtain ⟨text, htext, rfl⟩ := hvalue
  exact ⟨text, htext, hsame.trans hv⟩

theorem Ruled.grid (h : Ruled merged out listed protocols domains tooMany n)
    (hclean : Values Clean settingsSpec merged) (herrors : gridErrors out = [])
    (hfile : n.settings.lookup (lit "grid") = some (.str (lit "file"))) :
    ∃ file, n.settings.lookup (lit "grid_file") = some (.str file) ∧ file ≠ [] := by
  obtain ⟨file, hfile'⟩ := h.text hclean strSpec_gridFile_mem
  refine ⟨file, hfile', ?_⟩
  rw [gridErrors_eq_nil, Dict.get0, Dict.get0, h.get_eq (by decide), h.get_eq (by decide),
    get_of_lookup hfile, get_of_lookup hfile'] at herrors
  simpa [Json.truthy] using herrors rfl

theorem Ruled.via (h : Ruled merged out listed protocols domains tooMany n)
    (hclean : Values Clean settingsSpec merged) (herrors : viaErrors out = []) :
    n.settings.lookup (lit "via") = some (.str []) ∨
      n.settings.lookup (lit "reference_via") = some (.str []) := by
  obtain ⟨via, hvia⟩ := h.text hclean strSpec_via_mem
  obtain ⟨reference, hreference⟩ := h.text hclean strSpec_referenceVia_mem
  rw [viaErrors_eq_nil, Dict.get0, Dict.get0, h.get_eq (by decide), h.get_eq (by decide),
    get_of_lookup hvia, get_of_lookup hreference] at herrors
  by_cases hnil : via = []
  · exact .inl (hnil ▸ hvia)
  · have hnil' : reference = [] := by simpa [Json.truthy, hnil] using herrors
    exact .inr (hnil' ▸ hreference)

theorem Ruled.path (h : Ruled merged out listed protocols domains tooMany n)
    (hclean : Values Clean settingsSpec merged) {key default : String}
    (hspec : strSpec key default ∈ settingsSpec) (herrors : pathErrors out (lit key) = []) :
    ∃ path, n.settings.lookup (lit key) = some (.str path) ∧ path.StartsWith (lit "/") := by
  obtain ⟨path, hpath⟩ := h.text hclean hspec
  have hne : lit key ≠ lit "queue" := by
    intro heq
    cases (ruled_keys _ hspec).2 heq
  rw [pathErrors_eq_nil, h.get_eq hne, get_of_lookup hpath] at herrors
  exact ⟨path, hpath, herrors⟩

theorem Ruled.workers_le (h : Ruled merged out listed protocols domains tooMany n)
    (hclean : Values Clean settingsSpec merged) (herrors : tooMany = []) :
    ∃ workers profiles : Int, n.settings.lookup (lit "workers") = some (.int workers) ∧
      n.settings.lookup (lit "profiles_per_instance") = some (.int profiles) ∧
      workers ≤ profiles := by
  obtain ⟨workers, hworkers, _⟩ := values_int hclean intSpec_workers_mem
  obtain ⟨profiles, hprofiles, _⟩ := values_int hclean intSpec_profiles_mem
  have hout (key : Str) (hne : key ≠ lit "protocols") (hne' : key ≠ lit "domains") :
      out.lookup key = merged.lookup key := by
    rw [h.out_eq, lookup_setLists_ne hne hne']
  obtain ⟨errors, hok, hiff⟩ := workerErrors_ok
    ((hout _ (by decide) (by decide)).trans hworkers)
    ((hout _ (by decide) (by decide)).trans hprofiles)
  rw [h.workers_eq] at hok
  cases hok
  refine ⟨workers, profiles, ?_, ?_, hiff.mp herrors⟩
  · rw [h.lookup_eq (by decide) (by decide) (by decide), hworkers]
  · rw [h.lookup_eq (by decide) (by decide) (by decide), hprofiles]

theorem Ruled.lookup_protocols (h : Ruled merged out listed protocols domains tooMany n) :
    n.settings.lookup (lit "protocols") = some (.arr (protocols.map .str)) := by
  rw [h.settings_eq, lookup_pinQueue_ne (by decide), h.out_eq, lookup_setLists_protocols]

theorem Ruled.lookup_domains (h : Ruled merged out listed protocols domains tooMany n) :
    n.settings.lookup (lit "domains") = some (.arr (domains.map .str)) := by
  rw [h.settings_eq, lookup_pinQueue_ne (by decide), h.out_eq, lookup_setLists_domains]

/-- What holds of the merged values and of the ones that the rules put in holds of the result. -/
theorem Ruled.values {P : Spec → Json → Prop}
    (h : Ruled merged out listed protocols domains tooMany n)
    (hclean : Values Clean settingsSpec merged)
    (hprotocols : P (csvSpec "protocols" ["tls12", "tls13"]) (.arr (protocols.map .str)))
    (hdomains : P (csvSpec "domains" ["youtube.com"]) (.arr (domains.map .str)))
    (hqueue : P (intSpec "queue" bcwQueueFixed 1 65535) (.int bcwQueueFixed))
    (hmerged : Values P settingsSpec merged) : Values P settingsSpec n.settings := by
  intro spec hspec
  by_cases hp : spec.key = lit "protocols"
  · rw [List.inj_on_of_nodup_map settingsSpec_nodup hspec csvSpec_protocols_mem hp]
    exact ⟨_, h.lookup_protocols, hprotocols⟩
  by_cases hd : spec.key = lit "domains"
  · rw [List.inj_on_of_nodup_map settingsSpec_nodup hspec csvSpec_domains_mem hd]
    exact ⟨_, h.lookup_domains, hdomains⟩
  by_cases hq : spec.key = lit "queue"
  · rw [queue_unique hspec hq]
    exact ⟨_, h.lookup_queue hclean, hqueue⟩
  · obtain ⟨v, hv, hvalue⟩ := hmerged spec hspec
    exact ⟨v, (h.lookup_eq hp hd hq).trans hv, hvalue⟩

omit [Tables] in
theorem knownProtocols_clean : ∀ p ∈ knownProtocols, p ≠ [] ∧ p.strip = p := by decide

theorem keptDomains_clean (listed : Json) :
    ∀ d ∈ keptDomains listed, d ≠ [] ∧ d.strip = d := by
  intro d hd
  exact asCsv_clean listed d (List.mem_eraseDups.mp (List.mem_of_mem_filter hd))

theorem Ruled.clean (h : Ruled merged out listed protocols domains tooMany n)
    (hclean : Values Clean settingsSpec merged) : Values Clean settingsSpec n.settings := by
  refine h.values hclean ⟨protocols, rfl, ?_⟩ ⟨domains, rfl, ?_⟩
    ⟨1, 65535, bcwQueueFixed, rfl, rfl, rfl, by decide, by decide⟩ hclean
  · intro p hp
    rw [h.protocols_eq] at hp
    exact knownProtocols_clean p ((keptProtocols_spec _).2 p hp)
  · rw [h.domains_eq]
    exact keptDomains_clean _

end Sound

/-- Whatever `normalize` returns has clean values. -/
theorem normalizeSettings_clean {base : Dict} (h : Values Clean settingsSpec base) {values : Dict}
    {n : Normalized} (hn : normalizeSettings values base = .ok n) :
    Values Clean settingsSpec n.settings := by
  obtain ⟨out, listed, protocols, domains, tooMany, hruled⟩ := ruled_of_ok h hn
  exact hruled.clean (normalize_clean h values)

/-- **Settings without errors are sound**, whatever the environment and the values are. -/
theorem normalize_sound (environ : Str → Option Str) (values : Dict) {n : Normalized}
    (h : normalizeSettings values (settingsDefaults environ) = .ok n) (herrors : n.errors = []) :
    SoundSettings n.settings := by
  have hclean := normalize_clean (defaults_clean environ) values
  obtain ⟨out, listed, protocols, domains, tooMany, hruled⟩ := ruled_of_ok (defaults_clean environ) h
  rw [hruled.errors_eq] at herrors
  simp only [List.append_eq_nil_iff] at herrors
  obtain ⟨⟨⟨⟨⟨⟨hprotocols, hdomains⟩, hgrid⟩, hvia⟩, hprobe⟩, hidentity⟩, hworkers⟩ := herrors
  have hknown := keptProtocols_spec (listed.map .str)
  rw [← hruled.protocols_eq] at hknown
  obtain ⟨hdomain, hvalid⟩ := domainErrors_eq_nil.mp hdomains
  have hnodup := keptDomains_nodup
    ((normalize settingsSpec values (settingsDefaults environ)).1.get (lit "domains") (.arr []))
  rw [← hruled.domains_eq] at hnodup
  exact {
    protocols := ⟨protocols, hruled.lookup_protocols, protocolErrors_eq_nil.mp hprotocols, hknown⟩
    domains := ⟨domains, hruled.lookup_domains, hdomain, hnodup, hvalid⟩
    ints := fun _ => hruled.ints hclean
    floats := fun _ => hruled.floats hclean
    enums := fun _ => hruled.enums hclean
    grid := hruled.grid hclean hgrid
    via := hruled.via hclean hvia
    paths := by
      intro key hkey
      rcases List.mem_cons.mp hkey with rfl | hkey
      · exact hruled.path hclean strSpec_probePath_mem hprobe
      · rw [List.mem_singleton.mp hkey]
        exact hruled.path hclean strSpec_identityPath_mem hidentity
    workers := hruled.workers_le hclean hworkers
    queue := hruled.lookup_queue hclean }

omit [Tables] in
/-- An empty environment and one value, which is out of its range. -/
theorem normalize_sound_passes :
    letI := Tables.ascii
    ∃ n, normalizeSettings [(lit "passes", .int 99)] (settingsDefaults fun _ => none) = .ok n ∧
      n.errors = [] ∧ SoundSettings n.settings := by
  let _ := Tables.ascii
  exact ⟨_, rfl, rfl, normalize_sound (fun _ => none) [(lit "passes", .int 99)] rfl rfl⟩

end WebZapret.Selection
