import WebZapret.Selection.Soundness
import WebZapret.Selection.Import

/-!
# Command lines

`plan`: for each domain of the settings, the files of its reports and the command lines of its two
steps. Settings with clean values have a plan (`plan_ok`), whose command lines are texts
(`Planned.texts`).
-/

namespace WebZapret.Selection

open Py Failing

variable [Tables]

/-- `MIN_PROFILES_FOR_CHECK` -/
def minProfilesForCheck : Int := 8

/-- A flag and its value. -/
def option (flag : String) (value : Json) : List Json := [.str (lit flag), value]

/-- A flag and its value, if it is set. -/
def optionIf (flag : String) (value : Json) : List Json :=
  if value.truthy then option flag value else []

/-- `str(int(settings[key]))` -/
def intText (settings : Dict) (key : String) : Result Json := do
  return .str (intStr (← (← settings.item (lit key)).toInt))

/-- `_globals`; `workers` is empty for `check`, which verifies sequentially. -/
def globals (settings : Dict) (workers : List Json) : Result (List Json) := do
  let bin ← settings.item (lit "bin")
  let profiles ← (← settings.item (lit "profiles_per_instance")).toInt
  return [bin] ++ workers ++
    option "--profiles-per-instance" (.str (intStr (max minProfilesForCheck profiles))) ++
    [.str (lit "--auto"), .str (lit "--no-conflict-cleanup")] ++
    optionIf "--via" (settings.get0 (lit "via"))

/-- `scan_argv` -/
def scanArgv (settings : Dict) (domain : Json) (scanOut : Str) : Result (List Json) := do
  let globalArgs ← globals settings (option "-w" (← intText settings "workers"))
  let protocols ← (← settings.item (lit "protocols")).joinComma
  let dns ← settings.item (lit "dns")
  let timeout ← intText settings "scan_timeout"
  let top ← intText settings "scan_top"
  let gridFile := settings.get0 (lit "grid_file")
  return globalArgs ++ [.str (lit "scan")] ++ option "-d" domain ++
    option "-p" (.str protocols) ++ option "--dns" dns ++ option "--timeout" timeout ++
    option "--top" top ++ option "-o" (.str scanOut) ++
    optionIf "--alive-via" (settings.get0 (lit "alive_via")) ++
    if (settings.get0 (lit "grid")).Is (lit "file") then optionIf "--from-file" gridFile else []

/-- `check_argv` -/
def checkArgv (settings : Dict) (domain : Json) (scanOut checkOut : Str) :
    Result (List Json) := do
  let globalArgs ← globals settings []
  let dns ← settings.item (lit "dns")
  let timeout ← intText settings "check_timeout"
  let idle ← intText settings "idle_ms"
  let take ← intText settings "take"
  let passes ← intText settings "passes"
  let probePath ← settings.item (lit "probe_path")
  let identityPath ← settings.item (lit "identity_path")
  return globalArgs ++ [.str (lit "check")] ++ option "--from-file" (.str scanOut) ++
    option "-d" domain ++ option "--dns" dns ++ option "--timeout" timeout ++
    option "--idle-ms" idle ++ option "--take" take ++ option "--passes" passes ++
    option "--probe-path" probePath ++ option "--identity-path" identityPath ++
    option "-o" (.str checkOut) ++
    optionIf "--reference-via" (settings.get0 (lit "reference_via"))

/-- One domain of a plan: its files (`run_paths`) and its command lines. -/
structure Planned where
  domain : Json
  scanOut : Str
  checkOut : Str
  log : Str
  scan : List Json
  check : List Json

/-- The part of a file's name that is made of the domain. -/
def domainSlug (domain : Json) : Str := Catalog.slug (domain.or (.str [])).text 40

/-- A domain of `plan`. -/
def planDomain (settings : Dict) (runDir : Str) (domain : Json) : Result Planned := do
  let base := domainSlug domain
  let scanOut := joinPath runDir (lit "scan_" ++ base ++ lit ".json")
  let checkOut := joinPath runDir (lit "check_" ++ base ++ lit ".json")
  let log := joinPath runDir (lit "bcw_" ++ base ++ lit ".log")
  let scan ← scanArgv settings domain scanOut
  let check ← checkArgv settings domain scanOut checkOut
  return ⟨domain, scanOut, checkOut, log, scan, check⟩

/-- What `plan` returns. -/
structure RunPlan where
  bin : Json
  queue : Json
  home : Str
  runs : List Planned

/-- `plan` -/
def plan (settings : Dict) (runDir : Str) : Result RunPlan := do
  let domains ← (← settings.item (lit "domains")).iter
  let runs ← domains.mapM (planDomain settings runDir)
  let bin ← settings.item (lit "bin")
  let queue ← settings.item (lit "queue")
  return ⟨bin, queue, joinPath runDir (lit "home"), runs⟩

/-! ## Clean settings have a plan -/

omit [Tables] in
theorem item_of_lookup {s : Dict} {key : Str} {v : Json} (h : s.lookup key = some v) :
    s.item key = .ok v := by
  rw [Dict.item, h]

/-- The value is a text. -/
def IsText (v : Json) : Prop := ∃ text, v = .str text

/-- What the command lines are made of. -/
structure Plannable (s : Dict) : Prop where
  text : ∀ key ∈ ["bin", "grid_file", "dns", "via", "alive_via", "probe_path", "identity_path",
    "reference_via"], ∃ v, s.lookup (lit key) = some v ∧ IsText v
  int : ∀ key ∈ ["workers", "profiles_per_instance", "scan_timeout", "scan_top", "passes", "take",
    "check_timeout", "idle_ms"], ∃ i, s.lookup (lit key) = some (.int i)
  protocols : ∃ texts : List Str, s.lookup (lit "protocols") = some (.arr (texts.map .str))
  domains : ∃ texts : List Str, s.lookup (lit "domains") = some (.arr (texts.map .str))
  queue : ∃ i, s.lookup (lit "queue") = some (.int i)

section Plannable

variable {s : Dict}

omit [Tables] in
theorem text_of_clean {spec : Spec} (hkind : spec.kind = .str ∨ spec.kind = .enum) {v : Json}
    (h : Clean spec v) : IsText v := by
  unfold Clean at h
  rcases hkind with hkind | hkind
  · rw [hkind] at h
    obtain ⟨text, rfl, _⟩ := h
    exact ⟨text, rfl⟩
  · rw [hkind] at h
    obtain ⟨text, _, rfl⟩ := h
    exact ⟨text, rfl⟩

omit [Tables] in
theorem int_of_clean {spec : Spec} (hkind : spec.kind = .int) {v : Json} (h : Clean spec v) :
    ∃ i, v = .int i := by
  unfold Clean at h
  rw [hkind] at h
  obtain ⟨_, _, i, _, _, rfl, _⟩ := h
  exact ⟨i, rfl⟩

omit [Tables] in
theorem plannable_of_clean (h : Values Clean settingsSpec s) : Plannable s where
  text key hkey := by
    have hspec : ∃ spec ∈ settingsSpec, spec.key = lit key ∧
        (spec.kind = .str ∨ spec.kind = .enum) := by
      revert key
      decide
    obtain ⟨spec, hspec, hspecKey, hkind⟩ := hspec
    obtain ⟨v, hv, hclean⟩ := h spec hspec
    exact ⟨v, hspecKey ▸ hv, text_of_clean hkind hclean⟩
  int key hkey := by
    have hspec : ∃ spec ∈ settingsSpec, spec.key = lit key ∧ spec.kind = .int := by
      revert key
      decide
    obtain ⟨spec, hspec, hspecKey, hkind⟩ := hspec
    obtain ⟨v, hv, hclean⟩ := h spec hspec
    obtain ⟨i, rfl⟩ := int_of_clean hkind hclean
    exact ⟨i, hspecKey ▸ hv⟩
  protocols := by
    obtain ⟨texts, htexts, _⟩ := values_csv h csvSpec_protocols_mem
    exact ⟨texts, htexts⟩
  domains := by
    obtain ⟨texts, htexts, _⟩ := values_csv h csvSpec_domains_mem
    exact ⟨texts, htexts⟩
  queue := by
    obtain ⟨i, hi, _⟩ := values_int h intSpec_queue_mem
    exact ⟨i, hi⟩

theorem intText_ok (h : Plannable s) (key : String)
    (hkey : key ∈ ["workers", "profiles_per_instance", "scan_timeout", "scan_top", "passes", "take",
      "check_timeout", "idle_ms"]) : ∃ text, intText s key = .ok (.str text) := by
  obtain ⟨i, hi⟩ := h.int key hkey
  exact ⟨intStr i, bind_eq_ok.mpr ⟨_, item_of_lookup hi, rfl⟩⟩

/-- Every argument is a text. -/
def Texts (args : List Json) : Prop := ∀ a ∈ args, IsText a

omit [Tables] in
theorem Texts.append {args args' : List Json} (h : Texts args) (h' : Texts args') :
    Texts (args ++ args') := List.forall_mem_append.mpr ⟨h, h'⟩

omit [Tables] in
theorem Texts.single (text : Str) : Texts [.str text] :=
  List.forall_mem_singleton.mpr ⟨text, rfl⟩

omit [Tables] in
theorem Texts.option {flag : String} {v : Json} (h : IsText v) : Texts (option flag v) :=
  List.forall_mem_cons.mpr ⟨⟨_, rfl⟩, List.forall_mem_singleton.mpr h⟩

omit [Tables] in
theorem Texts.optionIf {flag : String} {v : Json} (h : IsText v) : Texts (optionIf flag v) := by
  unfold Selection.optionIf
  split
  · exact .option h
  · exact nofun

omit [Tables] in
theorem get0_isText (h : Plannable s) {key : String}
    (hkey : key ∈ ["bin", "grid_file", "dns", "via", "alive_via", "probe_path", "identity_path",
      "reference_via"]) : IsText (s.get0 (lit key)) := by
  obtain ⟨v, hv, htext⟩ := h.text key hkey
  rw [Dict.get0, get_of_lookup hv]
  exact htext

omit [Tables] in
theorem item_isText (h : Plannable s) (key : String)
    (hkey : key ∈ ["bin", "grid_file", "dns", "via", "alive_via", "probe_path", "identity_path",
      "reference_via"]) : ∃ v, s.item (lit key) = .ok v ∧ IsText v := by
  obtain ⟨v, hv, htext⟩ := h.text key hkey
  exact ⟨v, item_of_lookup hv, htext⟩

theorem globals_ok (h : Plannable s) {workers : List Json} (hworkers : Texts workers) :
    ∃ args, globals s workers = .ok args ∧ Texts args := by
  obtain ⟨bin, hbin, hbinText⟩ := item_isText h "bin" (by decide)
  obtain ⟨profiles, hprofiles⟩ := h.int "profiles_per_instance" (by decide)
  refine ⟨_, bind_eq_ok.mpr ⟨bin, hbin, bind_eq_ok.mpr ⟨_, item_of_lookup hprofiles,
    bind_eq_ok.mpr ⟨profiles, rfl, rfl⟩⟩⟩, ?_⟩
  refine .append (.append (.append (.append ?_ hworkers) (.option ⟨_, rfl⟩)) ?_)
    (.optionIf (get0_isText h (by decide)))
  · exact List.forall_mem_singleton.mpr hbinText
  · exact (Texts.single _).append (.single _)

theorem scanArgv_ok (h : Plannable s) {domain : Json} (hdomain : IsText domain) (scanOut : Str) :
    ∃ args, scanArgv s domain scanOut = .ok args ∧ Texts args := by
  obtain ⟨workers, hworkers⟩ := intText_ok h "workers" (by decide)
  obtain ⟨globalArgs, hglobals, hglobalTexts⟩ := globals_ok h
    (show Texts (option "-w" (.str workers)) from .option ⟨workers, rfl⟩)
  obtain ⟨protocols, hprotocols⟩ := h.protocols
  obtain ⟨dns, hdns, hdnsText⟩ := item_isText h "dns" (by decide)
  obtain ⟨timeout, htimeout⟩ := intText_ok h "scan_timeout" (by decide)
  obtain ⟨top, htop⟩ := intText_ok h "scan_top" (by decide)
  refine ⟨_, bind_eq_ok.mpr ⟨_, hworkers, bind_eq_ok.mpr ⟨globalArgs, hglobals,
    bind_eq_ok.mpr ⟨_, item_of_lookup hprotocols, bind_eq_ok.mpr ⟨_, joinComma_texts protocols,
    bind_eq_ok.mpr ⟨dns, hdns, bind_eq_ok.mpr ⟨_, htimeout, bind_eq_ok.mpr ⟨_, htop, rfl⟩⟩⟩⟩⟩⟩⟩, ?_⟩
  refine Texts.append ((((((((hglobalTexts.append (.single _)).append (.option hdomain)).append
    (.option ⟨_, rfl⟩)).append (.option hdnsText)).append (.option ⟨_, rfl⟩)).append
    (.option ⟨_, rfl⟩)).append (.option ⟨_, rfl⟩)).append
    (.optionIf (get0_isText h (by decide)))) ?_
  split
  · exact .optionIf (get0_isText h (by decide))
  · exact nofun

theorem checkArgv_ok (h : Plannable s) {domain : Json} (hdomain : IsText domain)
    (scanOut checkOut : Str) :
    ∃ args, checkArgv s domain scanOut checkOut = .ok args ∧ Texts args := by
  obtain ⟨globalArgs, hglobals, hglobalTexts⟩ := globals_ok h (show Texts [] from nofun)
  obtain ⟨dns, hdns, hdnsText⟩ := item_isText h "dns" (by decide)
  obtain ⟨timeout, htimeout⟩ := intText_ok h "check_timeout" (by decide)
  obtain ⟨idle, hidle⟩ := intText_ok h "idle_ms" (by decide)
  obtain ⟨take, htake⟩ := intText_ok h "take" (by decide)
  obtain ⟨passes, hpasses⟩ := intText_ok h "passes" (by decide)
  obtain ⟨probe, hprobe, hprobeText⟩ := item_isText h "probe_path" (by decide)
  obtain ⟨identity, hidentity, hidentityText⟩ := item_isText h "identity_path" (by decide)
  refine ⟨_, bind_eq_ok.mpr ⟨globalArgs, hglobals, bind_eq_ok.mpr ⟨dns, hdns,
    bind_eq_ok.mpr ⟨_, htimeout, bind_eq_ok.mpr ⟨_, hidle, bind_eq_ok.mpr ⟨_, htake,
    bind_eq_ok.mpr ⟨_, hpasses, bind_eq_ok.mpr ⟨probe, hprobe,
    bind_eq_ok.mpr ⟨identity, hidentity, rfl⟩⟩⟩⟩⟩⟩⟩⟩, ?_⟩
  exact (((((((((((hglobalTexts.append (.single _)).append (.option ⟨_, rfl⟩)).append
    (.option hdomain)).append (.option hdnsText)).append (.option ⟨_, rfl⟩)).append
    (.option ⟨_, rfl⟩)).append (.option ⟨_, rfl⟩)).append (.option ⟨_, rfl⟩)).append
    (.option hprobeText)).append (.option hidentityText)).append (.option ⟨_, rfl⟩)).append
    (.optionIf (get0_isText h (by decide)))

/-- A domain of a plan, whose command lines are texts. -/
structure Planned.IsPlan (p : Planned) (settings : Dict) (runDir : Str) (domain : Json) :
    Prop where
  eq : planDomain settings runDir domain = .ok p
  domain : p.domain = domain
  scan : Texts p.scan
  check : Texts p.check

theorem planDomain_ok (h : Plannable s) {domain : Json} (hdomain : IsText domain) (runDir : Str) :
    ∃ p : Planned, p.IsPlan s runDir domain := by
  obtain ⟨scan, hscan, hscanTexts⟩ := scanArgv_ok h hdomain
    (joinPath runDir (lit "scan_" ++ domainSlug domain ++ lit ".json"))
  obtain ⟨check, hcheck, hcheckTexts⟩ := checkArgv_ok h hdomain
    (joinPath runDir (lit "scan_" ++ domainSlug domain ++ lit ".json"))
    (joinPath runDir (lit "check_" ++ domainSlug domain ++ lit ".json"))
  exact ⟨_, bind_eq_ok.mpr ⟨scan, hscan, bind_eq_ok.mpr ⟨check, hcheck, rfl⟩⟩, rfl, hscanTexts,
    hcheckTexts⟩

/-- **Clean settings have a plan**: one part for each domain, in order. -/
theorem plan_ok (h : Plannable s) {domains : List Str}
    (hdomains : s.lookup (lit "domains") = some (.arr (domains.map .str))) (runDir : Str) :
    ∃ p, plan s runDir = .ok p ∧
      List.Forall₂ (fun domain run => Planned.IsPlan run s runDir domain) (domains.map .str) p.runs := by
  obtain ⟨runs, hruns, hall⟩ := mapM_ok (f := planDomain s runDir)
    (P := fun domain run => Planned.IsPlan run s runDir domain) (l := domains.map .str) (by
      intro domain hdomain
      obtain ⟨text, _, rfl⟩ := List.mem_map.mp hdomain
      obtain ⟨run, hrun⟩ := planDomain_ok h ⟨text, rfl⟩ runDir
      exact ⟨run, hrun.eq, hrun⟩)
  obtain ⟨bin, hbin, _⟩ := item_isText h "bin" (by decide)
  obtain ⟨queue, hqueue⟩ := h.queue
  exact ⟨_, bind_eq_ok.mpr ⟨_, item_of_lookup hdomains, bind_eq_ok.mpr ⟨_, rfl,
    bind_eq_ok.mpr ⟨runs, hruns, bind_eq_ok.mpr ⟨bin, hbin,
    bind_eq_ok.mpr ⟨_, item_of_lookup hqueue, rfl⟩⟩⟩⟩⟩, hall⟩

end Plannable

end WebZapret.Selection
