import WebZapret.Panel.Overview

/-!
# After a run

`_bcw_collect` of `panel.py` waits for the harness, stores its result, and imports and applies what
was found, if the settings of the run say so. It takes the strategy to apply from the answer of
`bcw_import`, under a name that this answer does not have, so it never applies one
(`applyCalls_eq_nil`): it does what is due exactly when there is nothing to apply
(`collect_asDue_iff`).
-/

namespace WebZapret.Panel.Http

open Py Failing Selection

/-- What `bcw_import` answers. -/
inductive Imported where
  /-- the entries are in the catalog -/
  | done (ids : List Str) (entries skipped : List Dict)
  | refused (error : Str) (skipped : Option (List Dict))
  | raised (e : Exc)

/-- The three fields of an imported entry. -/
def importedFields (entry : Dict) : Json :=
  .obj [member "id" (entry.get0 (lit "id")), member "name" (entry.get0 (lit "name")),
    member "protocol" (entry.get0 (lit "protocol"))]

/-- The dict that `bcw_import` returns. -/
def Imported.dict : Imported → Result Dict
  | .done ids entries skipped => .ok [member "ok" (.bool true), member "ids" (Json.texts ids),
      member "count" (.int ids.length), member "strategies" (.arr (entries.map importedFields)),
      member "skipped" (.arr (skipped.map .obj))]
  | .refused error skipped => .ok ([member "ok" (.bool false), member "error" (.str error)] ++
      match skipped with
      | some skipped => [member "skipped" (.arr (skipped.map .obj))]
      | none => [])
  | .raised e => .error e

/-- What `_bcw_collect` finds. -/
structure CollectEnv where
  runId : Str
  /-- the exit code of the harness -/
  rc : Int
  /-- what is decoded from the first brace of its output on, if anything can be -/
  output : Option Json
  /-- `result.json` of the run -/
  stored : Option Json
  /-- what `bcw_import` answers for the run -/
  imported : Imported

/-- What `_bcw_collect` does. -/
structure Collected where
  /-- the state of the job -/
  state : Str
  /-- what becomes the result of the last run -/
  last : Option Dict
  /-- the arguments of `apply`, if it is called; an exception ends the thread -/
  applied : Result (Option (List Json))

/-- The result of the run: what the harness printed, or else what it wrote. -/
def CollectEnv.result (env : CollectEnv) : Json :=
  match env.output with
  | some (.obj (m :: members)) => .obj (m :: members)
  | _ => (env.stored.getD (.obj [])).or (.obj [])

/-- `(imported.get("imported") or [{}])[0].get("id", "")` -/
def firstImported (imported : Dict) : Result Json := do
  let first ← match (imported.get0 (lit "imported")).or (.arr [.obj []]) with
    | .arr (x :: _) => .ok x
    | .str (c :: _) => .ok (.str [c])
    | .obj _ => .error .keyError
    | _ => .error .typeError
  return (← first.dict).get (lit "id") (.str [])

/-- `(res.get("settings") or {}).get(key)` -/
def settingOf (res : Dict) (key : String) : Result Json := do
  return (← ((res.get0 (lit "settings")).or (.obj [])).dict).get0 (lit key)

variable [Tables]

/-- A line that is printed; the output takes no lone surrogates. -/
def printLine (text : Str) : Result Unit :=
  if EncodableText text then .ok () else .error Utf8.encodeError

/-- The end of `_bcw_collect`, once the run is imported. -/
def applyImported (res imported : Dict) : Result (Option (List Json)) := do
  if ¬(imported.get0 (lit "ok")).truthy then return none
  let first ← firstImported imported
  let ids ← argTexts (← (imported.get (lit "ids") (.arr [])).iter)
  printLine (lit "panel: bcw auto-imported: " ++ Str.join (lit ", ") ids)
  if first.truthy then
    if (← settingOf res "auto_apply").truthy then return some [.str (lit "strategy"), first]
  return none

/-- The summary of a run for the log. -/
def runSummary (res : Dict) : Result Str :=
  if res = [] then .ok (lit "no result") else summarize res

/-- The import of `_bcw_collect`. -/
def importResult (env : CollectEnv) (res : Dict) : Result (Option (List Json)) := do
  let summary ← runSummary res
  printLine (lit "panel: bcw run " ++ env.runId ++ lit " finished rc=" ++ intStr env.rc ++ lit ": " ++
    summary)
  if ¬(res.get0 (lit "success")).truthy then return none
  if ¬(← settingOf res "auto_import").truthy then return none
  applyImported res (← env.imported.dict)

/-- `_bcw_collect` -/
def collect (env : CollectEnv) : Result Collected := do
  let res ← env.result.dict
  let ok := (res.get0 (lit "ok")).truthy
  return ⟨if ok then lit "done" else lit "error", if ok then some res else none, importResult env res⟩

/-- The calls of `apply`. -/
def applyCalls (env : CollectEnv) : List (List Json) :=
  match collect env with
  | .ok ⟨_, _, .ok (some args)⟩ => [args]
  | _ => []

/-! ## Nothing is applied -/

omit [Tables] in
/-- The answer of an import has no `imported`. -/
theorem firstImported_dict {imported : Imported} {answer : Dict} (h : imported.dict = .ok answer) :
    firstImported answer = .ok (.str []) := by
  cases imported with
  | done ids entries skipped =>
    cases h
    rfl
  | refused error skipped =>
    cases h
    cases skipped with
    | none => rfl
    | some skipped => rfl
  | raised e => cases h

omit [Tables] in
theorem applyImported_ne_some {imported : Imported} {answer : Dict} (h : imported.dict = .ok answer)
    (res : Dict) (args : List Json) : applyImported res answer ≠ .ok (some args) := by
  intro happly
  unfold applyImported at happly
  by_cases hok : (answer.get0 (lit "ok")).truthy = true
  · rw [if_neg (not_not_intro hok)] at happly
    obtain ⟨first, hfirst, happly⟩ := bind_eq_ok.mp happly
    obtain ⟨items, _, happly⟩ := bind_eq_ok.mp happly
    obtain ⟨ids, _, happly⟩ := bind_eq_ok.mp happly
    obtain ⟨_, _, happly⟩ := bind_eq_ok.mp happly
    rw [firstImported_dict h] at hfirst
    cases hfirst
    cases happly
  · rw [if_pos hok] at happly
    cases happly

theorem importResult_ne_some (env : CollectEnv) (res : Dict) (args : List Json) :
    importResult env res ≠ .ok (some args) := by
  intro himport
  obtain ⟨summary, _, himport⟩ := bind_eq_ok.mp himport
  obtain ⟨_, _, himport⟩ := bind_eq_ok.mp himport
  by_cases hsuccess : (res.get0 (lit "success")).truthy = true
  · rw [if_neg (not_not_intro hsuccess)] at himport
    obtain ⟨auto, _, himport⟩ := bind_eq_ok.mp himport
    by_cases hauto : auto.truthy = true
    · rw [if_neg (not_not_intro hauto)] at himport
      obtain ⟨answer, hanswer, himport⟩ := bind_eq_ok.mp himport
      exact applyImported_ne_some hanswer res args himport
    · rw [if_pos hauto] at himport
      cases himport
  · rw [if_pos hsuccess] at himport
    cases himport

/-- Whatever the run and the import were, nothing is applied. -/
theorem applyCalls_eq_nil (env : CollectEnv) : applyCalls env = [] := by
  unfold applyCalls
  split
  · rename_i state last args hcollect
    obtain ⟨res, _, hcollect⟩ := bind_eq_ok.mp hcollect
    have happlied := congrArg Collected.applied (Except.ok.inj hcollect)
    exact absurd happlied (importResult_ne_some env res args)
  · rfl

/-! ## What is due -/

/-- A setting of the run that is on. -/
def SettingOn (res : Dict) (key : String) : Prop :=
  ∃ value, settingOf res key = .ok value ∧ value.truthy = true

/-- The run was successful, its strategies are in the catalog, `id` first, and it is to be applied. -/
def ToApply (env : CollectEnv) (id : Str) : Prop :=
  ∃ (res : Dict) (ids : List Str) (entries skipped : List Dict), env.result = .obj res ∧
    (res.get0 (lit "success")).truthy = true ∧ SettingOn res "auto_import" ∧ SettingOn res "auto_apply" ∧
    env.imported = .done (id :: ids) entries skipped

/-- The first imported strategy is applied if it is to be, and no other one is. -/
structure AsDue (env : CollectEnv) : Prop where
  applies : ∀ id, ToApply env id → applyCalls env = [[.str (lit "strategy"), .str id]]
  otherwise : (¬∃ id, ToApply env id) → applyCalls env = []

/-- **When a run is followed up as is due**: only if there is nothing to apply. -/
theorem collect_asDue_iff (env : CollectEnv) : AsDue env ↔ ¬∃ id, ToApply env id := by
  constructor
  · rintro hdue ⟨id, hid⟩
    have hcalls := hdue.applies id hid
    rw [applyCalls_eq_nil] at hcalls
    cases hcalls
  · intro hnone
    exact ⟨fun id hid => absurd ⟨id, hid⟩ hnone, fun _ => applyCalls_eq_nil env⟩

/-- A run that is to be imported and applied, and was imported. -/
def autoRun : CollectEnv where
  runId := lit "20260101-030000"
  rc := 0
  output := some (.obj [(lit "ok", .bool true), (lit "success", .bool true),
    (lit "settings", .obj [(lit "auto_import", .bool true), (lit "auto_apply", .bool true)])])
  stored := none
  imported := .done [lit "bcw_a_01"] [] []

omit [Tables] in
theorem autoRun_not_applied :
    letI := Tables.ascii
    ToApply autoRun (lit "bcw_a_01") ∧ (∃ c, collect autoRun = .ok c ∧ c.applied = .ok none) ∧
      ¬AsDue autoRun := by
  let _ := Tables.ascii
  have happly : ToApply autoRun (lit "bcw_a_01") :=
    ⟨_, [], [], [], rfl, rfl, ⟨_, rfl, rfl⟩, ⟨_, rfl, rfl⟩, rfl⟩
  refine ⟨happly, ⟨_, rfl, rfl⟩, ?_⟩
  intro hdue
  have hcalls := hdue.applies _ happly
  rw [applyCalls_eq_nil] at hcalls
  cases hcalls

end WebZapret.Panel.Http
