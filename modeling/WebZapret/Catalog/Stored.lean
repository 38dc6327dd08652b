import WebZapret.Catalog.Plan
import WebZapret.Lib.Tasks

/-!
# The stored catalog

`panel.py`: the catalog is one JSON file, read as a whole and written as a whole. The operations
are tasks on that file; a file that cannot be read, or holds no JSON, is `none`.
-/

namespace WebZapret.Catalog

open Py Failing

/-- The catalog file. -/
abbrev Stored := Option Json

/-- The default of `read_json(STRATEGIES_FILE, {"strategies": []})` -/
def emptyCatalog : Json := .obj [(lit "strategies", .arr [])]

/-- `strategies` -/
def strategies (stored : Stored) : Result Json := do
  let catalog ← (stored.getD emptyCatalog).dict
  return catalog.get (lit "strategies") (.arr [])

/-- `s.get("id", "")` -/
def idOf (s : Dict) : Json := s.get (lit "id") (.str [])

/-- `strategy_ids` -/
def strategyIds (stored : Stored) : Result (List Json) := do
  return (← entriesIn (← strategies stored)).map idOf

/-- `sid in ids` -/
def HasId (ids : List Json) (sid : Str) : Prop := ∃ x ∈ ids, x.Is sid

instance (ids : List Json) (sid : Str) : Decidable (HasId ids sid) := by
  unfold HasId
  infer_instance

/-- `active_strategy`; `cur` is the strategy that the panel's state names. -/
def activeStrategy (cur : Str) (stored : Stored) : Result Str := do
  return if HasId (← strategyIds stored) cur then cur else []

/-! ## Catalogs with a list of strategies -/

theorem entriesIn_arr (entries : List Dict) :
    entriesIn (.arr (entries.map .obj)) = .ok entries := by
  show (entries.map Json.obj).mapM Json.dict = .ok entries
  induction entries with
  | nil => rfl
  | cons e entries ih =>
    rw [List.map_cons, List.mapM_cons, ih]
    rfl

/-- `strategies or []` -/
theorem entriesIn_or {strategies : Json} {entries : List Dict}
    (h : entriesIn strategies = .ok entries) :
    entriesIn (strategies.or (.arr [])) = .ok entries := by
  unfold Json.or
  split
  · exact h
  · rename_i hfalsy
    obtain ⟨items, hitems, hmap⟩ := bind_eq_ok.mp h
    have hempty : items = [] := by
      by_contra hne
      cases strategies with
      | arr xs =>
        cases hitems
        exact hfalsy (by simpa [Json.truthy] using hne)
      | obj members =>
        cases hitems
        exact hfalsy (by simpa [Json.truthy] using hne)
      | str s =>
        cases hitems
        exact hfalsy (by simpa [Json.truthy] using hne)
      | null => cases hitems
      | bool b => cases hitems
      | int i => cases hitems
      | float x => cases hitems
    subst hempty
    cases hmap
    rfl

/-- The catalog is a dict whose strategies are these. -/
def Holds (stored : Stored) (entries : List Dict) : Prop :=
  ∃ members, stored = some (.obj members) ∧
    members.lookup (lit "strategies") = some (.arr (entries.map .obj))

theorem holds_set (members : Dict) (entries : List Dict) :
    Holds (some (.obj (members.set (lit "strategies") (.arr (entries.map .obj))))) entries :=
  ⟨_, rfl, Dict.lookup_set_self _ _ _⟩

theorem strategyIds_of_dict {stored : Stored} {members : Dict}
    (h : (stored.getD emptyCatalog).dict = .ok members) {ids : List Json} :
    strategyIds stored = .ok ids ↔
      ∃ entries, entriesIn (members.get (lit "strategies") (.arr [])) = .ok entries ∧
        ids = entries.map idOf := by
  have hstrategies : strategies stored = .ok (members.get (lit "strategies") (.arr [])) := by
    rw [strategies, h]
    rfl
  unfold strategyIds
  constructor
  · intro hids
    obtain ⟨value, hvalue, hmap⟩ := bind_eq_ok.mp hids
    rw [hstrategies] at hvalue
    cases hvalue
    obtain ⟨entries, hentries, hret⟩ := bind_eq_ok.mp hmap
    cases hret
    exact ⟨entries, hentries, rfl⟩
  · rintro ⟨entries, hentries, rfl⟩
    exact bind_eq_ok.mpr ⟨_, hstrategies, bind_eq_ok.mpr ⟨entries, hentries, rfl⟩⟩

theorem Holds.strategyIds {stored : Stored} {entries : List Dict} (h : Holds stored entries) :
    strategyIds stored = .ok (entries.map idOf) := by
  obtain ⟨members, rfl, hlookup⟩ := h
  have hmembers : ((some (Json.obj members)).getD emptyCatalog).dict = .ok members := rfl
  rw [strategyIds_of_dict hmembers]
  refine ⟨entries, ?_, rfl⟩
  rw [Dict.get, hlookup]
  exact entriesIn_arr entries

theorem idOf_of_get0 {s : Dict} {id : Str} (h : (s.get0 (lit "id")).Is id) : idOf s = .str id := by
  have hget : (s.lookup (lit "id")).getD .null = .str id := h
  cases hlookup : s.lookup (lit "id") with
  | none =>
    rw [hlookup] at hget
    cases hget
  | some x =>
    rw [hlookup] at hget
    rw [idOf, Dict.get, hlookup]
    exact hget

theorem lookup_of_idOf {s : Dict} {id : Str} (h : idOf s = .str id) (hne : id ≠ []) :
    s.lookup (lit "id") = some (.str id) := by
  unfold idOf Dict.get at h
  cases hlookup : s.lookup (lit "id") with
  | none =>
    rw [hlookup] at h
    cases h
    exact absurd rfl hne
  | some x =>
    rw [hlookup] at h
    exact congrArg some h

/-! ## Answers -/

/-- What a mutation that succeeds reports. -/
inductive Report where
  | imported (entries : List Dict)
  | deleted (id : Str) (left : List Json)
  | selected (ids : List Str) (entries skipped : List Dict)

/-- The answer of a mutation. -/
inductive Answer where
  /-- `ok` is true -/
  | ok (report : Report)
  /-- `ok` is false, with a text of the function -/
  | refused (error : Str) (skipped : List Dict)
  /-- `ok` is false, with the text of an exception -/
  | failed (e : Exc)
  /-- the exception leaves the function -/
  | raised (e : Exc)

def Answer.Ok (a : Answer) : Prop := ∃ report, a = .ok report

/-! ## Deleting -/

/-- `[x for x in strategies if x.get("id") != id]` -/
def withoutId (strategies : Json) (id : Str) : Result (List Dict) := do
  return (← entriesIn strategies).filter fun x => ¬(x.get0 (lit "id")).Is id

/-- The catalog without a strategy, and the ids that are left. -/
def dropStrategy (sid : Str) (stored : Stored) : Result (Json × List Json) := do
  let catalog ← ((stored.getD emptyCatalog).or emptyCatalog).dict
  let kept ← withoutId (catalog.get (lit "strategies") (.arr [])) sid
  return (.obj (catalog.set (lit "strategies") (.arr (kept.map .obj))),
    kept.map fun s => s.get0 (lit "id"))

/-- The end of `delete_strategy`. -/
def deleteDrop (sid : Str) : Task Stored Answer :=
  .read fun stored =>
    match dropStrategy sid stored with
    | .error e => .ret (.raised e)
    | .ok (catalog, left) => .write (some catalog) fun saved => .ret <|
        if saved then .ok (.deleted sid left)
        else .refused (lit "failed to write strategies file") []

/-- The checks of `delete_strategy` after the first one. -/
def deleteChecked (cur sid : Str) : Task Stored Answer :=
  if sid = lit "none" then
    .ret (.refused (lit "the built-in 'none' strategy cannot be deleted") [])
  else .read fun stored =>
    match activeStrategy cur stored with
    | .error e => .ret (.raised e)
    | .ok active =>
      if sid = active then
        .ret (.refused (lit "cannot delete the ACTIVE strategy — switch to another one first") [])
      else deleteDrop sid

/-- `delete_strategy` of an id that is a string. -/
def deleteId (cur sid : Str) : Task Stored Answer :=
  .read fun stored =>
    match strategyIds stored with
    | .error e => .ret (.raised e)
    | .ok ids =>
      if HasId ids sid then deleteChecked cur sid
      else .ret (.refused (lit "unknown strategy '" ++ sid ++ lit "'") [])

/-- `delete_strategy` -/
def deleteStrategy [Tables] (cur : Str) (strategyId : Json) : Task Stored Answer :=
  deleteId cur (strategyId.or (.str [])).text

/-! ## What deleting leaves -/

theorem withoutId_eq {strategies : Json} {entries : List Dict} (h : entriesIn strategies = .ok entries)
    (id : Str) :
    withoutId strategies id = .ok (entries.filter fun x => ¬(x.get0 (lit "id")).Is id) := by
  rw [withoutId, h]
  rfl

/-- What is left of a catalog with a list of strategies. -/
theorem dropStrategy_of_holds {members : Dict} {entries : List Dict}
    (h : members.lookup (lit "strategies") = some (.arr (entries.map .obj))) (sid : Str) :
    dropStrategy sid (some (.obj members)) =
      .ok (.obj (members.set (lit "strategies")
          (.arr ((entries.filter fun x => ¬(x.get0 (lit "id")).Is sid).map .obj))),
        (entries.filter fun x => ¬(x.get0 (lit "id")).Is sid).map fun s => s.get0 (lit "id")) := by
  have htruthy : (Json.obj members).truthy := by
    cases members with
    | nil => cases h
    | cons m members => rfl
  have hmembers : (((some (Json.obj members)).getD emptyCatalog).or emptyCatalog).dict =
      .ok members := by
    rw [Option.getD_some, Json.or, if_pos htruthy]
    rfl
  have hentries : entriesIn (Dict.get members (lit "strategies") (.arr [])) = .ok entries := by
    rw [Dict.get, h]
    exact entriesIn_arr entries
  exact bind_eq_ok.mpr ⟨members, hmembers, bind_eq_ok.mpr ⟨_, withoutId_eq hentries sid, rfl⟩⟩

theorem activeStrategy_of_holds {cur : Str} {stored : Stored} {entries : List Dict}
    (hholds : Holds stored entries) :
    activeStrategy cur stored = .ok (if HasId (entries.map idOf) cur then cur else []) :=
  bind_eq_ok.mpr ⟨_, hholds.strategyIds, rfl⟩

/-- Dropping one id keeps the others. -/
theorem hasId_filter {entries : List Dict} {id cur : Str} (hne : cur ≠ id)
    (h : HasId (entries.map idOf) cur) :
    HasId ((entries.filter fun x => ¬(x.get0 (lit "id")).Is id).map idOf) cur := by
  obtain ⟨x, hx, hcur⟩ := h
  obtain ⟨s, hs, rfl⟩ := List.mem_map.mp hx
  refine ⟨idOf s, List.mem_map.mpr ⟨s, List.mem_filter.mpr ⟨hs, ?_⟩, rfl⟩, hcur⟩
  rw [decide_eq_true_eq]
  intro hid
  have heq : Json.str id = .str cur := (idOf_of_get0 hid).symm.trans hcur
  exact hne (Json.str.inj heq).symm

/-- Dropping an id that no strategy has changes nothing. -/
theorem filter_eq_self_of_absent {entries : List Dict} {id : Str}
    (h : ¬HasId (entries.map idOf) id) :
    (entries.filter fun x => ¬(x.get0 (lit "id")).Is id) = entries := by
  rw [List.filter_eq_self]
  intro s hs
  rw [decide_eq_true_eq]
  intro hid
  exact h ⟨idOf s, List.mem_map_of_mem hs, idOf_of_get0 hid⟩

/-- `read_json(...) or {"strategies": []}` has the same strategies. -/
theorem get_or_emptyCatalog {catalog : Json} {members members' : Dict}
    (h : catalog.dict = .ok members) (h' : (catalog.or emptyCatalog).dict = .ok members') :
    members'.get (lit "strategies") (.arr []) = members.get (lit "strategies") (.arr []) := by
  cases catalog with
  | obj d =>
    cases h
    cases members with
    | nil =>
      cases h'
      rfl
    | cons m d =>
      cases h'
      rfl
  | null => cases h
  | bool b => cases h
  | int i => cases h
  | float x => cases h
  | str s => cases h
  | arr items => cases h

end WebZapret.Catalog
