import WebZapret.Catalog.Ids

/-!
# What an import of test results writes

The loop of `import_strategy_from_json` drops the strategies with the ids of the batch one by one, and
puts the batch behind the ones that are left (`importRows_eq`).
-/

namespace WebZapret.Catalog

open Py Failing

theorem get0_is_iff {s : Dict} {sid : Str} :
    (s.get0 (lit "id")).Is sid ↔ s.lookup (lit "id") = some (.str sid) := by
  rw [Dict.get0, Dict.get, Json.Is]
  cases s.lookup (lit "id") with
  | none => simp
  | some x => simp

/-- One of the ids is that of the strategy. -/
def HasIdIn (ids : List Str) (s : Dict) : Prop := ∃ id ∈ ids, (s.get0 (lit "id")).Is id

instance (ids : List Str) (s : Dict) : Decidable (HasIdIn ids s) := by
  unfold HasIdIn
  infer_instance

theorem hasIdIn_cons {id : Str} {ids : List Str} {s : Dict} :
    HasIdIn (id :: ids) s ↔ (s.get0 (lit "id")).Is id ∨ HasIdIn ids s := by
  simp [HasIdIn]

/-- The ids of a batch. -/
def Batch.ids (batch : Batch) : List Str :=
  batch.rows.zipIdx.map fun row => importId batch.idBase row.2

theorem Batch.ids_nodup (batch : Batch) : batch.ids.Nodup := by
  have hids : batch.ids = (batch.rows.zipIdx.map Prod.snd).map (importId batch.idBase) := by
    rw [List.map_map]
    rfl
  rw [hids, List.zipIdx_map_snd]
  exact List.Nodup.map (fun _ _ h => importId_injective h) List.nodup_range'

variable [Tables]

theorem idText_of_lookup {s : Dict} {id : Str} (h : s.lookup (lit "id") = some (.str id)) :
    idText s = id := by
  rw [idText, Dict.get0, Dict.get, h]
  rfl

/-- The strategies of a batch, best first. -/
def Batch.entries (env : ImportEnv) (batch : Batch) : Result (List Dict) :=
  batch.rows.zipIdx.mapM fun row => importEntry env batch.domain (importId batch.idBase row.2) row.1

/-- A row of an import reads a list of strategies and leaves one. -/
theorem importRow_lists {env : ImportEnv} {batch : Batch} {acc acc' : Json × List Dict}
    {row : Dict × Nat} (h : importRow env batch acc row = .ok acc') :
    (∃ old, entriesIn acc.1 = .ok old) ∧ ∃ new : List Dict, acc'.1 = .arr (new.map .obj) := by
  unfold importRow at h
  obtain ⟨entry, _, hrest⟩ := bind_eq_ok.mp h
  obtain ⟨kept, hkept, hret⟩ := bind_eq_ok.mp hrest
  cases hret
  unfold withoutId at hkept
  obtain ⟨old, hold, _⟩ := bind_eq_ok.mp hkept
  exact ⟨⟨old, hold⟩, _, rfl⟩

/-- So does the loop, which has at least one row. -/
theorem importRows_lists {env : ImportEnv} {batch : Batch} {rows : List (Dict × Nat)}
    {acc acc' : Json × List Dict} (hrows : rows ≠ [])
    (h : rows.foldlM (importRow env batch) acc = .ok acc') :
    (∃ old, entriesIn acc.1 = .ok old) ∧ ∃ new : List Dict, acc'.1 = .arr (new.map .obj) := by
  cases rows with
  | nil => exact absurd rfl hrows
  | cons row rows =>
    rw [List.foldlM_cons] at h
    obtain ⟨mid, hmid, hrest⟩ := bind_eq_ok.mp h
    obtain ⟨hold, hlist⟩ := importRow_lists hmid
    refine ⟨hold, foldlM_induct (fun acc : Json × List Dict => ∃ new : List Dict,
      acc.1 = .arr (new.map .obj)) ?_ hlist hrest⟩
    intro acc _ row _ acc' hrow
    exact (importRow_lists hrow).2

/-- The loop of an import puts the new strategies behind the other ones. -/
theorem importRows_eq {env : ImportEnv} {batch : Batch} {rows : List (Dict × Nat)}
    (hnodup : (rows.map fun row => importId batch.idBase row.2).Nodup)
    {strategies strategies' : Json} {kept done imported : List Dict}
    (hold : entriesIn strategies = .ok (kept ++ done))
    (hdone : ∀ s ∈ done, ¬HasIdIn (rows.map fun row => importId batch.idBase row.2) s)
    (h : rows.foldlM (importRow env batch) (strategies, done) = .ok (strategies', imported)) :
    ∃ new, (rows.mapM fun row =>
        importEntry env batch.domain (importId batch.idBase row.2) row.1) = .ok new ∧
      imported = done ++ new ∧
      entriesIn strategies' = .ok ((kept.filter fun s =>
        ¬HasIdIn (rows.map fun row => importId batch.idBase row.2) s) ++ (done ++ new)) := by
  induction rows generalizing strategies kept done with
  | nil =>
    cases h
    refine ⟨[], rfl, (List.append_nil _).symm, ?_⟩
    rw [hold]
    simp [HasIdIn]
  | cons row rows ih =>
    rw [List.map_cons, List.nodup_cons] at hnodup
    rw [List.foldlM_cons] at h
    obtain ⟨acc, hrow, hrest⟩ := bind_eq_ok.mp h
    unfold importRow at hrow
    obtain ⟨entry, hentry, hrow⟩ := bind_eq_ok.mp hrow
    obtain ⟨others, hothers, hrow⟩ := bind_eq_ok.mp hrow
    cases hrow
    rw [withoutId_eq hold] at hothers
    cases hothers
    have hentryId := importEntry_lookup hentry
    -- what the earlier rows have added stays
    have hkeepDone : (done.filter fun s => ¬(s.get0 (lit "id")).Is (importId batch.idBase row.2)) =
        done := by
      rw [List.filter_eq_self]
      intro s hs
      rw [decide_eq_true_eq]
      exact fun hid => hdone s hs ⟨_, List.mem_map_of_mem List.mem_cons_self, hid⟩
    rw [List.filter_append, hkeepDone, List.append_assoc] at hrest
    have hdone' : ∀ s ∈ done ++ [entry],
        ¬HasIdIn (rows.map fun row => importId batch.idBase row.2) s := by
      intro s hs hin
      obtain ⟨id, hid, his⟩ := hin
      rcases List.mem_append.mp hs with hs | hs
      · exact hdone s hs ⟨id, List.mem_cons_of_mem _ hid, his⟩
      · rw [List.mem_singleton.mp hs, get0_is_iff, hentryId] at his
        cases his
        exact hnodup.1 hid
    obtain ⟨new, hnew, rfl, hstrategies⟩ := ih hnodup.2 (entriesIn_arr _) hdone' hrest
    refine ⟨entry :: new, ?_, by simp, ?_⟩
    · rw [List.mapM_cons]
      exact bind_eq_ok.mpr ⟨entry, hentry, bind_eq_ok.mpr ⟨new, hnew, rfl⟩⟩
    · rw [hstrategies, List.filter_filter, List.append_assoc, List.singleton_append]
      refine congrArg (fun l => Except.ok (l ++ (done ++ entry :: new))) (List.filter_congr fun s _ => ?_)
      by_cases hid : (s.get0 (lit "id")).Is (importId batch.idBase row.2)
      · simp [hasIdIn_cons, hid]
      · simp [hasIdIn_cons, hid]

/-- The loop goes through when every strategy of the batch can be made. -/
theorem importRows_ok {env : ImportEnv} {batch : Batch} {rows : List (Dict × Nat)}
    {added : List Dict} (hadded : (rows.mapM fun row =>
      importEntry env batch.domain (importId batch.idBase row.2) row.1) = .ok added)
    {acc : Json × List Dict} (hold : ∃ old, entriesIn acc.1 = .ok old) :
    ∃ acc', rows.foldlM (importRow env batch) acc = .ok acc' := by
  induction rows generalizing acc added with
  | nil => exact ⟨acc, rfl⟩
  | cons row rows ih =>
    rw [List.mapM_cons] at hadded
    obtain ⟨entry, hentry, hadded⟩ := bind_eq_ok.mp hadded
    obtain ⟨rest, hrest, _⟩ := bind_eq_ok.mp hadded
    obtain ⟨old, hold⟩ := hold
    have hrow : ∃ new : List Dict, importRow env batch acc row =
        .ok (.arr (new.map .obj), acc.2 ++ [entry]) :=
      ⟨_, bind_eq_ok.mpr ⟨entry, hentry, bind_eq_ok.mpr ⟨_, withoutId_eq hold _, rfl⟩⟩⟩
    obtain ⟨new, hnew⟩ := hrow
    have hlist : ∃ old, entriesIn (Json.arr (new.map .obj), acc.2 ++ [entry]).1 = .ok old :=
      ⟨new, entriesIn_arr new⟩
    obtain ⟨acc', hacc'⟩ := ih hrest hlist
    rw [List.foldlM_cons]
    exact ⟨acc', bind_eq_ok.mpr ⟨_, hnew, hacc'⟩⟩

end WebZapret.Catalog
