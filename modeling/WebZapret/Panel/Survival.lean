import WebZapret.Panel.OtherImports
import WebZapret.Catalog.Applicable

/-!
# What an import loses when the catalog cannot be read

`read_json` gives the default for a file that cannot be read, and the importers take that for an empty
catalog: they write one that has nothing but the new strategies (`unread_catalog_lost`).
`import_survives_iff` says when the other strategies survive.
-/

namespace WebZapret.Panel

open Py Failing Catalog Selection

variable [Tables]

/-- An import, from the data or the entries on. -/
inductive Import where
  | json (env : ImportEnv) (data : Json)
  | merge (entries skipped : List Dict)

/-- The operation on the catalog file. -/
def Import.task : Import → Task Stored Answer
  | .json env data => importStrategyFromJson env data
  | .merge entries skipped => bcwMerge entries skipped

/-- The strategies that the import puts into the catalog; `none` when it refuses its input. -/
def Import.added : Import → Option (List Dict)
  | .json env data =>
    match importBatch env data with
    | .ok (some batch) => (batch.entries env).toOption
    | _ => none
  | .merge entries _ => if entries = [] then none else some entries

/-- The imported ids. -/
def Import.ids (i : Import) : List Str := (i.added.getD []).map idText

/-- The strategies of a file. -/
def heldIn : Stored → List Json
  | some (.obj members) =>
    match members.lookup (lit "strategies") with
    | some (.arr items) => items
    | _ => []
  | _ => []

/-- The file is as before, or has every strategy that it had whose id is none of the given ones. -/
def Survives (ids : List Str) (before after : Stored) : Prop :=
  after = before ∨ ∀ s, .obj s ∈ heldIn before → idText s ∉ ids → .obj s ∈ heldIn after

/-- What a read gives. -/
def seenBy (reads : List Bool) (stored : Stored) : Stored :=
  if reads.headD true then stored else none

/-! ## The files -/

omit [Tables] in
theorem heldIn_of_holds {stored : Stored} {entries : List Dict} (h : Holds stored entries) :
    heldIn stored = entries.map .obj := by
  obtain ⟨members, rfl, hlookup⟩ := h
  rw [heldIn, hlookup]

omit [Tables] in
/-- The strategies that a file holds are those that an operation reads. -/
theorem mem_of_heldIn {stored : Stored} {old : List Dict} (hold : entriesOf stored = .ok old)
    {s : Dict} (hs : .obj s ∈ heldIn stored) : s ∈ old := by
  unfold heldIn at hs
  split at hs
  · split at hs
    · rename_i _ members _ items hlookup
      have hdict : (((some (Json.obj members)).getD emptyCatalog)).dict = .ok members := rfl
      rw [entriesOf_dict hdict, Dict.get, hlookup] at hold
      obtain ⟨s', hs', hsame⟩ := mem_mapM_of_mem hold hs
      cases hsame
      exact hs'
    · cases hs
  · cases hs

/-! ## The operations -/

/-- The strategies with other ids than the batch are kept. -/
theorem not_hasIdIn {env : ImportEnv} {batch : Batch} {added : List Dict} {s : Dict}
    (hadded : batch.entries env = .ok added) (hs : idText s ∉ added.map idText) :
    ¬HasIdIn batch.ids s := by
  intro hin
  obtain ⟨id, hid, his⟩ := hin
  obtain ⟨row, hrow, rfl⟩ := List.mem_map.mp hid
  obtain ⟨entry, hentry, hmade⟩ := mem_mapM_of_mem hadded hrow
  have hsame : idText s = idText entry := by
    rw [idText_of_lookup (get0_is_iff.mp his), idText_of_lookup (importEntry_lookup hmade)]
  exact hs (hsame ▸ List.mem_map_of_mem hentry)

/-- What an import writes when it has read a file. -/
def Import.output : Import → Stored → Option Json
  | .json env data, seen =>
    match importBatch env data with
    | .ok (some batch) => (addBatch env batch seen).toOption.map (·.1)
    | _ => none
  | .merge entries _, seen => if entries = [] then none else (mergeStored entries seen).toOption

theorem import_exec (i : Import) (reads writes : List Bool) (c : Stored) :
    (i.task.exec none reads writes c).1 =
      match i.output (seenBy reads c) with
      | none => c
      | some v => if writes.headD true then some v else c := by
  unfold seenBy
  cases i with
  | json env data =>
    simp only [Import.task, importStrategyFromJson, Import.output]
    cases importBatch env data with
    | error e => rfl
    | ok batch =>
      cases batch with
      | none => rfl
      | some batch =>
        simp only [Task.exec]
        cases addBatch env batch (if reads.headD true = true then c else none) with
        | error e => rfl
        | ok written =>
          simp only [Task.exec, Except.toOption, Option.map]
          by_cases hwrites : writes.headD true = true
          · rw [if_pos hwrites, if_pos hwrites]
          · rw [if_neg hwrites, if_neg hwrites]
  | merge entries skipped =>
    simp only [Import.task, bcwMerge, Import.output]
    by_cases hne : entries = []
    · rw [if_pos hne, if_pos hne]
      rfl
    · rw [if_neg hne, if_neg hne]
      simp only [Task.exec]
      cases mergeStored entries (if reads.headD true = true then c else none) with
      | error e => rfl
      | ok merged =>
        simp only [Task.exec, Except.toOption]
        by_cases hwrites : writes.headD true = true
        · rw [if_pos hwrites, if_pos hwrites]
        · rw [if_neg hwrites, if_neg hwrites]

omit [Tables] in
theorem toOption_eq_some {α : Type} {x : Result α} {a : α} : x.toOption = some a ↔ x = .ok a := by
  cases x <;> simp [Except.toOption]

/-- What is written has the strategies that were read, without some of those with imported ids, and
the new ones. -/
theorem Import.output_holds {i : Import} {seen : Stored} {v : Json} (h : i.output seen = some v) :
    ∃ added old p, i.added = some added ∧ entriesOf seen = .ok old ∧
      (∀ s, idText s ∉ i.ids → p s = true) ∧ Holds (some v) (old.filter p ++ added) := by
  cases i with
  | json env data =>
    simp only [Import.output] at h
    split at h
    · rename_i batch hbatch
      obtain ⟨⟨catalog, added⟩, hadd, rfl⟩ := Option.map_eq_some_iff.mp h
      obtain ⟨hadded, old, hold, hholds⟩ := addBatch_holds hbatch (toOption_eq_some.mp hadd)
      have hput : (Import.json env data).added = some added := by
        simp only [Import.added, hbatch]
        exact toOption_eq_some.mpr hadded
      refine ⟨added, old, _, hput, hold, fun s hs => ?_, hholds⟩
      rw [Import.ids, hput, Option.getD_some] at hs
      exact decide_eq_true (not_hasIdIn hadded hs)
    · cases h
  | merge entries skipped =>
    simp only [Import.output] at h
    split at h
    · cases h
    · rename_i hne
      obtain ⟨old, hold, hholds⟩ := mergeStored_holds (toOption_eq_some.mp h)
      have hput : (Import.merge entries skipped).added = some entries := if_neg hne
      refine ⟨entries, old, _, hput, hold, fun s hs => ?_, hholds⟩
      rw [Import.ids, hput, Option.getD_some] at hs
      exact decide_eq_true hs

/-- An import that is not refused writes something when the file cannot be read. -/
theorem Import.output_unread {i : Import} {added : List Dict} (h : i.added = some added) :
    ∃ v, i.output none = some v := by
  cases i with
  | json env data =>
    simp only [Import.added] at h
    split at h
    · rename_i batch hbatch
      have hempty : ∃ old, entriesIn (Json.arr [], ([] : List Dict)).1 = .ok old := ⟨[], rfl⟩
      obtain ⟨acc, hacc⟩ := importRows_ok (toOption_eq_some.mp h) hempty
      have hadd : ∃ catalog, addBatch env batch none = .ok catalog :=
        ⟨_, bind_eq_ok.mpr ⟨_, rfl, bind_eq_ok.mpr ⟨acc, hacc, rfl⟩⟩⟩
      obtain ⟨catalog, hadd⟩ := hadd
      exact ⟨catalog.1, by simp only [Import.output, hbatch, hadd]; rfl⟩
    · cases h
  | merge entries skipped =>
    simp only [Import.added] at h
    split at h
    · cases h
    · rename_i hne
      have hmerge : ∃ merged, mergeStored entries none = .ok merged := ⟨_, rfl⟩
      obtain ⟨merged, hmerge⟩ := hmerge
      exact ⟨merged, by simp only [Import.output, if_neg hne, hmerge]; rfl⟩

/-- Then it writes its own strategies only. -/
theorem import_exec_unread {i : Import} {reads writes : List Bool} {added : List Dict}
    (hadded : i.added = some added) (hreads : reads.headD true = false)
    (hwrites : writes.headD true = true) (c : Stored) :
    Holds (i.task.exec none reads writes c).1 added := by
  obtain ⟨v, hv⟩ := Import.output_unread hadded
  have hseen : seenBy reads c = none := if_neg (by rw [hreads]; decide)
  obtain ⟨added', old, p, hadded', hold, _, hholds⟩ := Import.output_holds hv
  rw [hadded] at hadded'
  cases hadded'
  cases hold
  rw [import_exec, hseen, hv]
  dsimp only
  rw [if_pos hwrites]
  exact hholds

/-- **When the other strategies survive an import.** -/
theorem import_survives_iff (i : Import) (reads writes : List Bool) (c : Stored) :
    Survives i.ids c (i.task.exec none reads writes c).1 ↔
      i.added = none ∨ writes.headD true = false ∨ reads.headD true = true ∨
        ∀ s, .obj s ∈ heldIn c → idText s ∈ i.ids := by
  constructor
  · intro h
    by_contra hnone
    simp only [not_or, Bool.not_eq_false, Bool.not_eq_true] at hnone
    obtain ⟨hadded, hwrites, hreads, hother⟩ := hnone
    obtain ⟨added, hadded⟩ := Option.ne_none_iff_exists'.mp hadded
    have hholds := import_exec_unread hadded hreads hwrites c
    have hids : i.ids = added.map idText := by rw [Import.ids, hadded, Option.getD_some]
    refine hother fun s hs => ?_
    by_contra hid
    have hmem : .obj s ∈ heldIn (i.task.exec none reads writes c).1 := by
      rcases h with hsame | hkept
      · rw [hsame]
        exact hs
      · exact hkept s hs hid
    rw [heldIn_of_holds hholds] at hmem
    obtain ⟨s', hs', hsame⟩ := List.mem_map.mp hmem
    cases hsame
    exact hid (hids ▸ List.mem_map_of_mem hs')
  · intro h
    rw [import_exec]
    split
    · exact .inl rfl
    · rename_i v hv
      by_cases hwrites : writes.headD true = true
      · rw [if_pos hwrites]
        obtain ⟨added, old, p, hadded, hold, hp, hholds⟩ := Import.output_holds hv
        refine .inr fun s hs hid => ?_
        rcases h with hnone | hfails | hreads | hall
        · rw [hadded] at hnone
          cases hnone
        · rw [hwrites] at hfails
          cases hfails
        · rw [seenBy, if_pos hreads] at hold
          have hkept : s ∈ old.filter p := List.mem_filter.mpr ⟨mem_of_heldIn hold hs, hp s hid⟩
          rw [heldIn_of_holds hholds]
          exact List.mem_map_of_mem (List.mem_append_left _ hkept)
        · exact absurd (hall s hs) hid
      · rw [if_neg hwrites]
        exact .inl rfl

omit [Tables]

/-- An import that cannot read the catalog leaves one without the strategy that it had. -/
theorem unread_catalog_lost : letI := Tables.ascii
    ¬∀ (i : Import) (reads writes : List Bool) (c : Stored),
      Survives i.ids c (i.task.exec none reads writes c).1 := by
  let _ := Tables.ascii
  intro h
  have hsurvives := h (.json .start (resultsOf (lit "--lua-desync=fake"))) [false] []
    (some (.obj [(lit "strategies", .arr [.obj [(lit "id", .str (lit "none"))]])]))
  rcases (import_survives_iff _ _ _ _).mp hsurvives with hnone | hfails | hreads | hall
  · cases hnone
  · cases hfails
  · cases hreads
  · have hmem := hall [(lit "id", .str (lit "none"))] (List.mem_singleton_self _)
    revert hmem
    decide

end WebZapret.Panel
