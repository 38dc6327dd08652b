import WebZapret.Selection.Soundness
import WebZapret.Selection.Schedule

/-!
# The two stores

`save_settings` merges the known keys of an update into the raw values of the file, checks the
result and writes it if it has no errors; `reset_settings` removes the file. The raw values stay
raw: coercion happens on reading. `save_schedule` does the same to the file that it shares with the
scheduler, whose `next_run` and `last_run` are no keys of the block.

A store carries, as a ghost, the updates that reported `saved` since the last reset. The file is
always their merge (`SettingsStore.file_eq`, `ScheduleStore.file_sameOn`).

Main result: `stores_keep_accepted`.
-/

namespace WebZapret.Selection

open Py Failing

/-- The known keys of the updates, one after the other. -/
def mergedUpdates (keys : List Str) (updates : List Dict) : Dict :=
  updates.foldl (updateKnown keys) []

theorem mergedUpdates_append (keys : List Str) (updates : List Dict) (values : Dict) :
    mergedUpdates keys (updates ++ [values]) =
      updateKnown keys (mergedUpdates keys updates) values := by
  rw [mergedUpdates, List.foldl_append]
  rfl

/-- An update does the same to two dicts that agree on the keys of the block. -/
theorem updateKnown_sameOn {keys : List Str} {d d' : Dict} (h : SameOn keys d d')
    (values : Dict) : SameOn keys (updateKnown keys d values) (updateKnown keys d' values) := by
  induction values generalizing d d' with
  | nil => exact h
  | cons m values ih =>
    by_cases hm : m.1 ∈ keys
    · have hset : SameOn keys (d.set m.1 m.2) (d'.set m.1 m.2) := by
        intro key hkey
        by_cases heq : key = m.1
        · rw [heq, Dict.lookup_set_self, Dict.lookup_set_self]
        · rw [Dict.lookup_set_ne _ heq, Dict.lookup_set_ne _ heq]
          exact h key hkey
      simpa only [updateKnown, List.foldl_cons, if_pos hm] using ih hset
    · simpa only [updateKnown, List.foldl_cons, if_neg hm] using ih h

/-- An update leaves the other keys alone. -/
theorem updateKnown_other {keys : List Str} {key : Str} (h : key ∉ keys) (d values : Dict) :
    (updateKnown keys d values).lookup key = d.lookup key := by
  induction values generalizing d with
  | nil => rfl
  | cons m values ih =>
    have hstep := ih (if m.1 ∈ keys then d.set m.1 m.2 else d)
    refine hstep.trans ?_
    split
    · rename_i hm
      have hne : key ≠ m.1 := by
        rintro rfl
        exact h hm
      exact Dict.lookup_set_ne _ hne _
    · rfl

/-- The value of a key after an update is that of the update, if it has one. -/
theorem updateKnown_or (keys : List Str) (key : Str) {d e c : Dict}
    (h : d.lookup key = (e.lookup key).or (c.lookup key)) (values : Dict) :
    (updateKnown keys d values).lookup key =
      ((updateKnown keys e values).lookup key).or (c.lookup key) := by
  induction values generalizing d e with
  | nil => exact h
  | cons m values ih =>
    by_cases hm : m.1 ∈ keys
    · have hset : (d.set m.1 m.2).lookup key = ((e.set m.1 m.2).lookup key).or (c.lookup key) := by
        by_cases heq : key = m.1
        · rw [heq, Dict.lookup_set_self, Dict.lookup_set_self]
          rfl
        · rw [Dict.lookup_set_ne _ heq, Dict.lookup_set_ne _ heq, h]
      simpa only [updateKnown, List.foldl_cons, if_pos hm] using ih hset
    · simpa only [updateKnown, List.foldl_cons, if_neg hm] using ih h

/-- An update adds known keys only. -/
theorem mem_keys_updateKnown {keys : List Str} {d values : Dict} {key : Str}
    (h : key ∈ (updateKnown keys d values).map (·.1)) : key ∈ d.map (·.1) ∨ key ∈ keys := by
  by_cases hkey : key ∈ keys
  · exact .inr hkey
  refine .inl ?_
  by_contra hd
  have hnone {l : Dict} : l.lookup key = none ↔ key ∉ l.map (·.1) := by
    simp only [List.lookup_eq_none_iff, List.mem_map, not_exists, not_and]
    exact forall₂_congr fun m _ => by simpa using ne_comm
  exact hnone.mp ((updateKnown_other hkey d values).trans (hnone.mpr hd)) h

/-- What a save reports: the merged block with its warnings and errors, and `saved`. -/
structure Answer where
  merged : Normalized
  saved : Bool

/-- How both functions end: a block with errors is not written, and a write may fail. -/
def writeMerged (file : SettingsFile) (values : Dict) (merged : Normalized) (writes : Bool) :
    SettingsFile × Answer :=
  if merged.errors = [] then (if writes then some values else file, ⟨merged, writes⟩)
  else (file, ⟨merged, false⟩)

/-- A key that the written values have as before has the value that it had. -/
theorem writeMerged_lookup {file : SettingsFile} {values : Dict} {key : Str}
    (h : values.lookup key = (persisted file).lookup key) (merged : Normalized) (writes : Bool) :
    (persisted (writeMerged file values merged writes).1).lookup key =
      (persisted file).lookup key := by
  unfold writeMerged
  split
  · cases writes with
    | true => exact h
    | false => rfl
  · rfl

variable [Tables]

/-- `save_settings`; `writes` says whether `write_json` succeeds. -/
def saveSettings (environ : Str → Option Str) (values : Dict) (writes : Bool)
    (file : SettingsFile) : Result (SettingsFile × Answer) := do
  let updated := updateKnown settingsKeys (persisted file) values
  let merged ← normalizeSettings updated (settingsDefaults environ)
  return writeMerged file updated merged writes

/-- `reset_settings`; `removed` is false when `os.unlink` raises and the file stays. -/
def resetSettings (removed : Bool) (file : SettingsFile) : SettingsFile :=
  if removed then none else file

/-- `env_defaults(environ, SCHEDULE_SPEC, _ENV_PREFIX + "SCHEDULE_")` -/
def scheduleDefaults (environ : Str → Option Str) : Dict :=
  envDefaults environ scheduleSpec (lit "BCW_SCHEDULE_")

/-- `save_schedule` -/
def saveSchedule (environ : Str → Option Str) (values : Dict) (writes : Bool)
    (file : SettingsFile) : Result (SettingsFile × Answer) := do
  let (updated, merged) ← mergedSchedule (scheduleDefaults environ) (.obj values)
    (file.map .obj)
  return writeMerged file updated merged writes

/-! ## Nothing is raised -/

omit [Tables] in
theorem scheduleSpec_wellFormed : ∀ spec ∈ scheduleSpec, spec.WellFormed := by
  unfold scheduleSpec
  simp only [List.forall_mem_cons, List.not_mem_nil, false_implies, implies_true, and_true]
  exact ⟨⟨⟨_, rfl⟩, nofun⟩, ⟨⟨_, by decide, rfl⟩, nofun⟩,
    ⟨⟨5, 10080, 360, rfl, rfl, rfl, by decide, by decide⟩, nofun⟩,
    ⟨⟨_, rfl, by decide⟩, nofun⟩, ⟨⟨weekdays, rfl, by decide⟩, nofun⟩, ⟨⟨_, rfl⟩, nofun⟩⟩

theorem normalizeSchedule_ok (environ : Str → Option Str) (values : Dict) :
    ∃ n, normalizeSchedule values (scheduleDefaults environ) = .ok n := by
  have hkeys : (scheduleSpec.map (·.key)).Nodup := by decide
  have hcoerce : ∀ spec ∈ scheduleSpec, ∀ raw v, coerce spec raw = .ok v → Clean spec v :=
    fun spec hspec _ _ => coerce_clean (scheduleSpec_wellFormed spec hspec)
  have hbase : Values Clean scheduleSpec (scheduleDefaults environ) :=
    envDefaults_values hkeys (fun spec h => (scheduleSpec_wellFormed spec h).default) hcoerce _ _
  have hclean := normalize_values hkeys hcoerce hbase values
  obtain ⟨days, hdays, texts, rfl, _⟩ := hclean _ (List.mem_of_getElem? (i := 4) rfl)
  obtain ⟨minutes, hminutes, _, _, i, _, _, rfl, _⟩ :=
    hclean _ (List.mem_of_getElem? (i := 2) rfl)
  have hiter : ((normalize scheduleSpec values (scheduleDefaults environ)).1.get (lit "days")
      (.arr [])).iter = .ok (texts.map .str) := by
    rw [get_of_lookup hdays]
    rfl
  have hint (days : Json) : (((normalize scheduleSpec values (scheduleDefaults environ)).1.set
      (lit "days") days).get (lit "interval_min") (.int 360)).toInt = .ok i := by
    rw [Dict.get, Dict.lookup_set_ne _ (by decide), ← Dict.get, get_of_lookup hminutes]
    rfl
  unfold normalizeSchedule
  dsimp only
  exact ⟨_, bind_eq_ok.mpr ⟨_, hiter, bind_eq_ok.mpr ⟨i, hint _, rfl⟩⟩⟩

/-! ## One save -/

omit [Tables] in
/-- A save that is not reported leaves the file alone. -/
theorem writeMerged_not_saved {file : SettingsFile} {values : Dict} {merged : Normalized}
    {writes : Bool} (h : (writeMerged file values merged writes).2.saved = false) :
    (writeMerged file values merged writes).1 = file := by
  unfold writeMerged at h ⊢
  split
  · rename_i herrors
    rw [if_pos herrors] at h
    have hwrites : writes = false := h
    rw [hwrites]
    rfl
  · rfl

omit [Tables] in
/-- A save that is reported has written the values and reports what they are. -/
theorem writeMerged_saved {file : SettingsFile} {values : Dict} {merged : Normalized}
    {writes : Bool} (h : (writeMerged file values merged writes).2.saved = true) :
    writeMerged file values merged writes = (some values, ⟨merged, true⟩) := by
  unfold writeMerged at h ⊢
  split
  · rename_i herrors
    rw [if_pos herrors] at h
    have hwrites : writes = true := h
    rw [hwrites]
    rfl
  · rename_i herrors
    rw [if_neg herrors] at h
    cases h

theorem saveSettings_eq (environ : Str → Option Str) (values : Dict) (writes : Bool)
    (file : SettingsFile) :
    ∃ merged, normalizeSettings (updateKnown settingsKeys (persisted file) values)
        (settingsDefaults environ) = .ok merged ∧
      saveSettings environ values writes file =
        .ok (writeMerged file (updateKnown settingsKeys (persisted file) values) merged writes) := by
  obtain ⟨merged, hmerged⟩ := normalizeSettings_ok environ
    (updateKnown settingsKeys (persisted file) values)
  exact ⟨merged, hmerged, bind_eq_ok.mpr ⟨merged, hmerged, rfl⟩⟩

omit [Tables] in
theorem stateOf_obj? (file : SettingsFile) : stateOf (file.map .obj) = .ok (persisted file) := by
  cases file with
  | none => rfl
  | some d =>
    cases d with
    | nil => rfl
    | cons m d => rfl

theorem saveSchedule_eq (environ : Str → Option Str) (values : Dict) (writes : Bool)
    (file : SettingsFile) :
    ∃ merged, normalizeSchedule (updateKnown scheduleKeys (persisted file) values)
        (scheduleDefaults environ) = .ok merged ∧
      saveSchedule environ values writes file =
        .ok (writeMerged file (updateKnown scheduleKeys (persisted file) values) merged writes) := by
  obtain ⟨merged, hmerged⟩ := normalizeSchedule_ok environ
    (updateKnown scheduleKeys (persisted file) values)
  have hvalues : ((Json.obj values).or (.obj [])).dict = .ok values := by
    cases values with
    | nil => rfl
    | cons m values => rfl
  have hboth : mergedSchedule (scheduleDefaults environ) (.obj values) (file.map .obj) =
      .ok (updateKnown scheduleKeys (persisted file) values, merged) :=
    bind_eq_ok.mpr ⟨_, stateOf_obj? file, bind_eq_ok.mpr ⟨values, hvalues,
      bind_eq_ok.mpr ⟨merged, hmerged, rfl⟩⟩⟩
  exact ⟨merged, hmerged, bind_eq_ok.mpr ⟨_, hboth, rfl⟩⟩

/-! ## The stores -/

/-- A file, and the updates that reported `saved` since the last reset. -/
structure Stored where
  file : SettingsFile
  accepted : List Dict

/-- There is no file yet. -/
def Stored.empty : Stored := ⟨none, []⟩

/-- The store after a save. -/
def Stored.record (s : Stored) (values : Dict) (r : SettingsFile × Answer) : Stored :=
  ⟨r.1, if r.2.saved then s.accepted ++ [values] else s.accepted⟩

inductive SettingsCall where
  | save (values : Dict) (writes : Bool)
  | reset (removed : Bool)

/-- The file of the settings under any calls. -/
def settingsStore (environ : Str → Option Str) : Machine Stored SettingsCall where
  step s
    | .save values writes =>
      (saveSettings environ values writes s.file).toOption.map (s.record values)
    | .reset removed =>
      some ⟨resetSettings removed s.file, if removed then [] else s.accepted⟩

/-- The keys of the scheduler's state. -/
def schedulerKeys : List Str := [lit "next_run", lit "last_run"]

inductive ScheduleCall where
  | save (values : Dict) (writes : Bool)
  /-- the scheduler, or the handler of a request, sets or removes a key of its own -/
  | stamp (key : Str) (value : Option Json)

/-- The file of the schedule under any calls. -/
def scheduleStore (environ : Str → Option Str) : Machine Stored ScheduleCall where
  step s
    | .save values writes =>
      (saveSchedule environ values writes s.file).toOption.map (s.record values)
    | .stamp key value =>
      if key ∈ schedulerKeys then
        some { s with file := some (match value with
          | some v => (persisted s.file).set key v
          | none => (persisted s.file).pop key) }
      else none

omit [Tables] in
/-- A save keeps the relation of the file's values to the recorded updates. -/
theorem record_values {R : Dict → Dict → Prop} {s : Stored} {keys : List Str} {values : Dict}
    (h : R (persisted s.file) (mergedUpdates keys s.accepted))
    (hupdate : ∀ d d', R d d' → R (updateKnown keys d values) (updateKnown keys d' values))
    (merged : Normalized) (writes : Bool) :
    let s' := s.record values
      (writeMerged s.file (updateKnown keys (persisted s.file) values) merged writes)
    R (persisted s'.file) (mergedUpdates keys s'.accepted) := by
  cases hsaved : (writeMerged s.file (updateKnown keys (persisted s.file) values) merged
      writes).2.saved with
  | false =>
    dsimp only [Stored.record]
    rw [writeMerged_not_saved hsaved, hsaved]
    exact h
  | true =>
    dsimp only [Stored.record]
    rw [writeMerged_saved hsaved, if_pos rfl, mergedUpdates_append]
    exact hupdate _ _ h

theorem settingsStore_file_eq (environ : Str → Option Str) (calls : List SettingsCall) :
    (settingsStore environ).Always
      (fun s => persisted s.file = mergedUpdates settingsKeys s.accepted) .empty calls := by
  refine Machine.always_of_step
    (I := fun s : Stored => persisted s.file = mergedUpdates settingsKeys s.accepted) _ ?_ rfl calls
  intro s call t h hstep
  cases call with
  | save values writes =>
    obtain ⟨merged, _, hsave⟩ := saveSettings_eq environ values writes s.file
    have hstep : (saveSettings environ values writes s.file).toOption.map (s.record values) =
        some t := hstep
    rw [hsave] at hstep
    cases hstep
    exact record_values (R := Eq) h (fun _ _ => congrArg (updateKnown settingsKeys · values)) merged
      writes
  | reset removed =>
    cases removed with
    | false =>
      cases hstep
      exact h
    | true =>
      cases hstep
      rfl

theorem scheduleStore_sameOn (environ : Str → Option Str) (calls : List ScheduleCall) :
    (scheduleStore environ).Always
      (fun s => SameOn scheduleKeys (persisted s.file) (mergedUpdates scheduleKeys s.accepted))
      .empty calls := by
  apply Machine.always_of_step _ _ (fun _ _ => rfl)
  intro s call t h hstep
  cases call with
  | save values writes =>
    obtain ⟨merged, _, hsave⟩ := saveSchedule_eq environ values writes s.file
    have hstep : (saveSchedule environ values writes s.file).toOption.map (s.record values) =
        some t := hstep
    rw [hsave] at hstep
    cases hstep
    exact record_values (R := SameOn scheduleKeys) h
      (fun _ _ hsame => updateKnown_sameOn hsame values) merged writes
  | stamp key value =>
    unfold scheduleStore at hstep
    dsimp only at hstep
    by_cases hkey : key ∈ schedulerKeys
    · rw [if_pos hkey] at hstep
      cases hstep
      have hother : ∀ k ∈ scheduleKeys, k ≠ key := by
        rintro k hk rfl
        revert k
        decide
      intro k hk
      cases value with
      | some v => exact (Dict.lookup_set_ne _ (hother k hk) v).trans (h k hk)
      | none => exact (Dict.lookup_pop_ne _ (hother k hk)).trans (h k hk)
    · rw [if_neg hkey] at hstep
      cases hstep

/-! ## What is loaded -/

/-- What a save reports, given what is loaded before and after it. -/
structure Reported (load : SettingsFile → Result Normalized) (file file' : SettingsFile)
    (answer : Answer) : Prop where
  refused : answer.saved = false → file' = file
  saved : answer.saved = true → load file' = .ok answer.merged

omit [Tables] in
/-- What is loaded after a save is what the save reports. -/
theorem reported_of_write {load : SettingsFile → Result Normalized} {file : SettingsFile}
    {values : Dict} {merged : Normalized} (hload : load (some values) = .ok merged)
    (writes : Bool) :
    Reported load file (writeMerged file values merged writes).1
      (writeMerged file values merged writes).2 where
  refused := writeMerged_not_saved
  saved hsaved := by
    rw [writeMerged_saved hsaved]
    exact hload

theorem loadSchedule_eq (environ : Str → Option Str) (file : SettingsFile) :
    loadSchedule (scheduleDefaults environ) (file.map .obj) =
      normalizeSchedule (persisted file) (scheduleDefaults environ) := by
  unfold loadSchedule
  rw [stateOf_obj?]
  rfl

/-- **The stores keep the accepted updates.** After any calls, the settings and the schedule that
are loaded are the accepted updates, merged and normalized over the defaults of the environment; a
save returns, reports what is loaded next, or leaves the file alone. A save of the schedule keeps
the state of the scheduler. -/
theorem stores_keep_accepted (environ : Str → Option Str) :
    (∀ calls s, (settingsStore environ).run .empty calls = some s →
      loadSettings environ s.file =
        normalizeSettings (mergedUpdates settingsKeys s.accepted) (settingsDefaults environ) ∧
      ∀ values writes, ∃ file' answer, saveSettings environ values writes s.file =
        .ok (file', answer) ∧ Reported (loadSettings environ) s.file file' answer) ∧
    (∀ calls s, (scheduleStore environ).run .empty calls = some s →
      loadSchedule (scheduleDefaults environ) (s.file.map .obj) =
        normalizeSchedule (mergedUpdates scheduleKeys s.accepted) (scheduleDefaults environ) ∧
      ∀ values writes, ∃ file' answer, saveSchedule environ values writes s.file =
        .ok (file', answer) ∧
        Reported (fun file => loadSchedule (scheduleDefaults environ) (file.map .obj)) s.file file'
          answer ∧
        ∀ key ∈ schedulerKeys, (persisted file').lookup key = (persisted s.file).lookup key) := by
  constructor
  · intro calls s hrun
    have hfile := (settingsStore_file_eq environ calls).last hrun
    refine ⟨by rw [loadSettings, hfile], fun values writes => ?_⟩
    obtain ⟨merged, hmerged, hsave⟩ := saveSettings_eq environ values writes s.file
    exact ⟨_, _, hsave, reported_of_write hmerged writes⟩
  · intro calls s hrun
    have hfile := (scheduleStore_sameOn environ calls).last hrun
    refine ⟨by rw [loadSchedule_eq, normalizeSchedule_congr hfile], fun values writes => ?_⟩
    obtain ⟨merged, hmerged, hsave⟩ := saveSchedule_eq environ values writes s.file
    have hload := (loadSchedule_eq environ
      (some (updateKnown scheduleKeys (persisted s.file) values))).trans hmerged
    refine ⟨_, _, hsave, reported_of_write hload writes, ?_⟩
    intro key hkey
    have hother : key ∉ scheduleKeys := by
      revert key
      decide
    exact writeMerged_lookup (updateKnown_other hother _ values) merged writes

end WebZapret.Selection
