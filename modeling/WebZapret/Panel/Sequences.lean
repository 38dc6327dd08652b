import WebZapret.Panel.Mutations
import WebZapret.Panel.OtherImports
import WebZapret.Catalog.Accounting

/-!
# Changes of the catalog, one after the other

Requests that change the catalog are handled one after the other, with their reads succeeding. The ids
of the strategies stay distinct strings, and the strategy `none` stays as it is (`Sound`). A request
that reports a failure leaves the catalog, and a deletion that succeeds takes out one strategy
(`Lawful`). `catalog_sound` is for every sequence of requests.
-/

namespace WebZapret.Panel

open Py Failing Catalog Selection

variable [Tables]

/-- Distinct ids, all of them strings, and the built-in strategy among the others. -/
structure Distinct (builtin : Dict) (entries : List Dict) : Prop where
  ids : ∀ s ∈ entries, ∃ id, s.lookup (lit "id") = some (.str id)
  nodup : (entries.map idText).Nodup
  builtin : builtin ∈ entries

/-- The catalog holds such strategies. -/
def Sound (builtin : Dict) (c : Stored) : Prop :=
  ∃ entries, Holds c entries ∧ Distinct builtin entries

/-- A request that changes the catalog: the strategy that the panel's state names, and whether the
file can be written. -/
structure Request where
  cur : Str
  mutation : Mutation
  saved : Bool

/-- The catalog after a request, and the answer. -/
def Request.exec (r : Request) (c : Stored) : Stored × Answer :=
  (r.mutation.task r.cur).exec none [] [r.saved] c

/-- The catalog, as requests change it. -/
def requests : Machine Stored Request := ⟨fun c r => some (r.exec c).1⟩

/-- What a request does to a catalog: nothing when it reports a failure, and when a deletion succeeds,
the named strategy is taken out. -/
structure Lawful (c : Stored) (r : Request) : Prop where
  failure : ¬(r.exec c).2.Ok → (r.exec c).1 = c
  deleted : ∀ strategyId, r.mutation = .delete strategyId → (r.exec c).2.Ok →
    ∃ before s after, Holds c (before ++ s :: after) ∧
      s.lookup (lit "id") = some (.str (strategyId.or (.str [])).text) ∧
      Holds (r.exec c).1 (before ++ after)

/-! ## What is written -/

omit [Tables] in
theorem entriesOf_holds {c : Stored} {entries : List Dict} (h : Holds c entries) :
    entriesOf c = .ok entries := by
  obtain ⟨members, rfl, hlookup⟩ := h
  have hmembers : ((some (Json.obj members)).getD emptyCatalog).dict = .ok members := rfl
  rw [entriesOf_dict hmembers, Dict.get, hlookup]
  exact entriesIn_arr entries

theorem importJson_writes {env : ImportEnv} {data : Json} {c v : Stored}
    (h : (importStrategyFromJson env data).Writes c v) :
    ∃ batch imported old, importBatch env data = .ok (some batch) ∧
      batch.entries env = .ok imported ∧ entriesOf c = .ok old ∧
      Holds v ((old.filter fun s => ¬HasIdIn batch.ids s) ++ imported) := by
  unfold importStrategyFromJson at h
  split at h
  · exact absurd h Task.not_writes_ret
  · exact absurd h Task.not_writes_ret
  · rename_i batch hbatch
    have hwrites := Task.writes_of_read h
    split at hwrites
    · exact absurd hwrites Task.not_writes_ret
    · rename_i catalog imported hadd
      obtain ⟨hentries, old, hold, hholds⟩ := addBatch_holds hbatch hadd
      exact ⟨batch, imported, old, hbatch, hentries, hold, Task.eq_of_writes hwrites ▸ hholds⟩

theorem bcwCatalog_writes {result : Json} {settings : ImportSettings} {runId now : Str}
    {c v : Stored} (h : (bcwCatalog result settings runId now).Writes c v) :
    ∃ entries skipped old, planFor result settings runId now c = .ok (entries, skipped) ∧
      entriesOf c = .ok old ∧
      Holds v ((old.filter fun s => idText s ∉ entries.map idText) ++ entries) := by
  have hfirst := Task.writes_of_read h
  split at hfirst
  · exact absurd hfirst Task.not_writes_ret
  rename_i entries skipped hplan
  unfold bcwMerge at hfirst
  split at hfirst
  · exact absurd hfirst Task.not_writes_ret
  have hsecond := Task.writes_of_read hfirst
  split at hsecond
  · exact absurd hsecond Task.not_writes_ret
  · rename_i merged hmerge
    obtain ⟨old, hold, hholds⟩ := mergeStored_holds hmerge
    exact ⟨entries, skipped, old, hplan, hold, Task.eq_of_writes hsecond ▸ hholds⟩

/-! ## Distinct ids stay distinct -/

/-- New strategies behind some of the old ones. -/
theorem Distinct.append {builtin : Dict} {old added : List Dict} {p : Dict → Bool}
    (h : Distinct builtin old) (hids : ∀ s ∈ added, ∃ id, s.lookup (lit "id") = some (.str id))
    (hnodup : (added.map idText).Nodup)
    (hother : ∀ s ∈ old, p s = true → idText s ∉ added.map idText) (hbuiltin : p builtin = true) :
    Distinct builtin (old.filter p ++ added) where
  ids s hs := by
    rcases List.mem_append.mp hs with hold | hnew
    · exact h.ids s (List.mem_of_mem_filter hold)
    · exact hids s hnew
  nodup := by
    rw [List.map_append, List.nodup_append]
    refine ⟨h.nodup.sublist (List.filter_sublist.map _), hnodup, ?_⟩
    intro id hid id' hid' heq
    subst heq
    obtain ⟨s, hs, rfl⟩ := List.mem_map.mp hid
    obtain ⟨hold, hp⟩ := List.mem_filter.mp hs
    exact hother s hold hp hid'
  builtin := List.mem_append_left _ (List.mem_filter.mpr ⟨h.builtin, hbuiltin⟩)

omit [Tables] in
theorem underscore_mem_importId {idBase : Str} (h : 95 ∈ idBase) (idx : Nat) :
    95 ∈ importId idBase idx := by
  unfold importId
  split
  · exact h
  · exact List.mem_append_left _ (List.mem_append_left _ h)

theorem importBatch_idBase {env : ImportEnv} {data : Json} {batch : Batch}
    (h : importBatch env data = .ok (some batch)) : 95 ∈ batch.idBase := by
  unfold importBatch at h
  obtain ⟨members, _, h⟩ := bind_eq_ok.mp h
  by_cases htruthy : (members.get (lit "strategies") (.arr [])).truthy
  · rw [if_neg (not_not_intro htruthy)] at h
    obtain ⟨items, _, h⟩ := bind_eq_ok.mp h
    obtain ⟨rows, _, h⟩ := bind_eq_ok.mp h
    obtain ⟨domain, _, h⟩ := bind_eq_ok.mp h
    obtain ⟨date, _, h⟩ := bind_eq_ok.mp h
    cases h
    simp [lit]
  · rw [if_pos htruthy] at h
    cases h

/-- An import of test results keeps the ids distinct. -/
theorem importJson_sound {env : ImportEnv} {data : Json} {builtin : Dict} {c v : Stored}
    (hbuiltin : builtin.lookup (lit "id") = some (.str (lit "none"))) (h : Sound builtin c)
    (hwrites : (importStrategyFromJson env data).Writes c v) : Sound builtin v := by
  obtain ⟨entries, hholds, hdistinct⟩ := h
  obtain ⟨batch, imported, old, hbatch, hentries, hold, hv⟩ := importJson_writes hwrites
  rw [entriesOf_holds hholds] at hold
  cases hold
  have himported : imported.map idText = batch.ids :=
    map_of_mapM hentries fun row e hrow => idText_of_lookup (importEntry_lookup hrow)
  refine ⟨_, hv, hdistinct.append ?_ ?_ ?_ ?_⟩
  · intro s hs
    obtain ⟨row, _, hrow⟩ := mem_of_mapM hentries hs
    exact ⟨_, importEntry_lookup hrow⟩
  · rw [himported]
    exact batch.ids_nodup
  · intro s hs hp hid
    obtain ⟨id, hlookup⟩ := hdistinct.ids s hs
    rw [himported, idText_of_lookup hlookup] at hid
    exact of_decide_eq_true hp ⟨id, hid, get0_is_iff.mpr hlookup⟩
  · refine decide_eq_true fun hin => ?_
    obtain ⟨id, hid, his⟩ := hin
    rw [get0_is_iff, hbuiltin] at his
    cases his
    obtain ⟨row, _, hrow⟩ := List.mem_map.mp hid
    have hmem := underscore_mem_importId (importBatch_idBase hbatch) row.2
    rw [hrow] at hmem
    revert hmem
    decide

/-- So does the import of a run: its ids are new. -/
theorem bcwCatalog_sound {result : Json} {settings : ImportSettings} {runId now : Str}
    {builtin : Dict} {c v : Stored}
    (h : Sound builtin c) (hwrites : (bcwCatalog result settings runId now).Writes c v) :
    Sound builtin v := by
  obtain ⟨entries, hholds, hdistinct⟩ := h
  obtain ⟨added, skipped, old, hplan, hold, hv⟩ := bcwCatalog_writes hwrites
  rw [entriesOf_holds hholds] at hold
  cases hold
  obtain ⟨value, hvalue, hplanned⟩ := bind_eq_ok.mp hplan
  obtain ⟨known, rows, fates, q, hknown, _, hhandled, rfl, _⟩ := planImport_eq_ok.mp hplanned
  have hsame : known = entries := by
    obtain ⟨members, rfl, hlookup⟩ := hholds
    cases hvalue
    have hlist : Dict.get members (lit "strategies") (.arr []) = .arr (entries.map .obj) := by
      rw [Dict.get, hlookup, Option.getD_some]
    rw [hlist, entriesIn_or (entriesIn_arr entries)] at hknown
    exact (Except.ok.inj hknown).symm
  subst hsame
  have hentries : q.entries = fates.filterMap Fate.entry := hhandled.adds.entries
  have hother : ∀ s ∈ known, idText s ∉ q.entries.map idText := by
    intro s hs
    obtain ⟨id, hid⟩ := hdistinct.ids s hs
    refine hhandled.id_other hs ?_
    by_cases hnil : id = []
    · rw [idText_of_lookup hid, hnil]
      exact .inr List.not_mem_nil
    · rw [Dict.get0, Dict.get, hid]
      exact .inl (decide_eq_true hnil)
  refine ⟨_, hv, hdistinct.append ?_ ?_ (fun s hs _ => hother s hs) ?_⟩
  · rw [hentries]
    exact fun e he => ⟨_, hhandled.forall_taken (fun _ _ _ _ _ hrow => hrow.lookup_id) e he⟩
  · rw [hentries]
    exact (hhandled.distinct (fun _ _ _ hadd => hadd.ids) fun _ _ _ _ _ hrow => hrow.id_new).1
  · exact decide_eq_true (hother _ hdistinct.builtin)

/-- Among distinct ids, the strategies with another id are all but one. -/
theorem delete_parts {builtin : Dict} {entries : List Dict} {sid : Str}
    (h : Distinct builtin entries) (hknown : HasId (entries.map idOf) sid) :
    ∃ before s after, entries = before ++ s :: after ∧ s.lookup (lit "id") = some (.str sid) ∧
      (entries.filter fun x => ¬(x.get0 (lit "id")).Is sid) = before ++ after := by
  obtain ⟨x, hx, his⟩ := hknown
  obtain ⟨s, hs, rfl⟩ := List.mem_map.mp hx
  have hsid : s.lookup (lit "id") = some (.str sid) := by
    obtain ⟨id, hid⟩ := h.ids s hs
    rw [idOf, Dict.get, hid, Option.getD_some] at his
    rw [hid, his]
  obtain ⟨before, after, rfl⟩ := List.append_of_mem hs
  have hnodup := h.nodup
  rw [List.map_append, List.map_cons, List.nodup_middle, List.nodup_cons, ← List.map_append] at hnodup
  -- any other strategy has another id
  have hother : ∀ x ∈ before ++ after, ¬(x.get0 (lit "id")).Is sid := by
    intro x hx hid
    refine hnodup.1 (List.mem_map.mpr ⟨x, hx, ?_⟩)
    rw [idText_of_lookup hsid, idText_of_lookup (get0_is_iff.mp hid)]
  have hkept : ∀ l : List Dict, (∀ x ∈ l, x ∈ before ++ after) →
      (l.filter fun x => ¬(x.get0 (lit "id")).Is sid) = l := by
    intro l hl
    rw [List.filter_eq_self]
    exact fun x hx => decide_eq_true (hother x (hl x hx))
  refine ⟨before, s, after, rfl, hsid, ?_⟩
  rw [List.filter_append, List.filter_cons_of_neg (by simpa using get0_is_iff.mpr hsid),
    hkept before fun x hx => List.mem_append_left _ hx,
    hkept after fun x hx => List.mem_append_right _ hx]

/-- A deletion that writes takes one strategy out. -/
theorem delete_removes {builtin : Dict} {cur sid : Str} {c v : Stored} (h : Sound builtin c)
    (hwrites : (deleteId cur sid).Writes c v) :
    ∃ before s after, Holds c (before ++ s :: after) ∧ s.lookup (lit "id") = some (.str sid) ∧
      Holds v (before ++ after) := by
  obtain ⟨entries, hholds, hdistinct⟩ := h
  obtain ⟨ids, catalog, left, hids, hknown, _, _, hdrop, rfl⟩ := deleteId_writes hwrites
  rw [hholds.strategyIds] at hids
  cases hids
  obtain ⟨old, hold, hv⟩ := dropStrategy_holds hdrop
  rw [entriesOf_holds hholds] at hold
  cases hold
  obtain ⟨before, s, after, rfl, hsid, hfilter⟩ := delete_parts hdistinct hknown
  rw [hfilter] at hv
  exact ⟨before, s, after, hholds, hsid, hv⟩

/-- A deletion keeps the ids distinct, and the built-in strategy. -/
theorem delete_sound {builtin : Dict} {cur sid : Str} {c v : Stored}
    (hbuiltin : builtin.lookup (lit "id") = some (.str (lit "none"))) (h : Sound builtin c)
    (hwrites : (deleteId cur sid).Writes c v) : Sound builtin v := by
  obtain ⟨entries, hholds, hdistinct⟩ := h
  obtain ⟨ids, catalog, left, _, _, hnone, _, hdrop, rfl⟩ := deleteId_writes hwrites
  obtain ⟨old, hold, hv⟩ := dropStrategy_holds hdrop
  rw [entriesOf_holds hholds] at hold
  cases hold
  refine ⟨_, hv, ?_⟩
  have hother : ¬(builtin.get0 (lit "id")).Is sid := by
    intro his
    rw [get0_is_iff, hbuiltin] at his
    cases his
    exact hnone rfl
  have hkept := @Distinct.append _ builtin entries [] (fun x => ¬(x.get0 (lit "id")).Is sid) hdistinct
    nofun List.nodup_nil (fun _ _ _ => List.not_mem_nil) (decide_eq_true hother)
  rwa [List.append_nil] at hkept

/-! ## Sequences of requests -/

theorem Mutation.sound {cur : Str} {m : Mutation} {builtin : Dict} {c v : Stored}
    (hbuiltin : builtin.lookup (lit "id") = some (.str (lit "none"))) (h : Sound builtin c)
    (hwrites : (m.task cur).Writes c v) : Sound builtin v := by
  cases m with
  | importJson env data => exact importJson_sound hbuiltin h hwrites
  | delete strategyId => exact delete_sound hbuiltin h hwrites
  | bcw result settings runId now => exact bcwCatalog_sound h hwrites

theorem Request.sound {r : Request} {builtin : Dict} {c : Stored}
    (hbuiltin : builtin.lookup (lit "id") = some (.str (lit "none"))) (h : Sound builtin c) :
    Sound builtin (r.exec c).1 := by
  rcases (r.mutation.reports r.cur).exec_cases none [r.saved] c with ⟨_, hsame⟩ | ⟨_, hwrites⟩
  · rw [Request.exec, hsame]
    exact h
  · exact Mutation.sound hbuiltin h hwrites

theorem Sound.lawful {r : Request} {builtin : Dict} {c : Stored} (h : Sound builtin c) :
    Lawful c r := by
  have hcases := (r.mutation.reports r.cur).exec_cases none [r.saved] c
  constructor
  · intro hfailed
    rcases hcases with ⟨_, hsame⟩ | ⟨hok, _⟩
    · exact hsame
    · exact absurd hok hfailed
  · intro strategyId hdelete hok
    rcases hcases with ⟨hfailed, _⟩ | ⟨_, hwrites⟩
    · exact absurd hok hfailed
    · rw [hdelete] at hwrites
      obtain ⟨before, s, after, hold, hsid, hnew⟩ := delete_removes h hwrites
      refine ⟨before, s, after, hold, hsid, ?_⟩
      rw [Request.exec, hdelete]
      exact hnew

/-- **The catalog over sequences of requests.** -/
theorem catalog_sound {builtin : Dict} {c : Stored} (hbuiltin : builtin.lookup (lit "id") =
    some (.str (lit "none"))) (h : Sound builtin c) (rs : List Request) :
    requests.Always (Sound builtin) c rs ∧ requests.Guarded Lawful c rs := by
  have hsound : requests.Always (Sound builtin) c rs := by
    refine requests.always_of_step ?_ h rs
    intro s r t hs hstep
    cases hstep
    exact Request.sound hbuiltin hs
  exact ⟨hsound, hsound.guarded fun s r hs => hs.lawful⟩

omit [Tables]

/-- The built-in strategy. -/
def builtinStrategy : Dict :=
  [(lit "id", .str (lit "none")), (lit "name", .str (lit "Disabled (passthrough)"))]

theorem catalog_sound_two : letI := Tables.ascii
    let c : Stored := some (.obj [(lit "strategies", .arr [.obj builtinStrategy])])
    let rs : List Request :=
      [⟨lit "none", .importJson .start (resultsFor (lit "ab")), true⟩,
        ⟨lit "none", .delete (.str (lit "custom_ab_20260912")), true⟩]
    requests.Always (Sound builtinStrategy) c rs ∧ requests.Guarded Lawful c rs := by
  let _ := Tables.ascii
  exact catalog_sound rfl ⟨[builtinStrategy], ⟨_, rfl, rfl⟩,
    ⟨by simp [builtinStrategy], List.nodup_singleton _, List.mem_singleton_self _⟩⟩ _

end WebZapret.Panel
