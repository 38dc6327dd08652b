import WebZapret.Panel.Rewrites

/-!
# What an import replaces

`import_strategy_from_json` replaces the strategies with the ids of the batch: these are to be the ones
of an earlier import for the same domain and date. But the id keeps only the first twenty small letters
and digits of the domain, so the batch of another domain, and whatever else has such an id, is replaced
as well (`other_domain_replaced`). `import_keepsOthers_iff` says for which catalogs nothing else is.
-/

namespace WebZapret.Panel

open Py Failing Catalog

variable [Tables]

/-- The date of an import: that of the results, or else the time. -/
def importDate (env : ImportEnv) (timestamp : Json) : Result Str :=
  if timestamp.truthy then
    match timestamp with
    | .str s => .ok (s.take 10)
    | _ => .error .typeError
  else .ok (intStr env.epoch)

/-- The domain and the date of an import. -/
def importSource (env : ImportEnv) (data : Json) : Result (Str × Str) := do
  let data ← data.dict
  return (← importDomain data, ← importDate env (data.get (lit "timestamp") (.str [])))

/-- A strategy that an import for the same domain and date has made. -/
def SameImport (env : ImportEnv) (data : Json) (s : Dict) : Prop :=
  ∃ env' data' batch' imported', importBatch env' data' = .ok (some batch') ∧
    batch'.entries env' = .ok imported' ∧ s ∈ imported' ∧
    importSource env' data' = importSource env data

/-- The strategies that are not of the same import stay, in their order, and the whole batch follows,
best first. -/
def KeepsOthers (env : ImportEnv) (data : Json) (batch : Batch) (old new : List Dict) : Prop :=
  ∃ kept added, new = kept ++ added ∧ batch.entries env = .ok added ∧
    ∀ others : List Dict, others.Sublist old → (∀ s ∈ others, ¬SameImport env data s) →
      others.Sublist kept

/-! ## The effect of an import -/

omit [Tables] in
theorem Holds.unique {stored : Stored} {entries entries' : List Dict} (h : Holds stored entries)
    (h' : Holds stored entries') : entries = entries' := by
  obtain ⟨members, rfl, hlookup⟩ := h
  obtain ⟨members', hstored, hlookup'⟩ := h'
  cases hstored
  rw [hlookup] at hlookup'
  have hobj : Function.Injective Json.obj := fun a b hab => Json.obj.inj hab
  exact List.map_injective_iff.mpr hobj (Json.arr.inj (Option.some.inj hlookup'))

/-- What an accepted import leaves. -/
theorem import_holds {env : ImportEnv} {data : Json} {batch : Batch} {stored : Stored}
    {imported old : List Dict} (hbatch : importBatch env data = .ok (some batch))
    (himport : (importStrategyFromJson env data).result stored = .ok (.imported imported))
    (hold : entriesOf stored = .ok old) :
    batch.entries env = .ok imported ∧ Holds ((importStrategyFromJson env data).effect stored)
      ((old.filter fun s => ¬HasIdIn batch.ids s) ++ imported) := by
  unfold importStrategyFromJson at himport ⊢
  rw [hbatch] at himport ⊢
  dsimp only [Task.result, Task.effect] at himport ⊢
  cases hadd : addBatch env batch stored with
  | error e =>
    rw [hadd] at himport
    cases himport
  | ok written =>
    obtain ⟨catalog, added⟩ := written
    rw [hadd] at himport
    cases himport
    obtain ⟨hentries, old', hold', hholds⟩ := addBatch_holds hbatch hadd
    rw [hold] at hold'
    cases hold'
    exact ⟨hentries, hholds⟩

/-- **When an import replaces nothing else.** -/
theorem import_keepsOthers_iff {env : ImportEnv} {data : Json} {batch : Batch} {stored : Stored}
    {imported old : List Dict} (hbatch : importBatch env data = .ok (some batch))
    (himport : (importStrategyFromJson env data).result stored = .ok (.imported imported))
    (hold : entriesOf stored = .ok old) :
    (∃ new, Holds ((importStrategyFromJson env data).effect stored) new ∧
        KeepsOthers env data batch old new) ↔
      ∀ s ∈ old, ¬SameImport env data s → ¬HasIdIn batch.ids s := by
  obtain ⟨hentries, hholds⟩ := import_holds hbatch himport hold
  constructor
  · intro h s hs hother hid
    obtain ⟨new, hnew, kept, added, heq, hadded, hkeeps⟩ := h
    rw [hentries] at hadded
    cases hadded
    rw [Holds.unique hnew hholds] at heq
    have hkept : s ∈ kept := (hkeeps [s] (List.singleton_sublist.mpr hs) (by simpa using hother)).subset
      (List.mem_singleton_self s)
    rw [← List.append_cancel_right heq, List.mem_filter, decide_eq_true_eq] at hkept
    exact hkept.2 hid
  · intro h
    refine ⟨_, hholds, _, imported, rfl, hentries, fun others hothers hother => ?_⟩
    have hself : others.filter (fun s => ¬HasIdIn batch.ids s) = others := by
      rw [List.filter_eq_self]
      intro s hs
      rw [decide_eq_true_eq]
      exact h s (hothers.subset hs) (hother s hs)
    exact hself ▸ hothers.filter _

/-! ## Another domain -/

theorem importSource_domain {env : ImportEnv} {data : Json} {batch : Batch} {domain date : Str}
    (hbatch : importBatch env data = .ok (some batch))
    (hsource : importSource env data = .ok (domain, date)) : batch.domain = domain := by
  unfold importSource at hsource
  obtain ⟨members, hmembers, hsource⟩ := bind_eq_ok.mp hsource
  obtain ⟨domain', hdomain', hsource⟩ := bind_eq_ok.mp hsource
  obtain ⟨date', _, hsource⟩ := bind_eq_ok.mp hsource
  cases hsource
  unfold importBatch at hbatch
  obtain ⟨members', hmembers', hbatch⟩ := bind_eq_ok.mp hbatch
  rw [hmembers] at hmembers'
  cases hmembers'
  by_cases htruthy : (members.get (lit "strategies") (.arr [])).truthy
  · rw [if_neg (not_not_intro htruthy)] at hbatch
    obtain ⟨items, _, hbatch⟩ := bind_eq_ok.mp hbatch
    obtain ⟨rows, _, hbatch⟩ := bind_eq_ok.mp hbatch
    obtain ⟨domain'', hdomain'', hbatch⟩ := bind_eq_ok.mp hbatch
    obtain ⟨date'', _, hbatch⟩ := bind_eq_ok.mp hbatch
    cases hbatch
    rw [hdomain'] at hdomain''
    cases hdomain''
    rfl
  · rw [if_pos htruthy] at hbatch
    cases hbatch

/-- An entry is named after the domain. -/
theorem importEntry_name {env : ImportEnv} {domain id : Str} {row entry : Dict}
    (h : importEntry env domain id row = .ok entry) :
    ∃ protocol, entry.lookup (lit "name") =
      some (.str (lit "Custom: " ++ domain ++ lit " (" ++ protocol ++ lit ")")) := by
  unfold importEntry at h
  obtain ⟨text, _, h⟩ := bind_eq_ok.mp h
  obtain ⟨ts, _, h⟩ := bind_eq_ok.mp h
  obtain ⟨latency, _, h⟩ := bind_eq_ok.mp h
  obtain ⟨success, _, h⟩ := bind_eq_ok.mp h
  cases h
  exact ⟨_, rfl⟩

theorem SameImport.name {env : ImportEnv} {data : Json} {s : Dict} {domain date : Str}
    (h : SameImport env data s) (hsource : importSource env data = .ok (domain, date)) :
    ∃ protocol, s.lookup (lit "name") =
      some (.str (lit "Custom: " ++ domain ++ lit " (" ++ protocol ++ lit ")")) := by
  obtain ⟨env', data', batch', imported', hbatch, hentries, hs, hsame⟩ := h
  rw [hsource] at hsame
  obtain ⟨row, _, hrow⟩ := mem_of_mapM hentries hs
  rw [← importSource_domain hbatch hsame]
  exact importEntry_name hrow

omit [Tables]

/-- Test results of a domain. -/
def resultsFor (domain : Str) : Json :=
  .obj [(lit "domain", .str domain), (lit "timestamp", .str (lit "2026-09-12")),
    (lit "strategies", .arr [.obj [(lit "args", .str (lit "--lua-desync=fake"))]])]

/-- A catalog with a strategy of its own. -/
def ownStrategy : Dict := [(lit "id", .str (lit "standard")), (lit "name", .str (lit "Standard"))]

def ownCatalog : Stored := some (.obj [(lit "strategies", .arr [.obj ownStrategy])])

/-- The results of `a.b` are imported twice. -/
theorem import_keepsOthers_again : letI := Tables.ascii
    ∃ batch imported s,
      let stored := (importStrategyFromJson .start (resultsFor (lit "a.b"))).effect ownCatalog
      importBatch .start (resultsFor (lit "a.b")) = .ok (some batch) ∧
      (importStrategyFromJson .start (resultsFor (lit "a.b"))).result stored =
        .ok (.imported imported) ∧
      entriesOf stored = .ok [ownStrategy, s] ∧ HasIdIn batch.ids s ∧
      ∃ new, Holds ((importStrategyFromJson .start (resultsFor (lit "a.b"))).effect stored) new ∧
        KeepsOthers .start (resultsFor (lit "a.b")) batch [ownStrategy, s] new := by
  let _ := Tables.ascii
  refine ⟨_, _, _, rfl, rfl, rfl, by decide, (import_keepsOthers_iff rfl rfl rfl).mpr ?_⟩
  rw [List.forall_mem_cons, List.forall_mem_singleton]
  constructor
  · intro _
    decide
  · exact fun hother => absurd ⟨_, _, _, _, rfl, rfl, List.mem_singleton_self _, rfl⟩ hother

/-- The results of `ab` replace those of `a.b`. -/
theorem other_domain_replaced : letI := Tables.ascii
    ¬∀ env data batch stored imported old, importBatch env data = .ok (some batch) →
      (importStrategyFromJson env data).result stored = .ok (.imported imported) →
      entriesOf stored = .ok old →
      ∃ new, Holds ((importStrategyFromJson env data).effect stored) new ∧
        KeepsOthers env data batch old new := by
  let _ := Tables.ascii
  intro h
  obtain ⟨s, stored, batch, imported, hstored, hname, hbatch, himport, hid⟩ :
      ∃ s stored batch imported, entriesOf stored = .ok [s] ∧
        s.lookup (lit "name") = some (.str (lit "Custom: a.b (HTTPS/TLS1.2)")) ∧
        importBatch .start (resultsFor (lit "ab")) = .ok (some batch) ∧
        (importStrategyFromJson .start (resultsFor (lit "ab"))).result stored =
          .ok (.imported imported) ∧ HasIdIn batch.ids s := by
    refine ⟨_, (importStrategyFromJson .start (resultsFor (lit "a.b"))).effect none, _, _, rfl, rfl,
      rfl, rfl, ?_⟩
    decide
  obtain ⟨new, hnew⟩ := h _ _ batch stored imported [s] hbatch himport hstored
  have hothers := (import_keepsOthers_iff hbatch himport hstored).mp ⟨new, hnew⟩
  refine hothers s (List.mem_singleton_self s) (fun hsame => ?_) hid
  have hsource : importSource .start (resultsFor (lit "ab")) =
      .ok (lit "ab", lit "2026-09-12") := rfl
  obtain ⟨protocol, hprotocol⟩ := hsame.name hsource
  rw [hname] at hprotocol
  simp [lit] at hprotocol

end WebZapret.Panel
