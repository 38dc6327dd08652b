import WebZapret.Selection.Import
import WebZapret.Catalog.Batches

/-!
# What a change of the catalog writes

Every operation on the catalog writes a list of strategies that it makes from the one it has read
last. It drops the strategy that it is to delete, or puts new strategies in the place of those with the
same ids. So all other ids stay, and what is added has an id (`Edit`).
-/

namespace WebZapret.Panel

open Py Failing Catalog Selection

/-- A strategy of the list has the id. -/
def Lists (entries : List Dict) (sid : Str) : Prop :=
  ∃ s ∈ entries, s.lookup (lit "id") = some (.str sid)

/-- A change of a list of strategies that may drop the given ids. -/
structure Edit (dropped : Str → Prop) (old new : List Dict) : Prop where
  kept : ∀ sid, ¬dropped sid → Lists old sid → Lists new sid
  ids : ∀ s ∈ new, s ∈ old ∨ ∃ sid, s.lookup (lit "id") = some (.str sid)

/-- More strategies may be dropped. -/
theorem Edit.mono {dropped dropped' : Str → Prop} {old new : List Dict} (h : Edit dropped old new)
    (hdropped : ∀ sid, dropped sid → dropped' sid) : Edit dropped' old new :=
  ⟨fun sid hsid => h.kept sid fun hd => hsid (hdropped sid hd), h.ids⟩

/-- The strategies that an operation reads. -/
def entriesOf (stored : Stored) : Result (List Dict) := do
  let catalog ← ((stored.getD emptyCatalog).or emptyCatalog).dict
  entriesIn (catalog.get (lit "strategies") (.arr []))

/-- What an operation writes when it has read `c` last. -/
def Rewrites (dropped : Str → Prop) (c v : Stored) : Prop :=
  ∃ old new, entriesOf c = .ok old ∧ Holds v new ∧ Edit dropped old new

theorem Rewrites.mono {dropped dropped' : Str → Prop} {c v : Stored} (h : Rewrites dropped c v)
    (hdropped : ∀ sid, dropped sid → dropped' sid) : Rewrites dropped' c v := by
  obtain ⟨old, new, hold, hnew, hedit⟩ := h
  exact ⟨old, new, hold, hnew, hedit.mono hdropped⟩

/-! ## Edits of a list -/

theorem hasId_of_lists {entries : List Dict} {sid : Str} (h : Lists entries sid) :
    HasId (entries.map idOf) sid := by
  obtain ⟨s, hs, hid⟩ := h
  refine ⟨idOf s, List.mem_map_of_mem hs, ?_⟩
  rw [idOf, Dict.get, hid]
  rfl

theorem lists_iff_hasId {entries : List Dict} {sid : Str} (hne : sid ≠ []) :
    Lists entries sid ↔ HasId (entries.map idOf) sid := by
  constructor
  · exact hasId_of_lists
  · rintro ⟨x, hx, hid⟩
    obtain ⟨s, hs, rfl⟩ := List.mem_map.mp hx
    exact ⟨s, hs, lookup_of_idOf hid hne⟩

theorem edit_filter (sid : Str) (old : List Dict) :
    Edit (· = sid) old (old.filter fun x => ¬(x.get0 (lit "id")).Is sid) := by
  refine ⟨?_, fun s hs => .inl (List.mem_of_mem_filter hs)⟩
  rintro cur hne ⟨s, hs, hid⟩
  refine ⟨s, List.mem_filter.mpr ⟨hs, ?_⟩, hid⟩
  rw [decide_eq_true_eq, get0_is_iff, hid]
  intro heq
  cases heq
  exact hne rfl

/-- New strategies replace those of the same ids. -/
theorem edit_replace {old added : List Dict} {p : Dict → Bool}
    (hadded : ∀ s ∈ added, ∃ sid, s.lookup (lit "id") = some (.str sid))
    (hreplaced : ∀ s ∈ old, p s = false → ∀ sid, s.lookup (lit "id") = some (.str sid) →
      Lists added sid) : Edit (fun _ => False) old (old.filter p ++ added) := by
  constructor
  · rintro sid - ⟨s, hs, hid⟩
    cases hp : p s with
    | true => exact ⟨s, List.mem_append_left _ (List.mem_filter.mpr ⟨hs, hp⟩), hid⟩
    | false =>
      obtain ⟨e, he, heid⟩ := hreplaced s hs hp sid hid
      exact ⟨e, List.mem_append_right _ he, heid⟩
  · intro s hs
    rcases List.mem_append.mp hs with hkept | hnew
    · exact .inl (List.mem_of_mem_filter hkept)
    · exact .inr (hadded s hnew)

/-- The entries of a selection. -/
theorem edit_merge [Tables] {planned : List Dict} (hplanned : ∀ e ∈ planned, Planned e)
    (old : List Dict) : Edit (fun _ => False) old
      ((old.filter fun s => idText s ∉ planned.map idText) ++ planned) := by
  have hid : ∀ e ∈ planned, e.lookup (lit "id") = some (.str (idText e)) := by
    intro e he
    obtain ⟨env, id, desc, args, protocol, domain, dom, row, rfl⟩ := hplanned e he
    rfl
  refine edit_replace (fun e he => ⟨_, hid e he⟩) ?_
  intro s _ hp sid hsid
  obtain ⟨e, he, heq⟩ := List.mem_map.mp (not_not.mp (of_decide_eq_false hp))
  refine ⟨e, he, ?_⟩
  have htext : idText s = sid := by
    rw [idText, Dict.get0, Dict.get, hsid]
    rfl
  rw [hid e he, heq, htext]

/-- The strategies of a batch. -/
theorem edit_batch [Tables] {env : ImportEnv} {batch : Batch} {imported : List Dict}
    (himported : batch.entries env = .ok imported) (old : List Dict) :
    Edit (fun _ => False) old ((old.filter fun s => ¬HasIdIn batch.ids s) ++ imported) := by
  refine edit_replace ?_ ?_
  · intro e he
    obtain ⟨row, _, hrow⟩ := mem_of_mapM himported he
    exact ⟨_, importEntry_lookup hrow⟩
  · intro s _ hp sid hsid
    obtain ⟨id, hid, his⟩ := not_not.mp (of_decide_eq_false hp)
    rw [get0_is_iff, hsid] at his
    cases his
    obtain ⟨row, hrow, rfl⟩ := List.mem_map.mp hid
    obtain ⟨e, he, hentry⟩ := mem_mapM_of_mem himported hrow
    exact ⟨e, he, importEntry_lookup hentry⟩

/-! ## What the operations write -/

/-- A catalog that is a dict, also when it is empty. -/
theorem entriesOf_dict {stored : Stored} {members : Dict}
    (h : (stored.getD emptyCatalog).dict = .ok members) :
    entriesOf stored = entriesIn (members.get (lit "strategies") (.arr [])) := by
  obtain ⟨members', hmembers'⟩ :
      ∃ members', ((stored.getD emptyCatalog).or emptyCatalog).dict = .ok members' := by
    unfold Json.or
    split
    · exact ⟨members, h⟩
    · exact ⟨_, rfl⟩
  rw [entriesOf, hmembers', ← get_or_emptyCatalog h hmembers']
  rfl

/-- The dict of a catalog whose ids can be read. -/
theorem members_of_strategyIds {stored : Stored} {ids : List Json}
    (h : strategyIds stored = .ok ids) :
    ∃ members, (stored.getD emptyCatalog).dict = .ok members := by
  unfold strategyIds strategies at h
  obtain ⟨value, hvalue, _⟩ := bind_eq_ok.mp h
  obtain ⟨members, hmembers, _⟩ := bind_eq_ok.mp hvalue
  exact ⟨members, hmembers⟩

/-- Dropping a strategy writes the other ones. -/
theorem dropStrategy_holds {sid : Str} {stored : Stored} {catalog : Json} {left : List Json}
    (h : dropStrategy sid stored = .ok (catalog, left)) :
    ∃ old, entriesOf stored = .ok old ∧
      Holds (some catalog) (old.filter fun x => ¬(x.get0 (lit "id")).Is sid) := by
  unfold dropStrategy at h
  obtain ⟨members, hmembers, hrest⟩ := bind_eq_ok.mp h
  obtain ⟨kept, hkept, hret⟩ := bind_eq_ok.mp hrest
  cases hret
  unfold withoutId at hkept
  obtain ⟨old, hold, hfilter⟩ := bind_eq_ok.mp hkept
  cases hfilter
  exact ⟨old, bind_eq_ok.mpr ⟨members, hmembers, hold⟩, holds_set _ _⟩

theorem dropStrategy_rewrites {sid : Str} {stored : Stored} {catalog : Json} {left : List Json}
    (h : dropStrategy sid stored = .ok (catalog, left)) :
    Rewrites (· = sid) stored (some catalog) := by
  obtain ⟨old, hold, hholds⟩ := dropStrategy_holds h
  exact ⟨old, _, hold, hholds, edit_filter sid old⟩

variable [Tables]

/-- An import writes the strategies with other ids, and then the batch. -/
theorem addBatch_holds {env : ImportEnv} {data : Json} {batch : Batch} {stored : Stored}
    {catalog : Json} {imported : List Dict} (hbatch : importBatch env data = .ok (some batch))
    (h : addBatch env batch stored = .ok (catalog, imported)) :
    batch.entries env = .ok imported ∧ ∃ old, entriesOf stored = .ok old ∧
      Holds (some catalog) ((old.filter fun s => ¬HasIdIn batch.ids s) ++ imported) := by
  unfold addBatch at h
  obtain ⟨members, hmembers, hloop⟩ := bind_eq_ok.mp h
  obtain ⟨⟨strategies, imported'⟩, hrows, hret⟩ := bind_eq_ok.mp hloop
  cases hret
  obtain ⟨⟨old, hold⟩, written, hwritten⟩ := importRows_lists (importBatch_rows hbatch) hrows
  have hstart : entriesIn ((members.setDefault (lit "strategies") (.arr [])).get0
      (lit "strategies")) = .ok (old ++ []) := by rw [List.append_nil, hold]
  obtain ⟨new, hnew, himported, hstrategies⟩ := importRows_eq batch.ids_nodup hstart nofun hrows
  dsimp only at hwritten
  subst hwritten
  rw [entriesIn_arr, List.nil_append] at hstrategies
  rw [List.nil_append] at himported
  cases hstrategies
  subst himported
  rw [Dict.get0, Dict.get, Dict.lookup_setDefault, Option.getD_some] at hold
  exact ⟨hnew, old, by rw [entriesOf_dict hmembers, hold], holds_set _ _⟩

/-- A merge writes the strategies with other ids, and then the entries. -/
theorem mergeStored_holds {entries : List Dict} {stored : Stored} {merged : Json}
    (h : mergeStored entries stored = .ok merged) :
    ∃ old, entriesOf stored = .ok old ∧
      Holds (some merged) ((old.filter fun s => idText s ∉ entries.map idText) ++ entries) := by
  unfold mergeStored at h
  obtain ⟨members, hmembers, hrest⟩ := bind_eq_ok.mp h
  obtain ⟨data, hdata, hret⟩ := bind_eq_ok.mp hrest
  cases hret
  unfold mergeCatalog at hdata
  obtain ⟨old, hold, hret⟩ := bind_eq_ok.mp hdata
  cases hret
  rw [Dict.get0, Dict.get, Dict.lookup_setDefault, Option.getD_some] at hold
  exact ⟨old, bind_eq_ok.mpr ⟨members, hmembers, hold⟩, holds_set _ _⟩

theorem addBatch_rewrites {env : ImportEnv} {data : Json} {batch : Batch} {stored : Stored}
    {catalog : Json} {imported : List Dict} (hbatch : importBatch env data = .ok (some batch))
    (h : addBatch env batch stored = .ok (catalog, imported)) :
    Rewrites (fun _ => False) stored (some catalog) := by
  obtain ⟨hentries, old, hold, hholds⟩ := addBatch_holds hbatch h
  exact ⟨old, _, hold, hholds, edit_batch hentries old⟩

theorem mergeStored_rewrites {entries : List Dict} (hplanned : ∀ e ∈ entries, Planned e)
    {stored : Stored} {merged : Json} (h : mergeStored entries stored = .ok merged) :
    Rewrites (fun _ => False) stored (some merged) := by
  obtain ⟨old, hold, hholds⟩ := mergeStored_holds h
  exact ⟨old, _, hold, hholds, edit_merge hplanned old⟩

/-! ## As tasks -/

variable {A : Stored → Prop}

omit [Tables] in
theorem deleteDrop_based (sid : Str) (seen : Stored) :
    (deleteDrop sid).Based A (Rewrites (· = sid)) seen := by
  intro stored _
  dsimp only
  split
  · trivial
  · rename_i hdrop
    exact ⟨dropStrategy_rewrites hdrop, fun saved => trivial⟩

omit [Tables] in
theorem deleteChecked_based (cur sid : Str) (seen : Stored) :
    (deleteChecked cur sid).Based A (Rewrites (· = sid)) seen := by
  unfold deleteChecked
  split
  · trivial
  · intro stored _
    dsimp only
    split
    · trivial
    · split
      · trivial
      · exact deleteDrop_based sid stored

omit [Tables] in
/-- A deletion that finds the active strategy in the catalog does not drop it. -/
theorem deleteChecked_based_of_lists (cur sid : Str) (seen : Stored) :
    (deleteChecked cur sid).Based (fun c => ∀ entries, entriesOf c = .ok entries → Lists entries cur)
      (Rewrites fun x => x = sid ∧ x ≠ cur) seen := by
  unfold deleteChecked
  split
  · trivial
  · intro stored hlists
    dsimp only
    split
    · trivial
    · rename_i active hactive
      split
      · trivial
      · rename_i hne
        obtain ⟨ids, hids, hret⟩ := bind_eq_ok.mp hactive
        obtain ⟨members, hmembers⟩ := members_of_strategyIds hids
        obtain ⟨entries, hentries, rfl⟩ := (strategyIds_of_dict hmembers).mp hids
        have hhas : HasId (entries.map idOf) cur :=
          hasId_of_lists (hlists entries (by rw [entriesOf_dict hmembers, hentries]))
        have hcur : active = cur := by
          rw [if_pos hhas] at hret
          exact (Except.ok.inj hret).symm
        rw [hcur] at hne
        refine (deleteDrop_based sid stored).mono fun c v hrewrites => hrewrites.mono ?_
        exact fun x hx => ⟨hx, fun heq => hne (hx.symm.trans heq)⟩

theorem importJson_based (env : ImportEnv) (data : Json) (seen : Stored) :
    (importStrategyFromJson env data).Based A (Rewrites fun _ => False) seen := by
  unfold importStrategyFromJson
  split
  · trivial
  · trivial
  · rename_i hbatch
    intro stored _
    dsimp only
    split
    · trivial
    · rename_i hadd
      exact ⟨addBatch_rewrites hbatch hadd, fun saved => trivial⟩

theorem bcwCatalog_based (result : Json) (settings : ImportSettings) (runId now : Str)
    (seen : Stored) :
    (bcwCatalog result settings runId now).Based A (Rewrites fun _ => False) seen := by
  intro stored _
  dsimp only
  split
  · trivial
  · rename_i hplan
    obtain ⟨value, _, hplanned⟩ := bind_eq_ok.mp hplan
    unfold bcwMerge
    split
    · trivial
    · intro stored _
      dsimp only
      split
      · trivial
      · rename_i hmerge
        exact ⟨mergeStored_rewrites (planImport_planned hplanned) hmerge, fun saved => trivial⟩

end WebZapret.Panel
