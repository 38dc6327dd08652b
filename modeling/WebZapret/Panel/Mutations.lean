import WebZapret.Panel.Rewrites

/-!
# Concurrent changes of the catalog

The panel handles every request in its own thread, and three operations read the catalog and
write it back as a whole without a lock: `import_strategy_from_json`, `delete_strategy` and the
catalog part of `bcw_import`. When the second of two operations reads before the first one has
written, and writes after it, the change of the first one is lost (`both_read_first`).

When no write of one operation lands between the deciding read of the other one and that one's
write, the final catalog is that of one of the two sequential orders (`changes_serial`). Every
read decides, except the first two of `delete_strategy`.
-/

namespace WebZapret.Panel

open Py Failing Catalog Selection

variable [Tables]

/-- A change of the catalog. -/
inductive Mutation where
  | importJson (env : ImportEnv) (data : Json)
  | delete (strategyId : Json)
  | bcw (result : Json) (settings : ImportSettings) (runId now : Str)

/-- The operation on the catalog file; `cur` is the strategy that the panel's state names. -/
def Mutation.task (cur : Str) : Mutation → Task Stored Answer
  | .importJson env data => importStrategyFromJson env data
  | .delete strategyId => deleteStrategy cur strategyId
  | .bcw result settings runId now => bcwCatalog result settings runId now

/-- The reads that do not decide what the operation writes. -/
def Mutation.late : Mutation → Nat
  | .importJson _ _ => 0
  | .delete _ => 2
  | .bcw _ _ _ _ => 0

/-! ## Every change writes once, at its end, and reports it -/

omit [Tables] in
theorem ok_of_report (report : Report) : (Answer.ok report).Ok := ⟨report, rfl⟩

omit [Tables] in
@[simp] theorem not_ok_refused (error : Str) (skipped : List Dict) :
    ¬(Answer.refused error skipped).Ok := nofun

omit [Tables] in
@[simp] theorem not_ok_failed (e : Exc) : ¬(Answer.failed e).Ok := nofun

omit [Tables] in
@[simp] theorem not_ok_raised (e : Exc) : ¬(Answer.raised e).Ok := nofun

theorem importJson_reports (env : ImportEnv) (data : Json) :
    (importStrategyFromJson env data).Reports Answer.Ok := by
  unfold importStrategyFromJson
  split
  · exact not_ok_failed _
  · exact not_ok_refused _ _
  · intro stored
    dsimp only
    split
    · exact not_ok_failed _
    · exact ⟨⟨_, rfl, ok_of_report _⟩, _, rfl, not_ok_refused _ _⟩

omit [Tables] in
theorem deleteDrop_reports (sid : Str) : (deleteDrop sid).Reports Answer.Ok := by
  intro stored
  dsimp only
  split
  · exact not_ok_raised _
  · exact ⟨⟨_, rfl, ok_of_report _⟩, _, rfl, not_ok_refused _ _⟩

omit [Tables] in
theorem deleteChecked_reports (cur sid : Str) : (deleteChecked cur sid).Reports Answer.Ok := by
  unfold deleteChecked
  split
  · exact not_ok_refused _ _
  · intro stored
    dsimp only
    split
    · exact not_ok_raised _
    · split
      · exact not_ok_refused _ _
      · exact deleteDrop_reports sid

omit [Tables] in
theorem deleteId_reports (cur sid : Str) : (deleteId cur sid).Reports Answer.Ok := by
  intro stored
  dsimp only
  split
  · exact not_ok_raised _
  · split
    · exact deleteChecked_reports cur _
    · exact not_ok_refused _ _

theorem bcwCatalog_reports (result : Json) (settings : ImportSettings) (runId now : Str) :
    (bcwCatalog result settings runId now).Reports Answer.Ok := by
  intro stored
  dsimp only
  split
  · exact not_ok_raised _
  · unfold bcwMerge
    split
    · exact not_ok_refused _ _
    · intro stored
      dsimp only
      split
      · exact not_ok_raised _
      · exact ⟨⟨_, rfl, ok_of_report _⟩, _, rfl, not_ok_refused _ _⟩

theorem Mutation.reports (cur : Str) (m : Mutation) : (m.task cur).Reports Answer.Ok := by
  cases m with
  | importJson env data => exact importJson_reports env data
  | delete strategyId => exact deleteId_reports cur _
  | bcw result settings runId now => exact bcwCatalog_reports result settings runId now

theorem Mutation.writesLast (cur : Str) (m : Mutation) : (m.task cur).WritesLast Answer.Ok :=
  (m.reports cur).writesLast

/-! ## What a change writes -/

/-- The written catalog has a list of strategies, and the id `cur` is still there. -/
def Written (cur : Str) (c v : Stored) : Prop :=
  ∃ entries, Holds v entries ∧
    (cur ≠ [] → ∀ ids, strategyIds c = .ok ids → HasId ids cur → HasId (entries.map idOf) cur)

omit [Tables] in
/-- `dropStrategy` writes the strategies that have another id. -/
theorem dropStrategy_eq {sid : Str} {stored : Stored} {ids : List Json} {catalog : Json}
    {left : List Json} (hids : strategyIds stored = .ok ids)
    (h : dropStrategy sid stored = .ok (catalog, left)) :
    ∃ members, ∃ entries : List Dict, ids = entries.map idOf ∧
      ((stored.getD emptyCatalog).or emptyCatalog).dict = .ok members ∧
      catalog = .obj (members.set (lit "strategies")
        (.arr ((entries.filter fun x => ¬(x.get0 (lit "id")).Is sid).map .obj))) := by
  obtain ⟨members, hmembers⟩ := members_of_strategyIds hids
  obtain ⟨entries, hentries, rfl⟩ := (strategyIds_of_dict hmembers).mp hids
  unfold dropStrategy at h
  obtain ⟨members', hmembers', hrest⟩ := bind_eq_ok.mp h
  rw [get_or_emptyCatalog hmembers hmembers', withoutId_eq hentries] at hrest
  obtain ⟨kept, hkept, hret⟩ := bind_eq_ok.mp hrest
  cases hkept
  cases hret
  exact ⟨members', entries, rfl, hmembers', rfl⟩

omit [Tables] in
/-- A deletion that writes has found the strategy, which is not the built-in or the active one. -/
theorem deleteId_writes {cur sid : Str} {c v : Stored} (h : (deleteId cur sid).Writes c v) :
    ∃ ids catalog left, strategyIds c = .ok ids ∧ HasId ids sid ∧ sid ≠ lit "none" ∧
      (sid ≠ if HasId ids cur then cur else []) ∧ dropStrategy sid c = .ok (catalog, left) ∧
      v = some catalog := by
  have hfirst := Task.writes_of_read h
  split at hfirst
  · exact absurd hfirst Task.not_writes_ret
  rename_i ids hids
  by_cases hknown : HasId ids sid
  · rw [if_pos hknown] at hfirst
    unfold deleteChecked at hfirst
    split at hfirst
    · exact absurd hfirst Task.not_writes_ret
    rename_i hnone
    have hsecond := Task.writes_of_read hfirst
    have hactive : activeStrategy cur c = .ok (if HasId ids cur then cur else []) :=
      bind_eq_ok.mpr ⟨ids, hids, rfl⟩
    rw [hactive] at hsecond
    dsimp only at hsecond
    by_cases heq : sid = if HasId ids cur then cur else []
    · rw [if_pos heq] at hsecond
      exact absurd hsecond Task.not_writes_ret
    rw [if_neg heq] at hsecond
    have hthird := Task.writes_of_read hsecond
    split at hthird
    · exact absurd hthird Task.not_writes_ret
    rename_i catalog left hdrop
    exact ⟨ids, catalog, left, hids, hknown, hnone, heq, hdrop, (Task.eq_of_writes hthird).symm⟩
  · rw [if_neg hknown] at hfirst
    exact absurd hfirst Task.not_writes_ret

omit [Tables] in
theorem deleteId_written {cur sid : Str} {c v : Stored} (h : (deleteId cur sid).Writes c v) :
    Written cur c v := by
  obtain ⟨ids, catalog, left, hids, _, _, hactive, hdrop, rfl⟩ := deleteId_writes h
  obtain ⟨members, entries, rfl, _, rfl⟩ := dropStrategy_eq hids hdrop
  refine ⟨_, holds_set _ _, fun _ ids' hids' hcur => ?_⟩
  rw [hids] at hids'
  cases hids'
  rw [if_pos hcur] at hactive
  exact hasId_filter (fun hcs => hactive hcs.symm) hcur

omit [Tables] in
/-- What is written keeps the ids that may not be dropped. -/
theorem Rewrites.written {dropped : Str → Prop} {cur : Str} {c v : Stored}
    (h : Rewrites dropped c v) (hcur : ¬dropped cur) : Written cur c v := by
  obtain ⟨old, new, hold, hholds, hedit⟩ := h
  refine ⟨new, hholds, fun hne ids hids hmem => ?_⟩
  obtain ⟨members, hmembers⟩ := members_of_strategyIds hids
  obtain ⟨entries, hentries, rfl⟩ := (strategyIds_of_dict hmembers).mp hids
  rw [entriesOf_dict hmembers, hentries] at hold
  cases hold
  rw [← lists_iff_hasId hne] at hmem ⊢
  exact hedit.kept cur hcur hmem

theorem Mutation.written {cur : Str} {m : Mutation} {c v : Stored}
    (h : (m.task cur).Writes c v) : Written cur c v := by
  cases m with
  | importJson env data =>
    have hbased : (importStrategyFromJson env data).Based (fun _ => True) (Rewrites fun _ => False) c :=
      importJson_based env data c
    exact (Task.based_writes trivial hbased h).written id
  | delete strategyId => exact deleteId_written h
  | bcw result settings runId now =>
    have hbased : (bcwCatalog result settings runId now).Based (fun _ => True)
        (Rewrites fun _ => False) c := bcwCatalog_based result settings runId now c
    exact (Task.based_writes trivial hbased h).written id

/-! ## The early reads of a deletion -/

omit [Tables] in
/-- Dropping an id that the catalog does not have writes the catalog back as it is. -/
theorem deleteDrop_effect_of_absent {sid : Str} {stored : Stored} {entries : List Dict}
    (hholds : Holds stored entries) (habsent : ¬HasId (entries.map idOf) sid) :
    (deleteDrop sid).effect stored = stored := by
  obtain ⟨members, rfl, hlookup⟩ := hholds
  rw [deleteDrop, Task.effect, dropStrategy_of_holds hlookup, filter_eq_self_of_absent habsent,
    Dict.set_eq_self hlookup]
  rfl

omit [Tables] in
theorem deleteChecked_effect_of_absent {cur sid : Str} {stored : Stored} {entries : List Dict}
    (hholds : Holds stored entries) (habsent : ¬HasId (entries.map idOf) sid) :
    (deleteChecked cur sid).effect stored = stored := by
  by_cases hnone : sid = lit "none"
  · rw [deleteChecked, if_pos hnone, Task.effect]
  · rw [deleteChecked, if_neg hnone, Task.effect, activeStrategy_of_holds hholds]
    dsimp only
    by_cases hactive : sid = if HasId (entries.map idOf) cur then cur else []
    · rw [if_pos hactive, Task.effect]
    · rw [if_neg hactive]
      exact deleteDrop_effect_of_absent hholds habsent

omit [Tables] in
theorem deleteChecked_effect {cur sid : Str} {stored : Stored} {entries : List Dict}
    (hholds : Holds stored entries) (hnone : sid ≠ lit "none")
    (hactive : sid ≠ if HasId (entries.map idOf) cur then cur else []) :
    (deleteChecked cur sid).effect stored = (deleteDrop sid).effect stored := by
  rw [deleteChecked, if_neg hnone, Task.effect, activeStrategy_of_holds hholds]
  dsimp only
  rw [if_neg hactive]

omit [Tables] in
theorem deleteId_effect {cur sid : Str} {stored : Stored} {entries : List Dict}
    (hholds : Holds stored entries) :
    (deleteId cur sid).effect stored =
      if HasId (entries.map idOf) sid then (deleteChecked cur sid).effect stored else stored := by
  rw [deleteId, Task.effect, hholds.strategyIds]
  dsimp only
  split <;> rfl

omit [Tables] in
/-- The active strategy that a deletion tested before another change is still the one to test. -/
theorem not_active_after {cur sid : Str} {c : Stored} {ids : List Json} {entries : List Dict}
    (hids : strategyIds c = .ok ids) (hknown : HasId ids sid)
    (hactive : sid ≠ if HasId ids cur then cur else [])
    (hkeep : cur ≠ [] → ∀ ids, strategyIds c = .ok ids → HasId ids cur →
      HasId (entries.map idOf) cur) :
    sid ≠ if HasId (entries.map idOf) cur then cur else [] := by
  by_cases hcur : HasId ids cur
  · rw [if_pos hcur] at hactive
    by_cases hempty : cur = []
    · rw [hempty] at hactive ⊢
      rwa [ite_self]
    · rw [if_pos (hkeep hempty ids hids hcur)]
      exact hactive
  · rw [if_neg hcur] at hactive
    split
    · rintro rfl
      exact hcur hknown
    · exact hactive

omit [Tables] in
/-- What is left of a deletion after one or two reads of `c`, when it can still succeed. -/
theorem deleteId_rest {cur sid : Str} {c : Stored} {n : Nat} {rest : Task Stored Answer}
    (hn : n < 2) (h : (deleteId cur sid).feed c (n + 1) = some rest)
    (hrest : ∀ a, rest = .ret a → a.Ok) :
    ∃ ids, strategyIds c = .ok ids ∧ HasId ids sid ∧
      (rest = deleteChecked cur sid ∨
        rest = deleteDrop sid ∧ sid ≠ lit "none" ∧ sid ≠ if HasId ids cur then cur else []) := by
  rw [deleteId, Task.feed] at h
  cases hids : strategyIds c with
  | error e =>
    rw [hids] at h
    cases n with
    | zero =>
      cases h
      exact absurd (hrest _ rfl) (not_ok_raised e)
    | succ n => cases h
  | ok ids =>
    rw [hids] at h
    dsimp only at h
    by_cases hknown : HasId ids sid
    · rw [if_pos hknown] at h
      refine ⟨ids, rfl, hknown, ?_⟩
      cases n with
      | zero =>
        cases h
        exact .inl rfl
      | succ n =>
        have hzero : n = 0 := by omega
        subst hzero
        have hactive : activeStrategy cur c = .ok (if HasId ids cur then cur else []) :=
          bind_eq_ok.mpr ⟨ids, hids, rfl⟩
        by_cases hnone : sid = lit "none"
        · rw [deleteChecked, if_pos hnone] at h
          cases h
        rw [deleteChecked, if_neg hnone, Task.feed, hactive] at h
        dsimp only at h
        by_cases hsame : sid = if HasId ids cur then cur else []
        · rw [if_pos hsame] at h
          cases h
          exact absurd (hrest _ rfl) (not_ok_refused _ _)
        · rw [if_neg hsame] at h
          cases h
          exact .inr ⟨rfl, hnone, hsame⟩
    · rw [if_neg hknown] at h
      cases n with
      | zero =>
        cases h
        exact absurd (hrest _ rfl) (not_ok_refused _ _)
      | succ n => cases h

/-- Only the last read of a deletion decides. -/
theorem deleteId_late (cur sid : Str) (u : Mutation) :
    (deleteId cur sid).Late Answer.Ok (u.task cur) 2 := by
  intro c v hwrites n hn rest hfeed hok
  obtain ⟨entries, hholds, hkeep⟩ := Mutation.written hwrites
  rw [deleteId_effect hholds]
  cases n with
  | zero =>
    cases hfeed
    exact deleteId_effect hholds
  | succ n =>
    have hrest : ∀ a, rest = .ret a → a.Ok := by
      rintro a rfl
      exact hok
    obtain ⟨ids, hids, hknown, hchecked | ⟨hdrop, hnone, hactive⟩⟩ :=
      deleteId_rest (by omega) hfeed hrest
    · rw [hchecked]
      split
      · rfl
      · rename_i habsent
        exact deleteChecked_effect_of_absent hholds habsent
    · rw [hdrop]
      split
      · exact (deleteChecked_effect hholds hnone
          (not_active_after hids hknown hactive hkeep)).symm
      · rename_i habsent
        exact deleteDrop_effect_of_absent hholds habsent

theorem Mutation.lateReads (cur : Str) (m u : Mutation) :
    (m.task cur).Late Answer.Ok (u.task cur) m.late := by
  cases m with
  | importJson env data => exact Task.late_zero _ _ _
  | delete strategyId => exact deleteId_late cur _ u
  | bcw result settings runId now => exact Task.late_zero _ _ _

/-! ## Two changes at once -/

/-- **Changes that stay apart are serial.** In every run of two changes in which no write of one
lands between the deciding read of the other one and that one's write, once both have reported
`ok`, the catalog is the one that the two leave in one of the two sequential orders. -/
theorem changes_serial (cur : Str) (m : Bool → Mutation) (c : Stored) (labels : List Bool)
    (h : Pair.machine.Guarded (Pair.Apart fun i => (m i).late)
      (Pair.start c fun i => (m i).task cur) labels) :
    Pair.machine.Always (Pair.Serial Answer.Ok c fun i => (m i).task cur)
      (Pair.start c fun i => (m i).task cur) labels :=
  Pair.serial_of_apart (fun i => (m i).writesLast cur)
    (fun i => Mutation.lateReads cur (m i) (m !i)) h

omit [Tables]

/-- A catalog with two strategies. -/
def twoStrategies : Stored :=
  some (.obj [(lit "strategies",
    .arr [.obj [(lit "id", .str (lit "a"))], .obj [(lit "id", .str (lit "b"))]])])

/-- Two deletions, of either strategy. -/
def twoDeletions (i : Bool) : Mutation := .delete (.str (lit (if i then "a" else "b")))

/-- The second deletion tests everything before the first one runs, and then reads again. -/
theorem changes_serial_tested_early : letI := Tables.ascii
    let labels := [true, true, false, false, false, false, true, true]
    Pair.machine.Guarded (Pair.Apart fun i => (twoDeletions i).late)
        (Pair.start twoStrategies fun i => (twoDeletions i).task []) labels ∧
      Pair.machine.Always (Pair.Serial Answer.Ok twoStrategies fun i => (twoDeletions i).task [])
        (Pair.start twoStrategies fun i => (twoDeletions i).task []) labels := by
  let _ := Tables.ascii
  intro labels
  have hguarded : Pair.machine.Guarded (Pair.Apart fun i => (twoDeletions i).late)
      (Pair.start twoStrategies fun i => (twoDeletions i).task []) labels := by
    refine .cons rfl nofun <| .cons rfl nofun <| .cons rfl nofun <| .cons rfl nofun <|
      .cons rfl nofun <| .cons rfl ?_ <| .cons rfl nofun <| .cons rfl ?_ trivial
    · exact fun _ _ _ => .inl (Nat.le_refl 2)
    · exact fun _ _ _ => .inr ⟨_, rfl⟩
  exact ⟨hguarded, changes_serial [] twoDeletions twoStrategies labels hguarded⟩

/-- Two deletions that both read before either writes: both report `ok`, and the first one's
strategy is back. -/
theorem both_read_first : letI := Tables.ascii
    ¬∀ cur (m : Bool → Mutation) c labels,
      Pair.machine.Always (Pair.Serial Answer.Ok c fun i => (m i).task cur)
        (Pair.start c fun i => (m i).task cur) labels := by
  let _ := Tables.ascii
  intro h
  have halways := h [] twoDeletions twoStrategies
    [false, false, false, true, true, true, false, true]
  obtain ⟨s, hrun⟩ : ∃ s, Pair.machine.run (Pair.start twoStrategies fun i =>
      (twoDeletions i).task []) [false, false, false, true, true, true, false, true] = some s :=
    ⟨_, rfl⟩
  have hserial := halways.last hrun
  cases hrun
  have hdone := hserial fun i => by
    cases i
    · exact ⟨_, rfl, _, rfl⟩
    · exact ⟨_, rfl, _, rfl⟩
  -- one strategy is left, and none after either order
  rcases hdone with heq | heq
  · exact absurd (congrArg (fun c => (strategyIds c).map List.length) heq) (by decide)
  · exact absurd (congrArg (fun c => (strategyIds c).map List.length) heq) (by decide)

end WebZapret.Panel
