import WebZapret.Apply.Transaction
import WebZapret.Panel.Mutations

/-!
# The active strategy among changes of the catalog

`wz-apply.sh strategy` and the panel share the catalog and the state file, and no lock: one
`wz-apply.sh` runs at a time, and any number of requests change the catalog meanwhile. A strategy is in
use while it is persisted, and while `wz-apply.sh` switches to it or from it.

`delete_strategy` refuses the persisted strategy, so it never drops a strategy in use as long as no
`wz-apply.sh` runs beside it (`deleteChecked_based_of_lists`). A request beside a `wz-apply.sh` must not
delete a strategy in use, since the test comes earlier than the write (`deleted_while_switching`). When
besides every request that writes the catalog has last read it with the strategies in use, the
persisted strategy is in the catalog whenever no `wz-apply.sh` runs (`active_strategy_exists`).
-/

namespace WebZapret.Apply

open Py Catalog Selection Panel Failing Proc

/-! ## The panel -/

/-- `state_get("strategy", "standard")` -/
def panelStrategy (g : Gateway) : Str := (g.strategy.getD (lit "standard")).strip

/-- A task on the catalog. -/
def onCatalog (t : Task Stored Answer) : Proc Site Gateway Answer :=
  t.toProc .flock Gateway.catalog fun c g => { g with catalog := c }

/-- `delete_strategy`, which reads the state file after its first test. -/
def deleteProc (sid : Str) : Proc Site Gateway Answer :=
  .read fun g =>
    match strategyIds g.catalog with
    | .error e => .ret (.raised e)
    | .ok ids =>
      if HasId ids sid then .read fun g => onCatalog (deleteChecked (panelStrategy g) sid)
      else .ret (.refused (lit "unknown strategy '" ++ sid ++ lit "'") [])

/-- A request that changes the catalog. -/
def mutationProc [Tables] : Mutation → Proc Site Gateway Answer
  | .importJson env data => onCatalog (importStrategyFromJson env data)
  | .delete strategyId => deleteProc (strategyId.or (.str [])).text
  | .bcw result settings runId now => onCatalog (bcwCatalog result settings runId now)

/-- The id that a request is to delete. -/
def Deletes [Tables] : Mutation → Str → Prop
  | .delete strategyId, sid => sid = (strategyId.or (.str [])).text
  | _, _ => False

/-! ## The system -/

/-- A `wz-apply.sh strategy id` that runs, and the strategy that was persisted when it began. -/
structure Applying where
  id : Str
  old : Str
  rest : Proc Site Gateway Nat

/-- A request that runs, the state that it has read last, and whether no `wz-apply.sh` has run since it
began. -/
structure Changing where
  mutation : Mutation
  seen : Gateway
  rest : Proc Site Gateway Answer
  alone : Bool

/-- The gateway, the `wz-apply.sh` that has the lock, and the requests. -/
structure System where
  gateway : Gateway
  applying : Option Applying
  panel : List Changing

inductive Event
  | begin (id : Str)
  /-- a step of `wz-apply.sh`, or its end -/
  | apply (faults : Nat → Bool)
  | request (m : Mutation)
  /-- a step of a request -/
  | panel (i : Nat) (faults : Nat → Bool)

def System.step [Tables] (cfg : Setup) (s : System) : Event → Option System
  | .begin id =>
    if s.applying.isNone then
      some { s with
        applying := some ⟨id, activeStrategy cfg s.gateway, Apply.apply cfg (.strategy id)⟩
        panel := s.panel.map fun c => { c with alone := false } }
    else none
  | .apply faults => s.applying.map fun a =>
    match a.rest.step faults s.gateway with
    | none => { s with applying := none }
    | some (rest, gateway) => { s with gateway, applying := some { a with rest } }
  | .request m => some { s with
      panel := s.panel ++ [⟨m, s.gateway, mutationProc m, s.applying.isNone⟩] }
  | .panel i faults => do
    let c ← s.panel[i]?
    let (rest, gateway) ← c.rest.step faults s.gateway
    let seen := c.rest.lastRead c.seen s.gateway
    return { s with gateway, panel := s.panel.set i { c with seen, rest } }

def system [Tables] (cfg : Setup) : Machine System Event := ⟨System.step cfg⟩

/-! ## What is promised, and what is needed -/

/-- The catalog has a strategy with the id. -/
def Names (stored : Stored) (sid : Str) : Prop :=
  ∃ members items s, stored = some (.obj members) ∧
    members.lookup (lit "strategies") = some (.arr items) ∧
    .obj s ∈ items ∧ s.lookup (lit "id") = some (.str sid)

/-- `valid_strategy_id` can read the catalog. -/
def Readable (stored : Stored) : Prop := ∃ ids, catalogIds stored = some ids

/-- A strategy is persisted, and it is in the catalog. -/
def Active (g : Gateway) : Prop :=
  ∃ sid, g.strategy.map output = some sid ∧ Names g.catalog sid

/-- The strategies that are persisted, or that `wz-apply.sh` switches to or from. -/
def System.inUse (cfg : Setup) (s : System) : List Str :=
  activeStrategy cfg s.gateway :: s.applying.elim [] fun a => [a.id, a.old]

/-- The new catalog has the strategy if the old one has. -/
structure Keeps (old new : Stored) (sid : Str) : Prop where
  named : Names old sid → Names new sid
  readable : Readable old → Readable new

/-- The refusal of `delete_strategy` is right: no `wz-apply.sh` has run since the request began, and the
panel reads the persisted strategy as the scripts do (it has no white space around it). -/
def Shielded (cfg : Setup) (s : System) (c : Changing) : Prop :=
  c.alone = true ∧ panelStrategy s.gateway = activeStrategy cfg s.gateway

/-- A request that changes the catalog has last read it with the strategies in use, and deletes none of
them unless its own refusal is right. A switch begins with an id that ends in no newline, and from an
id that is not empty: the state file keeps no other. -/
def Careful [Tables] (cfg : Setup) (s : System) : Event → Prop
  | .begin id => output id = id ∧ activeStrategy cfg s.gateway ≠ []
  | .panel i faults => ∀ c t, s.panel[i]? = some c → s.step cfg (.panel i faults) = some t →
    t.gateway.catalog ≠ s.gateway.catalog →
    ∀ sid ∈ s.inUse cfg, Keeps s.gateway.catalog c.seen.catalog sid ∧
      (Shielded cfg s c ∨ ¬Deletes c.mutation sid)
  | _ => True

/-! ## The catalog as the scripts read it -/

theorem keeps_refl (stored : Stored) (sid : Str) : Keeps stored stored sid := ⟨id, id⟩

theorem Keeps.trans {c d e : Stored} {sid : Str} (h : Keeps c d sid) (h' : Keeps d e sid) :
    Keeps c e sid := ⟨h'.named ∘ h.named, h'.readable ∘ h.readable⟩

theorem entryId_eq_str {x : Json} {sid : Str} :
    entryId x = some (.str sid) ↔ ∃ s, x = .obj s ∧ s.lookup (lit "id") = some (.str sid) := by
  constructor
  · intro h
    cases x with
    | obj s =>
      refine ⟨s, rfl, ?_⟩
      dsimp only [entryId] at h
      split at h
      · cases h
      · cases h
      · exact h
    | null => cases h
    | bool b => cases h
    | int i => cases h
    | float x => cases h
    | str s => cases h
    | arr items => cases h
  · rintro ⟨s, rfl, hid⟩
    rw [entryId, hid]

/-- The ids of a catalog, when its parts are there. -/
theorem catalogIds_eq_some {stored : Stored} {ids : List Json} :
    catalogIds stored = some ids ↔ ∃ members items, stored = some (.obj members) ∧
      members.lookup (lit "strategies") = some (.arr items) ∧ items.mapM entryId = some ids := by
  constructor
  · intro h
    unfold catalogIds at h
    split at h
    · rename_i members
      split at h
      · rename_i items hitems
        exact ⟨members, items, rfl, hitems, h⟩
      · cases h
    · cases h
  · rintro ⟨members, items, rfl, hitems, hids⟩
    rw [catalogIds, hitems]
    exact hids

/-- `valid_strategy_id` accepts the ids of a catalog that it can read. -/
theorem validStrategyId_iff {stored : Stored} {sid : Str} :
    validStrategyId stored sid = true ↔ sid ≠ [] ∧ Readable stored ∧ Names stored sid := by
  rw [validStrategyId, Bool.and_eq_true, decide_eq_true_eq, Option.any_eq_true]
  refine and_congr_right fun _ => ?_
  have hmem : ∀ {items : List Json} {ids : List Json}, items.mapM entryId = some ids →
      (HasId ids sid ↔ ∃ s, .obj s ∈ items ∧ s.lookup (lit "id") = some (.str sid)) := by
    intro items ids hids
    constructor
    · rintro ⟨x, hx, rfl⟩
      obtain ⟨y, hy, hid⟩ := (mem_iff_of_mapM_eq_some hids).mp hx
      obtain ⟨s, rfl, hs⟩ := entryId_eq_str.mp hid
      exact ⟨s, hy, hs⟩
    · rintro ⟨s, hs, hid⟩
      exact ⟨_, (mem_iff_of_mapM_eq_some hids).mpr ⟨_, hs, entryId_eq_str.mpr ⟨s, rfl, hid⟩⟩, rfl⟩
  constructor
  · rintro ⟨ids, hids, hhas⟩
    obtain ⟨members, items, rfl, hitems, hmap⟩ := catalogIds_eq_some.mp hids
    obtain ⟨s, hs, hid⟩ := (hmem hmap).mp (of_decide_eq_true hhas)
    exact ⟨⟨ids, hids⟩, members, items, s, rfl, hitems, hs, hid⟩
  · rintro ⟨⟨ids, hids⟩, members, items, s, rfl, hitems, hs, hid⟩
    obtain ⟨members', items', heq, hitems', hmap⟩ := catalogIds_eq_some.mp hids
    cases heq
    rw [hitems] at hitems'
    cases hitems'
    exact ⟨ids, hids, decide_eq_true ((hmem hmap).mpr ⟨s, hs, hid⟩)⟩

/-! ## What a rewrite keeps -/

theorem eq_of_entriesIn {items : List Json} {entries : List Dict}
    (h : entriesIn (.arr items) = .ok entries) : items = entries.map .obj := by
  have hall : items.mapM Json.dict = .ok entries := h
  clear h
  induction items generalizing entries with
  | nil =>
    cases hall
    rfl
  | cons x items ih =>
    rw [List.mapM_cons] at hall
    obtain ⟨d, hd, hrest⟩ := bind_eq_ok.mp hall
    obtain ⟨ds, hds, hret⟩ := bind_eq_ok.mp hrest
    cases hret
    cases x with
    | obj s =>
      cases hd
      rw [ih hds]
      rfl
    | null => cases hd
    | bool b => cases hd
    | int i => cases hd
    | float x => cases hd
    | str s => cases hd
    | arr items => cases hd

/-- The list that an operation reads is the one that the scripts read. -/
theorem eq_of_entriesOf {members : Dict} {items : List Json} {entries : List Dict}
    (hitems : members.lookup (lit "strategies") = some (.arr items))
    (h : entriesOf (some (.obj members)) = .ok entries) : items = entries.map .obj := by
  have hdict : ((some (Json.obj members)).getD emptyCatalog).dict = .ok members := rfl
  rw [entriesOf_dict hdict, Dict.get, hitems] at h
  exact eq_of_entriesIn h

theorem names_of_rewrites {dropped : Str → Prop} {c v : Stored} {sid : Str}
    (h : Rewrites dropped c v) (hsid : ¬dropped sid) (hnames : Names c sid) : Names v sid := by
  obtain ⟨old, new, hold, ⟨members', rfl, hnew⟩, hedit⟩ := h
  obtain ⟨members, items, s, rfl, hitems, hs, hid⟩ := hnames
  rw [eq_of_entriesOf hitems hold] at hs
  obtain ⟨s', hs', heq⟩ := List.mem_map.mp hs
  cases heq
  obtain ⟨e, he, heid⟩ := hedit.kept sid hsid ⟨_, hs', hid⟩
  exact ⟨members', _, e, rfl, hnew, List.mem_map_of_mem he, heid⟩

theorem readable_of_rewrites {dropped : Str → Prop} {c v : Stored} (h : Rewrites dropped c v)
    (hreadable : Readable c) : Readable v := by
  obtain ⟨old, new, hold, ⟨members', rfl, hnew⟩, hedit⟩ := h
  obtain ⟨ids, hids⟩ := hreadable
  obtain ⟨members, items, rfl, hitems, hmap⟩ := catalogIds_eq_some.mp hids
  have hitemsEq := eq_of_entriesOf hitems hold
  have hall : ∀ x ∈ new.map Json.obj, ∃ i, entryId x = some i := by
    intro x hx
    obtain ⟨s, hs, rfl⟩ := List.mem_map.mp hx
    rcases hedit.ids s hs with hbefore | ⟨sid, hsid⟩
    · have hmem : Json.obj s ∈ items := hitemsEq ▸ List.mem_map_of_mem hbefore
      exact exists_mapM_eq_some.mp ⟨ids, hmap⟩ _ hmem
    · exact ⟨_, entryId_eq_str.mpr ⟨s, rfl, hsid⟩⟩
  obtain ⟨ids', hids'⟩ := exists_mapM_eq_some.mpr hall
  exact ⟨ids', catalogIds_eq_some.mpr ⟨members', _, rfl, hnew, hids'⟩⟩

/-- What is written from a catalog with a strategy that may not be dropped. -/
theorem keeps_of_rewrites {dropped : Str → Prop} {now c v : Stored} {sid : Str}
    (h : Rewrites dropped c v) (hsid : ¬dropped sid) (hkeeps : Keeps now c sid) :
    Keeps now v sid :=
  hkeeps.trans ⟨names_of_rewrites h hsid, readable_of_rewrites h⟩

/-! ## What the requests do -/

/-- A step of a request leaves the state files, and the catalog or what it makes of the one it has read
last. -/
structure Rewriting (dropped : Str → Prop) (seen s t : Gateway) : Prop where
  strategy : t.strategy = s.strategy
  catalog : t.catalog = s.catalog ∨ Rewrites dropped seen.catalog t.catalog

theorem rewriting_refl (dropped : Str → Prop) (seen s : Gateway) : Rewriting dropped seen s s :=
  ⟨rfl, .inl rfl⟩

theorem onCatalog_guarantees {A : Gateway → Prop} (B : Stored → Prop)
    (hAB : ∀ g, A g → B g.catalog) {dropped : Str → Prop} {t : Task Stored Answer}
    (h : ∀ c, t.Based B (Rewrites dropped) c) (seen : Gateway) :
    (onCatalog t).Guarantees A (Rewriting dropped) seen := by
  refine Task.toProc_guarantees hAB (rewriting_refl dropped) ?_ (h seen.catalog)
  exact fun _ _ _ hv => ⟨rfl, .inr hv⟩

theorem mutationProc_guarantees [Tables] (m : Mutation) (seen : Gateway) :
    (mutationProc m).Guarantees (fun _ => True) (Rewriting (Deletes m)) seen := by
  have htrue : Gateway → True → True := fun _ _ => trivial
  cases m with
  | importJson env data =>
    exact onCatalog_guarantees (fun _ => True) htrue (importJson_based env data) seen
  | delete strategyId =>
    intro g _
    dsimp only
    split
    · trivial
    · split
      · intro g' _
        exact onCatalog_guarantees (fun _ => True) htrue (deleteChecked_based (panelStrategy g') _) g'
      · trivial
  | bcw result settings runId now =>
    exact onCatalog_guarantees (fun _ => True) htrue (bcwCatalog_based result settings runId now) seen

/-- The panel reads this strategy as the persisted one, and it is in the catalog. -/
structure Shows (cur : Str) (g : Gateway) : Prop where
  strategy : panelStrategy g = cur
  named : Names g.catalog cur

theorem lists_of_names {c : Stored} {cur : Str} (h : Names c cur) :
    ∀ entries, entriesOf c = .ok entries → Lists entries cur := by
  obtain ⟨members, items, s, rfl, hitems, hs, hid⟩ := h
  intro entries hentries
  rw [eq_of_entriesOf hitems hentries] at hs
  obtain ⟨s', hs', heq⟩ := List.mem_map.mp hs
  cases heq
  exact ⟨_, hs', hid⟩

/-- **A request does not drop the strategy that it finds persisted.** -/
theorem mutationProc_guarantees_shows [Tables] (cur : Str) (m : Mutation) (seen : Gateway) :
    (mutationProc m).Guarantees (Shows cur) (Rewriting fun x => Deletes m x ∧ x ≠ cur) seen := by
  have htrue : ∀ g, Shows cur g → True := fun _ _ => trivial
  have hnone : ∀ (P : Str → Prop) (c v : Stored), Rewrites (fun _ => False) c v → Rewrites P c v :=
    fun P c v hrewrites => hrewrites.mono fun _ h => h.elim
  cases m with
  | importJson env data =>
    exact onCatalog_guarantees (fun _ => True) htrue
      (fun c => (importJson_based env data c).mono (hnone _)) seen
  | delete strategyId =>
    intro g _
    dsimp only
    split
    · trivial
    · split
      · intro g' hshows
        dsimp only
        rw [hshows.strategy]
        exact onCatalog_guarantees _ (fun g hg => lists_of_names hg.named)
          (deleteChecked_based_of_lists cur _) g'
      · trivial
  | bcw result settings runId now =>
    exact onCatalog_guarantees (fun _ => True) htrue
      (fun c => (bcwCatalog_based result settings runId now c).mono (hnone _)) seen

/-! ## What `wz-apply.sh` relies on -/

/-- The requests leave the state file, and the strategies of `used`. -/
structure Rely (used : List Str) (g h : Gateway) : Prop where
  strategy : h.strategy = g.strategy
  keeps : ∀ sid ∈ used, Keeps g.catalog h.catalog sid

/-- The strategy is persisted, and `wz-apply.sh` accepts all the used ones. -/
structure Holding (used : List Str) (sid : Str) (g : Gateway) : Prop where
  strategy : g.strategy.map output = some sid
  valid : ∀ x ∈ used, validStrategyId g.catalog x = true

section Rely

variable {cfg : Setup} {used : List Str} {g h k : Gateway} {sid : Str}

theorem rely_refl (g : Gateway) : Rely used g g := ⟨rfl, fun sid _ => keeps_refl g.catalog sid⟩

theorem rely_trans (g h k : Gateway) (hgh : Rely used g h) (hhk : Rely used h k) : Rely used g k :=
  ⟨hhk.strategy.trans hgh.strategy, fun sid hsid => (hgh.keeps sid hsid).trans (hhk.keeps sid hsid)⟩

theorem valid_of_keeps {c d : Stored} (hkeeps : Keeps c d sid)
    (hvalid : validStrategyId c sid = true) : validStrategyId d sid = true := by
  obtain ⟨hne, hreadable, hnames⟩ := validStrategyId_iff.mp hvalid
  exact validStrategyId_iff.mpr ⟨hne, hkeeps.readable hreadable, hkeeps.named hnames⟩

theorem stable_holding : Stable (Rely used) (Holding used sid) := by
  intro g h hg hrely
  exact ⟨by rw [hrely.strategy, hg.strategy],
    fun x hx => valid_of_keeps (hrely.keeps x hx) (hg.valid x hx)⟩

theorem Holding.active (hg : Holding used sid g) (hsid : sid ∈ used) : Active g :=
  ⟨sid, hg.strategy, (validStrategyId_iff.mp (hg.valid sid hsid)).2.2⟩

/-- A command of the model that changes nothing. -/
theorem cmd_some_state (g : Gateway) (f : Nat → Bool) : (Script.cmd some ⟨g, f⟩).2.state = g := by
  rw [run_cmd_some]

/-- What a script reads of a persisted strategy, whatever it takes where none is. -/
theorem output_getD (h : g.strategy.map output = some sid) (other : Str) :
    output (g.strategy.getD other) = sid := by
  cases hs : g.strategy with
  | none =>
    rw [hs] at h
    cases h
  | some s =>
    rw [hs] at h
    exact Option.some.inj h

/-- The restart of nfqws finds the strategy in the catalog. -/
theorem restart_safe (again : Bool) (hg : Holding used sid g) (hsid : sid ∈ used) :
    Safe (Rely used) (fun _ => Holding used sid) (restartNfqws cfg again) g := by
  unfold restartNfqws startNfqws
  refine safe_invoke stable_holding hg fun g hg f => ?_
  rw [cmd_some_state]
  split
  · refine safe_ask stable_holding hg fun g hg => ?_
    rw [activeStrategy, output_getD hg.strategy]
    refine safe_ask stable_holding hg fun g hg => ?_
    rw [hg.valid sid hsid, if_pos rfl]
    split
    · exact safe_pure stable_holding hg fun g hg => hg
    · intro g' hrely f
      rw [(run_nfqwsStart g' f).2]
      exact safe_pure stable_holding (stable_holding g g' hg hrely) fun g hg => hg
  · exact safe_pure stable_holding hg fun g hg => hg

theorem fwStart_holding (hg : Holding used sid g) (f : Nat → Bool) :
    Holding used sid (fwStart cfg ⟨g, f⟩).2.state := by
  obtain ⟨_, h, hafter, _⟩ := fwStart_run cfg g f
  rw [hafter]
  exact ⟨hg.strategy, hg.valid⟩

theorem holding_write (hg : Holding used sid g) {id : Str} (hid : output id = id) :
    Holding used id (g.withStrategy id) := by
  refine ⟨?_, hg.valid⟩
  show some (output (line id)) = some id
  rw [output_line, hid]

/-- What a switch and its rollback leave. -/
theorem activate_safe {old : Str} (hg : Holding used sid g) (hsid : sid ∈ used)
    (hold : output old = old) (hused : old ∈ used) :
    Safe (Rely used) (fun _ => Active) (activate cfg old) g := by
  refine safe_bind ?_ rely_refl
  refine safe_mono (fun restarted g hg => ?_) (restart_safe false hg hsid)
  split
  · refine safe_invoke stable_holding hg fun g hg f => ?_
    exact safe_pure stable_holding (fwStart_holding hg f) fun g hg => hg.active hsid
  · refine safe_change stable_holding hg fun g hg => ?_
    refine safe_bind ?_ rely_refl
    refine safe_mono (fun _ g hg => ?_) (restart_safe true (holding_write hg hold) hused)
    exact safe_pure stable_holding hg fun g hg => hg.active hused

/-- What is persisted when `wz-apply.sh` begins. -/
structure Persisted (old : Str) (g : Gateway) : Prop where
  strategy : g.strategy.map output = some old
  named : Names g.catalog old

theorem stable_persisted {old : Str} (hused : old ∈ used) : Stable (Rely used) (Persisted old) := by
  intro g h hg hrely
  exact ⟨by rw [hrely.strategy, hg.strategy], (hrely.keeps old hused).named hg.named⟩

theorem Persisted.active {old : Str} (hg : Persisted old g) : Active g :=
  ⟨old, hg.strategy, hg.named⟩

/-- The requests keep the two strategies of the switch. -/
theorem apply_safe {id old : Str} (hg : Persisted old g) (hid : output id = id) (hne : old ≠ []) :
    Safe (Rely [id, old]) (fun _ => Active) (Apply.apply cfg (.strategy id)) g := by
  have holdUsed : old ∈ [id, old] := List.mem_cons_of_mem id (List.mem_singleton_self old)
  have hstable := stable_persisted holdUsed
  have hself : output old = old := by
    rw [← output_getD hg.strategy [], output_output]
  unfold Apply.apply Request.run doStrategy
  refine safe_invoke hstable hg fun g hg f => ?_
  rw [cmd_some_state]
  split
  · refine safe_ask hstable hg fun g hg => ?_
    cases hvalid : validStrategyId g.catalog id with
    | false => exact safe_pure hstable hg fun g hg => hg.active
    | true =>
      have hreadable := (validStrategyId_iff.mp hvalid).2.1
      have holding : Holding [id, old] old g := by
        refine ⟨hg.strategy, fun x hx => ?_⟩
        rcases List.mem_cons.mp hx with rfl | hx
        · exact hvalid
        · rw [List.mem_singleton.mp hx]
          exact validStrategyId_iff.mpr ⟨hne, hreadable, hg.named⟩
      refine safe_ask stable_holding holding fun g hg => ?_
      rw [output_getD hg.strategy]
      split
      · exact safe_pure stable_holding hg fun g hg => hg.active holdUsed
      · refine safe_change stable_holding hg fun g hg => ?_
        exact activate_safe (holding_write hg hid) List.mem_cons_self hself holdUsed
  · exact safe_pure hstable hg fun g hg => hg.active

end Rely

/-! ## Every run -/

/-- What holds between the steps: every request does what it may, and `wz-apply.sh` will leave a
strategy that is in the catalog, or has. -/
structure Inv [Tables] (cfg : Setup) (s : System) : Prop where
  panel : ∀ c ∈ s.panel, c.rest.Guarantees (fun _ => True) (Rewriting (Deletes c.mutation)) c.seen
  alone : ∀ c ∈ s.panel, c.alone = true → s.applying = none
  shielded : ∀ c ∈ s.panel, Shielded cfg s c →
    c.rest.Guarantees (Shows (panelStrategy s.gateway))
      (Rewriting fun x => Deletes c.mutation x ∧ x ≠ panelStrategy s.gateway) c.seen
  idle : s.applying = none → Active s.gateway
  busy : ∀ a, s.applying = some a →
    Safe (Rely [a.id, a.old]) (fun _ => Active) a.rest s.gateway

theorem Active.persisted (cfg : Setup) {g : Gateway} (h : Active g) :
    Persisted (activeStrategy cfg g) g := by
  obtain ⟨sid, hstrategy, hnames⟩ := h
  rw [activeStrategy, output_getD hstrategy]
  exact ⟨hstrategy, hnames⟩

section Steps

variable [Tables] (cfg : Setup) {s t : System}

theorem inv_begin {id : Str} (hs : Inv cfg s) (hid : output id = id)
    (hne : activeStrategy cfg s.gateway ≠ []) (hstep : s.step cfg (.begin id) = some t) :
    Inv cfg t := by
  cases happlying : s.applying with
  | some a => simp [System.step, happlying] at hstep
  | none =>
    simp only [System.step, happlying, Option.isNone_none, if_true, Option.some.injEq] at hstep
    subst hstep
    -- no request is alone any more
    have hpanel : ∀ c ∈ s.panel.map fun c => { c with alone := false },
        c.alone = false ∧ ∃ d ∈ s.panel, c = { d with alone := false } := by
      intro c hc
      obtain ⟨d, hd, rfl⟩ := List.mem_map.mp hc
      exact ⟨rfl, d, hd, rfl⟩
    constructor
    · intro c hc
      obtain ⟨-, d, hd, rfl⟩ := hpanel c hc
      exact hs.panel d hd
    · intro c hc halone
      rw [(hpanel c hc).1] at halone
      cases halone
    · intro c hc hshielded
      have halone := hshielded.1
      rw [(hpanel c hc).1] at halone
      cases halone
    · exact nofun
    · intro a ha
      cases ha
      exact apply_safe ((hs.idle happlying).persisted cfg) hid hne

/-- Beside a `wz-apply.sh` no request is alone. -/
theorem Inv.not_alone {a : Applying} (hs : Inv cfg s) (happlying : s.applying = some a) :
    ∀ c ∈ s.panel, c.alone ≠ true := by
  intro c hc halone
  rw [hs.alone c hc halone] at happlying
  cases happlying

theorem inv_apply {faults : Nat → Bool} (hs : Inv cfg s)
    (hstep : s.step cfg (.apply faults) = some t) : Inv cfg t := by
  obtain ⟨a, happlying, hnext⟩ := Option.map_eq_some_iff.mp hstep
  have hsafe := hs.busy a happlying
  have hnone := hs.not_alone cfg happlying
  cases hrest : a.rest.step faults s.gateway with
  | none =>
    rw [hrest] at hnext
    subst hnext
    refine ⟨hs.panel, fun _ _ _ => rfl, fun c hc hshielded => absurd hshielded.1 (hnone c hc),
      fun _ => ?_, nofun⟩
    cases hend : a.rest with
    | ret status =>
      rw [hend] at hsafe
      exact safe_ret rely_refl hsafe
    | read k =>
      rw [hend] at hrest
      cases hrest
    | write f k =>
      rw [hend] at hrest
      cases hrest
    | call site p k =>
      rw [hend] at hrest
      cases hrest
  | some next =>
    rw [hrest] at hnext
    subst hnext
    refine ⟨hs.panel, fun c hc halone => absurd halone (hnone c hc),
      fun c hc hshielded => absurd hshielded.1 (hnone c hc), nofun, fun b hb => ?_⟩
    cases hb
    exact safe_step rely_refl hsafe hrest

theorem inv_request {m : Mutation} (hs : Inv cfg s) (hstep : s.step cfg (.request m) = some t) :
    Inv cfg t := by
  cases hstep
  constructor
  · refine List.forall_mem_append.mpr ⟨hs.panel, List.forall_mem_singleton.mpr ?_⟩
    exact mutationProc_guarantees m s.gateway
  · refine List.forall_mem_append.mpr ⟨hs.alone, List.forall_mem_singleton.mpr ?_⟩
    exact Option.isNone_iff_eq_none.mp
  · refine List.forall_mem_append.mpr ⟨hs.shielded, List.forall_mem_singleton.mpr ?_⟩
    exact fun _ => mutationProc_guarantees_shows _ m s.gateway
  · exact hs.idle
  · exact hs.busy

/-- While no `wz-apply.sh` runs, the persisted strategy is what a shielded request finds. -/
theorem Inv.shows {c : Changing} (hs : Inv cfg s) (hc : c ∈ s.panel) (hshielded : Shielded cfg s c) :
    s.applying = none ∧ Shows (panelStrategy s.gateway) s.gateway := by
  obtain ⟨halone, hsame⟩ := hshielded
  have hidle := hs.alone c hc halone
  refine ⟨hidle, rfl, ?_⟩
  rw [hsame]
  exact ((hs.idle hidle).persisted cfg).named

/-- What a step of a shielded request does to the catalog, and what is left of it. -/
theorem Inv.shielded_step {c : Changing} {faults : Nat → Bool} {rest : Proc Site Gateway Answer}
    {gateway : Gateway} (hs : Inv cfg s) (hc : c ∈ s.panel) (hshielded : Shielded cfg s c)
    (hnext : c.rest.step faults s.gateway = some (rest, gateway)) :
    Rewriting (fun x => Deletes c.mutation x ∧ x ≠ panelStrategy s.gateway) c.seen s.gateway gateway ∧
      rest.Guarantees (Shows (panelStrategy s.gateway))
        (Rewriting fun x => Deletes c.mutation x ∧ x ≠ panelStrategy s.gateway)
        (c.rest.lastRead c.seen s.gateway) :=
  guarantees_step (rewriting_refl _) (hs.shielded c hc hshielded) (hs.shows cfg hc hshielded).2 hnext

/-- A careful step of a request is what `wz-apply.sh` relies on. -/
theorem rely_of_careful {i : Nat} {faults : Nat → Bool} {c : Changing} (used : List Str)
    (hs : Inv cfg s) (hc : s.panel[i]? = some c) (hcareful : Careful cfg s (.panel i faults))
    (hstep : s.step cfg (.panel i faults) = some t) (hused : ∀ sid ∈ used, sid ∈ s.inUse cfg)
    {rest : Proc Site Gateway Answer}
    (hnext : c.rest.step faults s.gateway = some (rest, t.gateway)) :
    Rely used s.gateway t.gateway := by
  have hmem : c ∈ s.panel := List.mem_of_getElem? hc
  have hrewriting := (guarantees_step (rewriting_refl _) (hs.panel c hmem) trivial hnext).1
  refine ⟨hrewriting.strategy, fun sid hsid => ?_⟩
  by_cases hsame : t.gateway.catalog = s.gateway.catalog
  · rw [hsame]
    exact keeps_refl _ sid
  obtain ⟨hkeeps, hdeletes⟩ := hcareful c t hc hstep hsame sid (hused sid hsid)
  rcases hdeletes with hshielded | hdeletes
  · -- the only strategy in use is the persisted one
    have hidle := (hs.shows cfg hmem hshielded).1
    have hpersisted : sid = panelStrategy s.gateway := by
      have hin := hused sid hsid
      rw [System.inUse, hidle] at hin
      rw [hshielded.2]
      exact List.mem_singleton.mp hin
    rcases (hs.shielded_step cfg hmem hshielded hnext).1.catalog with heq | hrewrites
    · exact absurd heq hsame
    · exact keeps_of_rewrites hrewrites (fun hdropped => hdropped.2 hpersisted) hkeeps
  · rcases hrewriting.catalog with heq | hrewrites
    · exact absurd heq hsame
    · exact keeps_of_rewrites hrewrites hdeletes hkeeps

theorem inv_panel {i : Nat} {faults : Nat → Bool} (hs : Inv cfg s)
    (hcareful : Careful cfg s (.panel i faults)) (hstep : s.step cfg (.panel i faults) = some t) :
    Inv cfg t := by
  have hstepped := hstep
  obtain ⟨c, hc, hrest⟩ := Option.bind_eq_some_iff.mp hstep
  obtain ⟨⟨rest, gateway⟩, hnext, hret⟩ := Option.bind_eq_some_iff.mp hrest
  cases hret
  have hmem : c ∈ s.panel := List.mem_of_getElem? hc
  obtain ⟨hrewriting, hguarantees⟩ :=
    guarantees_step (rewriting_refl (Deletes c.mutation)) (hs.panel c hmem) trivial hnext
  have hstrategy : gateway.strategy = s.gateway.strategy := hrewriting.strategy
  have hpanelStrategy : panelStrategy gateway = panelStrategy s.gateway := by
    rw [panelStrategy, panelStrategy, hstrategy]
  have hactive : activeStrategy cfg gateway = activeStrategy cfg s.gateway := by
    rw [activeStrategy, activeStrategy, hstrategy]
  constructor
  · intro d hd
    rcases List.mem_or_eq_of_mem_set hd with hbefore | rfl
    · exact hs.panel d hbefore
    · exact hguarantees
  · intro d hd halone
    rcases List.mem_or_eq_of_mem_set hd with hbefore | rfl
    · exact hs.alone d hbefore halone
    · exact hs.alone c hmem halone
  · intro d hd hshielded
    have hsame : d.alone = true ∧ panelStrategy s.gateway = activeStrategy cfg s.gateway :=
      ⟨hshielded.1, by rw [← hpanelStrategy, ← hactive]; exact hshielded.2⟩
    show d.rest.Guarantees (Shows (panelStrategy gateway))
      (Rewriting fun x => Deletes d.mutation x ∧ x ≠ panelStrategy gateway) d.seen
    rw [hpanelStrategy]
    rcases List.mem_or_eq_of_mem_set hd with hbefore | rfl
    · exact hs.shielded d hbefore hsame
    · exact (hs.shielded_step cfg hmem hsame hnext).2
  · intro hidle
    have hpersisted := (hs.idle hidle).persisted cfg
    have hrely := rely_of_careful cfg [activeStrategy cfg s.gateway] hs hc hcareful hstepped
      (fun sid hsid => List.mem_singleton.mp hsid ▸ List.mem_cons_self) hnext
    exact (stable_persisted (List.mem_singleton_self _) _ _ hpersisted hrely).active
  · intro a ha
    have happlying : s.applying = some a := ha
    have hrely := rely_of_careful cfg [a.id, a.old] hs hc hcareful hstepped (fun sid hsid => by
      rw [System.inUse, happlying]
      exact List.mem_cons_of_mem _ hsid) hnext
    exact safe_env rely_trans (hs.busy a happlying) hrely

end Steps

/-- **The persisted strategy exists.** In every run whose steps are careful, the persisted strategy is
in the catalog whenever no `wz-apply.sh` runs. -/
theorem active_strategy_exists [Tables] (cfg : Setup) (g : Gateway) (hactive : Active g)
    (events : List Event) (h : (system cfg).Guarded (Careful cfg) ⟨g, none, []⟩ events) :
    (system cfg).Always (fun s => s.applying = none → Active s.gateway) ⟨g, none, []⟩ events := by
  have hstart : Inv cfg ⟨g, none, []⟩ := ⟨nofun, nofun, nofun, fun _ => hactive, nofun⟩
  have hinv : (system cfg).Always (Inv cfg) ⟨g, none, []⟩ events := by
    refine (system cfg).always_of_guarded ?_ hstart h
    intro s e t hs hcareful hstep
    cases e with
    | begin id => exact inv_begin cfg hs hcareful.1 hcareful.2 hstep
    | apply faults => exact inv_apply cfg hs hstep
    | request m => exact inv_request cfg hs hstep
    | panel i faults => exact inv_panel cfg hs hcareful hstep
  exact hinv.mono fun s hs => hs.idle

/-- Both strategies of `running` are in its catalog. -/
theorem running_active : Active running :=
  ⟨lit "a", rfl, _, _, _, rfl, rfl, List.mem_cons_self, rfl⟩

/-- A deletion of the persisted strategy is refused; another deletion reads before a switch, which is
rolled back, and writes after it. -/
theorem active_strategy_exists_rolled_back : letI := Tables.ascii
    let events := [.request (.delete (.str (lit "a"))), .panel 0 noFaults, .panel 0 noFaults,
      .panel 0 noFaults, .request (.delete (.str (lit "b"))), .panel 1 noFaults, .panel 1 noFaults,
      .panel 1 noFaults, .panel 1 noFaults, .begin (lit "b"), .apply noFaults, .apply noFaults,
      .apply noFaults, .apply noFaults, .apply fun _ => true, .apply noFaults,
      .apply fun _ => true, .apply noFaults, .panel 1 noFaults]
    (system defaultSetup).Guarded (Careful defaultSetup) ⟨running, none, []⟩ events ∧
      (system defaultSetup).Always (fun s => s.applying = none → Active s.gateway)
        ⟨running, none, []⟩ events := by
  let _ := Tables.ascii
  intro events
  have hguarded : (system defaultSetup).Guarded (Careful defaultSetup) ⟨running, none, []⟩
      events := by
    refine .cons rfl trivial <| .cons rfl ?_ <| .cons rfl ?_ <| .cons rfl ?_ <|
      .cons rfl trivial <| .cons rfl ?_ <| .cons rfl ?_ <| .cons rfl ?_ <| .cons rfl ?_ <|
      .cons rfl ⟨rfl, by decide⟩ <| .cons rfl trivial <| .cons rfl trivial <|
      .cons rfl trivial <| .cons rfl trivial <| .cons rfl trivial <| .cons rfl trivial <|
      .cons rfl trivial <| .cons rfl trivial <| .cons rfl ?_ trivial
    -- the first steps of the requests only read
    iterate 7
      · intro c t hc ht hne
        cases ht
        exact absurd rfl hne
    · intro c t hc ht hne sid hsid
      cases hc
      have hsid : sid = lit "a" := List.mem_singleton.mp hsid
      rw [hsid]
      exact ⟨keeps_refl _ _, .inr (by decide : ¬lit "a" = lit "b")⟩
  exact ⟨hguarded, active_strategy_exists defaultSetup running running_active events hguarded⟩

/-- `delete_strategy` finds another strategy persisted, and writes after the rollback. -/
theorem deleted_while_switching : letI := Tables.ascii
    ¬∀ cfg g events, Active g →
      (system cfg).Always (fun s => s.applying = none → Active s.gateway) ⟨g, none, []⟩ events := by
  let _ := Tables.ascii
  intro h
  obtain ⟨events, hend⟩ : ∃ events,
      ((system defaultSetup).run ⟨running, none, []⟩ events).any (fun s => s.applying.isNone &&
        s.gateway.strategy.map output = some (lit "a") &&
        (catalogIds s.gateway.catalog).isSome && !validStrategyId s.gateway.catalog (lit "a")) =
          true :=
    ⟨Event.begin (lit "b") :: List.replicate 4 (Event.apply noFaults) ++
      Event.request (.delete (.str (lit "a"))) :: List.replicate 4 (Event.panel 0 noFaults) ++
      List.replicate 3 (Event.apply noFaults) ++ [Event.apply fun _ => true] ++
      List.replicate 6 (Event.apply noFaults) ++ [Event.panel 0 noFaults], by decide +kernel⟩
  have halways := h defaultSetup running events running_active
  obtain ⟨s, hrun, hs⟩ := (Option.any_eq_true _ _).mp hend
  simp only [Bool.and_eq_true, Option.isNone_iff_eq_none, decide_eq_true_eq,
    Bool.not_eq_true'] at hs
  obtain ⟨⟨⟨hidle, hstrategy⟩, hreadable⟩, hinvalid⟩ := hs
  obtain ⟨sid, hsid, hnames⟩ := halways.last hrun hidle
  rw [hstrategy] at hsid
  cases hsid
  obtain ⟨ids, hids⟩ := Option.isSome_iff_exists.mp hreadable
  have hvalid : validStrategyId s.gateway.catalog (lit "a") = true :=
    validStrategyId_iff.mpr ⟨by decide, ⟨ids, hids⟩, hnames⟩
  rw [hvalid] at hinvalid
  cases hinvalid

end WebZapret.Apply
