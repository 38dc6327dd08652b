import WebZapret.Apply.Gateway

/-!
# Applying is a transaction, or not

A change that fails should leave the persisted strategy and exit mode as they were, and one that
succeeds should have installed every mandatory rule of the firewall (`Transactional`). Two things are
in the way: `wz-fw.sh start` exits with 0 whatever its commands did, and the restart that ends a
rollback replaces a strategy that is not in the catalog by `none`. `ApplyFits` is what is left
(`apply_transactional_iff`).
-/

namespace WebZapret.Apply

open Py Catalog Script Proc

/-- What a change owes: a rollback when it fails, the rules of the new mode and strategy when it
succeeds. -/
structure Transactional (cfg : Setup) (before : Gateway) (status : Nat) (after : Gateway) : Prop where
  rollback : status ≠ 0 → after.persisted = before.persisted
  installed : status = 0 → after.persisted ≠ before.persisted →
    Installed cfg.env (exitMode? (activeExitMode cfg after)) (asText (activeStrategy cfg after))
      after.host

/-! ## Changes of the state -/

/-- The state with another strategy. -/
def Gateway.withStrategy (g : Gateway) (id : Str) : Gateway := { g with strategy := some (line id) }

/-- The state with another exit mode. -/
def Gateway.withExitMode (g : Gateway) (mode : Str) : Gateway :=
  { g with exitMode := some (line mode) }

/-- The state with other rules. -/
def Gateway.withHost (g : Gateway) (h : Host) : Gateway := { g with host := h }

@[simp] theorem activeStrategy_withStrategy (cfg : Setup) (g : Gateway) (id : Str) :
    activeStrategy cfg (g.withStrategy id) = output id := output_line id

@[simp] theorem activeExitMode_withExitMode (cfg : Setup) (g : Gateway) (mode : Str) :
    activeExitMode cfg (g.withExitMode mode) = output mode := output_line mode

@[simp] theorem activeStrategy_withExitMode (cfg : Setup) (g : Gateway) (mode : Str) :
    activeStrategy cfg (g.withExitMode mode) = activeStrategy cfg g := rfl

@[simp] theorem activeStrategy_withHost (cfg : Setup) (g : Gateway) (h : Host) :
    activeStrategy cfg (g.withHost h) = activeStrategy cfg g := rfl

@[simp] theorem activeExitMode_withHost (cfg : Setup) (g : Gateway) (h : Host) :
    activeExitMode cfg (g.withHost h) = activeExitMode cfg g := rfl

@[simp] theorem persisted_withHost (g : Gateway) (h : Host) :
    (g.withHost h).persisted = g.persisted := rfl

/-! ## The restart of nfqws -/

/-- The strategy that `start_nfqws` starts. -/
def resolve (stored : Stored) (sid : Str) : Str :=
  if validStrategyId stored sid then sid else lit "none"

/-- One of the three commands that start nfqws fails. -/
def nfqwsFails (f : Nat → Bool) : Bool := f 0 || f 1 || f 2

/-- `wz-svc.sh restart nfqws` fails. -/
def restartFails (F : Site → Nat → Bool) (again : Bool) (stored : Stored) (sid : Str) : Bool :=
  F (.restart again) 0 ||
    (validStrategyId stored sid && sid ≠ lit "none" && nfqwsFails (F (.nfqws again)))

section Restart

variable (cfg : Setup) (F : Site → Nat → Bool) (g : Gateway)

theorem run_cmd_some (s : Gateway) (f : Nat → Bool) :
    Script.cmd some ⟨s, f⟩ = (!f 0, ⟨s, later 1 f⟩) := by
  have hruns := runs_cmd (some : Gateway → Option Gateway) s f
  unfold Runs attempt at hruns
  simpa using hruns

theorem nfqwsStart_runs (s : Gateway) (f : Nat → Bool) :
    ∃ n, Runs nfqwsStart s f (!nfqwsFails f) s n := by
  have hcmd (n : Nat) : Runs (Script.cmd some) s (later n f) (!f n) s 1 := by
    have hruns := runs_cmd (some : Gateway → Option Gateway) s (later n f)
    simpa [attempt] using hruns
  unfold nfqwsStart nfqwsFails
  cases h0 : f 0 with
  | true =>
    have hfirst := hcmd 0
    rw [h0] at hfirst
    exact ⟨_, runs_bind hfirst (runs_pure false s _)⟩
  | false =>
    have hfirst := hcmd 0
    rw [h0] at hfirst
    cases h1 : f 1 with
    | true =>
      have hsecond := hcmd 1
      rw [h1] at hsecond
      exact ⟨_, runs_bind hfirst (runs_bind hsecond (runs_pure false s _))⟩
    | false =>
      have hsecond := hcmd 1
      rw [h1] at hsecond
      have hthird := hcmd 2
      rw [← later_later 1 1 f] at hthird
      exact ⟨_, runs_bind hfirst (runs_bind hsecond hthird)⟩

theorem run_nfqwsStart (s : Gateway) (f : Nat → Bool) :
    (nfqwsStart ⟨s, f⟩).1 = !nfqwsFails f ∧ (nfqwsStart ⟨s, f⟩).2.state = s := by
  obtain ⟨n, hruns⟩ := nfqwsStart_runs s f
  rw [hruns]
  exact ⟨rfl, rfl⟩

/-- What the restart does to the state file. -/
theorem run_restartNfqws (again : Bool) :
    run F (restartNfqws cfg again) g =
      (!restartFails F again g.catalog (activeStrategy cfg g),
        if F (.restart again) 0 || validStrategyId g.catalog (activeStrategy cfg g) then g
        else g.withStrategy (lit "none")) := by
  unfold restartNfqws startNfqws restartFails
  cases hlaunch : F (.restart again) 0 with
  | true => simp [run_cmd_some, hlaunch]
  | false =>
    cases hvalid : validStrategyId g.catalog (activeStrategy cfg g) with
    | false => simp [run_cmd_some, hlaunch, hvalid, writeStrategy, Gateway.withStrategy]
    | true =>
      by_cases hnone : activeStrategy cfg g = lit "none"
      · rw [hnone] at hvalid
        simp [run_cmd_some, hlaunch, hvalid, hnone]
      · obtain ⟨hanswer, hstate⟩ := run_nfqwsStart g (F (.nfqws again))
        simp [run_cmd_some, hlaunch, hvalid, hnone, hanswer, hstate]

/-- The state that the restart leaves. -/
def afterRestart (again : Bool) : Gateway := (run F (restartNfqws cfg again) g).2

theorem run_restart (again : Bool) :
    run F (restartNfqws cfg again) g =
      (!restartFails F again g.catalog (activeStrategy cfg g), afterRestart cfg F g again) := by
  rw [afterRestart, run_restartNfqws]

theorem afterRestart_eq (again : Bool) :
    afterRestart cfg F g again =
      if F (.restart again) 0 || validStrategyId g.catalog (activeStrategy cfg g) then g
      else g.withStrategy (lit "none") := by
  rw [afterRestart, run_restartNfqws]

theorem afterRestart_host (again : Bool) : (afterRestart cfg F g again).host = g.host := by
  rw [afterRestart_eq]
  split <;> rfl

theorem afterRestart_exitMode (again : Bool) :
    (afterRestart cfg F g again).exitMode = g.exitMode := by
  rw [afterRestart_eq]
  split <;> rfl

theorem activeStrategy_afterRestart (again : Bool) :
    activeStrategy cfg (afterRestart cfg F g again) =
      if F (.restart again) 0 then activeStrategy cfg g
      else resolve g.catalog (activeStrategy cfg g) := by
  rw [afterRestart_eq, resolve]
  cases F (.restart again) 0 with
  | true => rfl
  | false =>
    cases validStrategyId g.catalog (activeStrategy cfg g) with
    | true => rfl
    | false => rfl

/-- A restart that is launched leaves the strategy that it resolves. -/
theorem strategy_afterRestart {again : Bool} (h : F (.restart again) 0 = false) {old : Str}
    (hold : g.strategy = some old) :
    (afterRestart cfg F g again).strategy.map output = some (resolve g.catalog (output old)) := by
  have hactive : activeStrategy cfg g = output old := by rw [activeStrategy, hold, Option.getD_some]
  rw [afterRestart_eq, h, hactive, resolve]
  cases validStrategyId g.catalog (output old) with
  | true => simp [hold]
  | false => rfl

/-- A restart that fails leaves the state as it was. -/
theorem afterRestart_of_fails {again : Bool}
    (h : restartFails F again g.catalog (activeStrategy cfg g) = true) :
    afterRestart cfg F g again = g := by
  rw [afterRestart_eq, if_pos]
  unfold restartFails at h
  cases hlaunch : F (.restart again) 0 with
  | true => rfl
  | false =>
    rw [hlaunch, Bool.false_or, Bool.and_assoc, Bool.and_eq_true] at h
    rw [h.1, Bool.false_or]

end Restart

/-! ## Exact conditions -/

/-- A strategy is switched as a transaction. Where the restart fails, there has to be an old strategy
that the second restart does not replace; where it succeeds, the firewall has to be installed, unless
nothing has changed. -/
def StrategyFits (cfg : Setup) (F : Site → Nat → Bool) (g : Gateway) (id : Str) : Prop :=
  if restartFails F false g.catalog (output id) then
    ∃ old, g.strategy = some old ∧
      (F (.restart true) 0 = true ∨ resolve g.catalog (output old) = output old)
  else
    g.strategy.map output = some (resolve g.catalog (output id)) ∨
      StartFits cfg.env (exitMode? (activeExitMode cfg g)) (asText (resolve g.catalog (output id)))
        (asText (resolve g.catalog (output id))) g.host (F .firewall)

/-- An exit mode is switched as a transaction: the firewall is installed for the strategy that is
persisted in the end. -/
def ExitFits (cfg : Setup) (F : Site → Nat → Bool) (g : Gateway) (mode : Str) : Prop :=
  StartFits cfg.env (exitMode? mode) (asText (activeStrategy cfg g))
    (asText (if F (.restart false) 0 then activeStrategy cfg g
      else resolve g.catalog (activeStrategy cfg g))) g.host (F .firewall)

/-- A request is refused or has nothing to do. -/
def Idle (cfg : Setup) (g : Gateway) : Request → Prop
  | .strategy id => validStrategyId g.catalog id = false ∨ output (g.strategy.getD []) = id
  | .exit mode => validExitMode mode = false ∨ activeExitMode cfg g = mode

/-- The exact condition on the state before the call and on the faults that its commands meet. -/
def ApplyFits (cfg : Setup) (F : Site → Nat → Bool) (g : Gateway) (request : Request) : Prop :=
  F .flock 0 = true ∨ Idle cfg g request ∨
    match request with
    | .strategy id => StrategyFits cfg F g id
    | .exit mode => ExitFits cfg F g mode

section Requests

variable {cfg : Setup} {F : Site → Nat → Bool} {g : Gateway}

/-- `wz-fw.sh start` -/
theorem fwStart_run (cfg : Setup) (g : Gateway) (f : Nat → Bool) :
    (fwStart cfg ⟨g, f⟩).1 = true ∧ ∃ h, (fwStart cfg ⟨g, f⟩).2.state = g.withHost h ∧
      ∀ needed, Installed cfg.env (exitMode? (activeExitMode cfg g)) needed h ↔
        StartFits cfg.env (exitMode? (activeExitMode cfg g)) (asText (activeStrategy cfg g)) needed
          g.host f := by
  obtain ⟨h, n, hruns, hinstalled⟩ := installed_iff cfg.kernel cfg.env
    (exitMode? (activeExitMode cfg g)) (asText (activeStrategy cfg g)) g.host f
  refine ⟨rfl, h, ?_, hinstalled⟩
  show g.withHost _ = g.withHost h
  rw [hruns]

/-- A call that leaves everything as it was. -/
theorem transactional_same (status : Nat) : Transactional cfg g status g :=
  ⟨fun _ => rfl, fun _ h => absurd rfl h⟩

/-- When a rollback restores what was persisted. -/
theorem rollback_iff (cfg : Setup) (F : Site → Nat → Bool) (g : Gateway) :
    (afterRestart cfg F (g.withStrategy (output (g.strategy.getD []))) true).persisted =
        g.persisted ↔
      ∃ old, g.strategy = some old ∧
        (F (.restart true) 0 = true ∨ resolve g.catalog (output old) = output old) := by
  have hmode := afterRestart_exitMode cfg F (g.withStrategy (output (g.strategy.getD []))) true
  rw [Gateway.persisted, Gateway.persisted, Prod.mk.injEq, hmode]
  refine (and_iff_left rfl).trans ?_
  rw [afterRestart_eq, activeStrategy_withStrategy, output_output]
  cases hold : g.strategy with
  | none => split <;> simp [Gateway.withStrategy]
  | some old =>
    cases hlaunch : F (.restart true) 0 with
    | true => simp [Gateway.withStrategy]
    | false =>
      show ((if false || validStrategyId g.catalog (output old) then _ else _ : Gateway).strategy.map
        output) = _ ↔ _
      cases hvalid : validStrategyId g.catalog (output old) with
      | true => simp [Gateway.withStrategy, hvalid, resolve]
      | false =>
        have hnone : output (lit "none") = lit "none" := rfl
        simp [Gateway.withStrategy, hvalid, resolve, hnone]

theorem run_activate_fails {new : Str}
    (h : restartFails F false g.catalog (activeStrategy cfg g) = true) :
    run F (activate cfg new) g = (3, afterRestart cfg F (g.withStrategy new) true) := by
  have hsame : afterRestart cfg F g false = g := afterRestart_of_fails cfg F g h
  rw [activate, run_bind, run_restart, h, hsame, Bool.not_true]
  simp only [Bool.false_eq_true, if_false]
  rw [run_bind, run_bind]
  rfl

theorem run_activate_succeeds {new : Str}
    (h : restartFails F false g.catalog (activeStrategy cfg g) = false) :
    run F (activate cfg new) g =
      (0, (fwStart cfg ⟨afterRestart cfg F g false, F .firewall⟩).2.state) := by
  rw [activate, run_bind, run_restart, h, Bool.not_false]
  simp only [if_true]
  rw [run_bind, run_invoke]
  rfl

/-- A switch of the strategy that has something to do. -/
theorem run_doStrategy {id : Str} (hvalid : validStrategyId g.catalog id = true)
    (hnew : output (g.strategy.getD []) ≠ id) :
    run F (doStrategy cfg id) g =
      run F (activate cfg (output (g.strategy.getD []))) (g.withStrategy id) := by
  rw [doStrategy, run_bind]
  show run F (if validStrategyId g.catalog id then _ else _) g = _
  rw [if_pos hvalid, run_bind]
  show run F (if output (g.strategy.getD []) = id then _ else _) g = _
  rw [if_neg hnew, run_bind]
  rfl

theorem strategy_transactional_iff {id : Str} (hvalid : validStrategyId g.catalog id = true)
    (hnew : output (g.strategy.getD []) ≠ id) :
    Transactional cfg g (run F (doStrategy cfg id) g).1 (run F (doStrategy cfg id) g).2 ↔
      StrategyFits cfg F g id := by
  rw [run_doStrategy hvalid hnew, StrategyFits]
  have hactive : activeStrategy cfg (g.withStrategy id) = output id := activeStrategy_withStrategy cfg g id
  cases hfails : restartFails F false g.catalog (output id) with
  | true =>
    have hrun : run F (activate cfg (output (g.strategy.getD []))) (g.withStrategy id) = _ :=
      run_activate_fails (by rw [hactive]; exact hfails)
    rw [if_pos rfl, hrun, ← rollback_iff cfg F g]
    exact ⟨fun h => h.rollback (show (3 : Nat) ≠ 0 by decide), fun h => ⟨fun _ => h, nofun⟩⟩
  | false =>
    have hrun : run F (activate cfg (output (g.strategy.getD []))) (g.withStrategy id) = _ :=
      run_activate_succeeds (by rw [hactive]; exact hfails)
    have hlaunch : F (.restart false) 0 = false := by
      cases hlaunch : F (.restart false) 0 with
      | false => rfl
      | true => simp [restartFails, hlaunch] at hfails
    have hnow : activeStrategy cfg (afterRestart cfg F (g.withStrategy id) false) =
        resolve g.catalog (output id) := by
      rw [activeStrategy_afterRestart, hlaunch, hactive]
      rfl
    obtain ⟨_, h, hafter, hinstalled⟩ :=
      fwStart_run cfg (afterRestart cfg F (g.withStrategy id) false) (F .firewall)
    rw [if_neg Bool.false_ne_true, hrun, hafter]
    have hpersisted : (afterRestart cfg F (g.withStrategy id) false).persisted =
        (some (resolve g.catalog (output id)), g.exitMode.map output) := by
      rw [Gateway.persisted, strategy_afterRestart cfg F _ hlaunch rfl, afterRestart_exitMode,
        output_line]
      rfl
    have hchanged : (some (resolve g.catalog (output id)), g.exitMode.map output) ≠ g.persisted ↔
        g.strategy.map output ≠ some (resolve g.catalog (output id)) := by
      rw [Gateway.persisted, Ne, Prod.mk.injEq, and_iff_left rfl, eq_comm]
    have hmode : activeExitMode cfg (afterRestart cfg F (g.withStrategy id) false) =
        activeExitMode cfg g := by
      rw [activeExitMode, afterRestart_exitMode]
      rfl
    have hrules := hinstalled (asText (resolve g.catalog (output id)))
    rw [hnow, hmode, afterRestart_host] at hrules
    constructor
    · intro htrans
      by_cases hsame : g.strategy.map output = some (resolve g.catalog (output id))
      · exact .inl hsame
      · have hafter := htrans.installed rfl
        rw [persisted_withHost, hpersisted, activeStrategy_withHost, activeExitMode_withHost, hnow,
          hmode] at hafter
        exact .inr (hrules.mp (hafter (hchanged.mpr hsame)))
    · refine fun hfits => ⟨fun h => absurd rfl h, fun _ hne => ?_⟩
      rw [persisted_withHost, hpersisted, hchanged] at hne
      rw [activeStrategy_withHost, activeExitMode_withHost, hnow, hmode]
      exact hrules.mpr (hfits.resolve_left hne)

theorem output_of_valid {mode : Str} (h : validExitMode mode = true) : output mode = mode := by
  unfold validExitMode exitMode? at h
  by_cases hdirect : mode = lit "direct"
  · rw [hdirect]
    rfl
  by_cases hsocks : mode = lit "socks5"
  · rw [hsocks]
    rfl
  by_cases hss : mode = lit "ss"
  · rw [hss]
    rfl
  simp [hdirect, hsocks, hss] at h

theorem run_exitLayer (site : Site) : run F (exitLayer site) g = ((), g) := by
  rw [exitLayer, run_bind, run_invoke, run_cmd_some]
  rfl

theorem run_changeExit (cfg : Setup) (F : Site → Nat → Bool) (g : Gateway) :
    run F (changeExit cfg) g =
      (0, afterRestart cfg F (fwStart cfg ⟨g, F .firewall⟩).2.state false) := by
  rw [changeExit, run_bind, run_exitLayer, run_bind, run_exitLayer, run_bind, run_exitLayer,
    run_bind, run_exitLayer, run_bind, run_invoke]
  show run F (if true = true then _ else _) _ = _
  rw [if_pos rfl, run_bind]
  rfl

/-- A switch of the exit mode that has something to do. -/
theorem exit_transactional_iff {mode : Str} (hvalid : validExitMode mode = true)
    (hnew : activeExitMode cfg g ≠ mode) :
    Transactional cfg g (run F (doExit cfg mode) g).1 (run F (doExit cfg mode) g).2 ↔
      ExitFits cfg F g mode := by
  have hrun : run F (doExit cfg mode) g = run F (changeExit cfg) (g.withExitMode mode) := by
    rw [doExit, if_pos hvalid, run_bind]
    show run F (if activeExitMode cfg g = mode then _ else _) g = _
    rw [if_neg hnew, run_bind]
    rfl
  obtain ⟨_, h, hafter, hinstalled⟩ := fwStart_run cfg (g.withExitMode mode) (F .firewall)
  have hrules := hinstalled (asText (if F (.restart false) 0 then activeStrategy cfg g
    else resolve g.catalog (activeStrategy cfg g)))
  rw [activeExitMode_withExitMode, output_of_valid hvalid, activeStrategy_withExitMode] at hrules
  have hmode : (afterRestart cfg F ((g.withExitMode mode).withHost h) false).exitMode =
      some (line mode) := afterRestart_exitMode ..
  have hactive : activeExitMode cfg (afterRestart cfg F ((g.withExitMode mode).withHost h) false) =
      mode := by
    rw [activeExitMode, hmode, Option.getD_some, output_line, output_of_valid hvalid]
  have hchanged : (afterRestart cfg F ((g.withExitMode mode).withHost h) false).persisted ≠
      g.persisted := by
    intro heq
    have hsame := congrArg Prod.snd heq
    rw [Gateway.persisted, hmode] at hsame
    cases hold : g.exitMode with
    | none => simp [Gateway.persisted, hold] at hsame
    | some old =>
      apply hnew
      rw [activeExitMode, hold, Option.getD_some]
      simpa [Gateway.persisted, hold, output_of_valid hvalid] using hsame.symm
  rw [hrun, run_changeExit, hafter, ExitFits]
  have hinstall : Installed cfg.env
      (exitMode? (activeExitMode cfg (afterRestart cfg F ((g.withExitMode mode).withHost h) false)))
      (asText (activeStrategy cfg (afterRestart cfg F ((g.withExitMode mode).withHost h) false)))
      (afterRestart cfg F ((g.withExitMode mode).withHost h) false).host ↔
        StartFits cfg.env (exitMode? mode) (asText (activeStrategy cfg g))
          (asText (if F (.restart false) 0 then activeStrategy cfg g
            else resolve g.catalog (activeStrategy cfg g))) g.host (F .firewall) := by
    rw [hactive, activeStrategy_afterRestart, afterRestart_host]
    exact hrules
  exact ⟨fun htrans => hinstall.mp (htrans.installed rfl hchanged),
    fun hfits => ⟨fun h => absurd rfl h, fun _ _ => hinstall.mpr hfits⟩⟩

/-- A request that is refused or has nothing to do changes nothing. -/
theorem run_idle {request : Request} (h : Idle cfg g request) :
    ∃ status, run F (request.run cfg) g = (status, g) := by
  cases request with
  | strategy id =>
    cases hvalid : validStrategyId g.catalog id with
    | false =>
      refine ⟨2, ?_⟩
      rw [Request.run, doStrategy, run_bind]
      show run F (if validStrategyId g.catalog id then _ else _) g = _
      rw [hvalid]
      rfl
    | true =>
      have hnew : output (g.strategy.getD []) = id :=
        h.resolve_left (by simp [hvalid])
      refine ⟨0, ?_⟩
      rw [Request.run, doStrategy, run_bind]
      show run F (if validStrategyId g.catalog id then _ else _) g = _
      rw [if_pos hvalid, run_bind]
      show run F (if output (g.strategy.getD []) = id then _ else _) g = _
      rw [if_pos hnew]
      rfl
  | exit mode =>
    cases hvalid : validExitMode mode with
    | false =>
      refine ⟨2, ?_⟩
      rw [Request.run, doExit, hvalid]
      rfl
    | true =>
      have hnew : activeExitMode cfg g = mode := h.resolve_left (by simp [hvalid])
      refine ⟨0, ?_⟩
      rw [Request.run, doExit, if_pos hvalid, run_bind]
      show run F (if activeExitMode cfg g = mode then _ else _) g = _
      rw [if_pos hnew]
      rfl

/-- **When applying is a transaction.** -/
theorem apply_transactional_iff (cfg : Setup) (F : Site → Nat → Bool) (g : Gateway)
    (request : Request) :
    Transactional cfg g (run F (apply cfg request) g).1 (run F (apply cfg request) g).2 ↔
      ApplyFits cfg F g request := by
  have hlock : run F (apply cfg request) g =
      run F (if (!F .flock 0) = true then request.run cfg else return 1) g := by
    rw [apply, run_bind, run_invoke, run_cmd_some]
  rw [hlock]
  unfold ApplyFits
  cases hbusy : F .flock 0 with
  | true =>
    exact iff_of_true (transactional_same 1) (.inl rfl)
  | false =>
    simp only [Bool.not_false, if_true, Bool.false_eq_true, false_or]
    by_cases hidle : Idle cfg g request
    · obtain ⟨status, hrun⟩ := run_idle (F := F) hidle
      rw [hrun]
      exact iff_of_true (transactional_same status) (.inl hidle)
    · rw [or_iff_right hidle]
      cases request with
      | strategy id =>
        obtain ⟨hvalid, hnew⟩ := not_or.mp hidle
        exact strategy_transactional_iff (Bool.not_eq_false _ ▸ hvalid) hnew
      | exit mode =>
        obtain ⟨hvalid, hnew⟩ := not_or.mp hidle
        exact exit_transactional_iff (Bool.not_eq_false _ ▸ hvalid) hnew

end Requests

/-- The container's defaults. -/
def defaultSetup : Setup := ⟨⟨true⟩, defaultEnv, lit "standard", lit "direct"⟩

/-- A gateway that runs the first of its two strategies. -/
def running : Gateway where
  catalog := some (.obj [(lit "strategies",
    .arr [.obj [(lit "id", .str (lit "a"))], .obj [(lit "id", .str (lit "b"))]])])
  strategy := some (line (lit "a"))
  exitMode := some (line (lit "direct"))
  host := Host.empty

/-- The `iptables -A` of the first NFQUEUE rule fails. -/
def queueFault (site : Site) (n : Nat) : Bool := site = .firewall && n = 5

/-- A switch that exits with 0 and has no NFQUEUE rule for TCP. -/
theorem apply_without_queue :
    ¬Transactional defaultSetup running
      (run queueFault (apply defaultSetup (.strategy (lit "b"))) running).1
      (run queueFault (apply defaultSetup (.strategy (lit "b"))) running).2 := by
  intro h
  have hqueue := (h.installed (by decide +kernel) (by decide +kernel)).queues
    (nfqRuleSpec defaultEnv 1001 "tcp" "80,443" "9") (by decide +kernel)
  exact absurd hqueue (by decide +kernel)

end WebZapret.Apply
