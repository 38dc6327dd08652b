import WebZapret.Firewall.Stepwise

/-!
# Starts and stops of the firewall

What any sequence of `wz-fw.sh start` and `wz-fw.sh stop` leaves is described by the last start since the
last stop, by how many starts since then were upstream, and by how many policy rules there are (`Left`,
`runs_left`). A stop removes the tables' part of it all, and the route; of the policy rules, which each
upstream start may add one of, it removes two at most. So a stop undoes everything exactly when there
were no more than two (`stop_restores_iff`).
-/

namespace WebZapret

open Script Commands

namespace Stepwise

variable {k : Kernel} {env : Env}

/-! ## Commands without faults -/

section Commands

variable {h : Host} {T : TableName} {c : Chain} {l : List FwRule}

/-- The program leaves the state when no command meets a fault. -/
abbrev Leaves (p : Commands Host Unit) (h h' : Host) : Prop := Yields p.toScript h () h'

theorem leaves_bind {p q : Commands Host Unit} {h h' h'' : Host} (hp : Leaves p h h')
    (hq : Leaves q h' h'') : Leaves (p >>= fun _ => q) h h'' := by
  unfold Leaves
  rw [toScript_bind]
  exact yields_bind hp hq

theorem leaves_command {f : Host → Option Host} (h : Host) :
    Leaves (discard (invoke f)) h ((f h).getD h) := by
  unfold Leaves
  rw [toScript_discard]
  cases hf : f h with
  | none => exact yields_discard (yields_cmd_none hf)
  | some h' => exact yields_discard (yields_cmd hf)

theorem leaves_ipt {f : FwTable → Option FwTable} (h : Host) :
    Leaves (discard (ipt T f)) h (h.withTable T ((f (h.table T)).getD (h.table T))) := by
  have hcmd : Leaves (discard (ipt T f)) h _ := leaves_command h
  cases hf : f (h.table T) with
  | none =>
    have hself : h.withTable T (h.table T) = h := by cases T <;> rfl
    simpa [hf, hself] using hcmd
  | some t => simpa [hf] using hcmd

theorem leaves_delete {r : FwRule} (hc : h.table T c = some l) :
    Leaves (discard (ipt T (Table.delete c r))) h
      (h.withTable T ((h.table T).set c (l.erase r))) := by
  have hcmd := leaves_ipt (T := T) (f := Table.delete c r) h
  by_cases hr : r ∈ l
  · simpa [Table.delete, hc, hr] using hcmd
  · rw [List.erase_of_not_mem hr, Table.set_eq_self hc]
    simpa [Table.delete, hc, hr] using hcmd

/-- Nothing jumps to the chain from another one. -/
def Loose (c : Chain) (t : FwTable) : Prop :=
  ∀ d, d ≠ c → ∀ rs ∈ t d, ∀ r ∈ rs, r.target ≠ .jump c

theorem leaves_removeChain (hloose : Loose c (h.table T)) :
    Leaves (removeChain T c) h (h.withTable T (Function.update (h.table T) c none)) := by
  have hflush := leaves_ipt (T := T) (f := Table.flush c) h
  refine leaves_bind hflush ?_
  have hdelete := leaves_ipt (T := T) (f := Table.deleteChain c)
    (h.withTable T (((h.table T).flush c).getD (h.table T)))
  cases hc : h.table T c with
  | none =>
    have hnone : Function.update (h.table T) c none = h.table T := by
      rw [← hc, Function.update_eq_self]
    have hself : h.withTable T (h.table T) = h := by cases T <;> rfl
    simpa [Table.flush, Table.deleteChain, hc, hnone, hself] using hdelete
  | some l =>
    have hfree : Table.Unreferenced c ((h.table T).set c []) := by
      intro d rs hrs r hr
      by_cases hd : d = c
      · subst hd
        rw [Table.set_same] at hrs
        cases hrs
        cases hr
      · rw [Table.set_ne hd] at hrs
        exact hloose d hd rs hrs r hr
    have hgone : Table.deleteChain c ((h.table T).set c []) =
        some (Function.update (h.table T) c none) := by
      rw [Table.deleteChain, if_pos ⟨Table.set_same _ _ _, hfree⟩, Table.set, Function.update_idem]
    have htwice (t t' : FwTable) : (h.withTable T t).withTable T t' = h.withTable T t' := by
      cases T <;> rfl
    simpa [Table.flush, hc, hgone, htwice] using hdelete

end Commands

/-! ## What is left -/

/-- What runs of `wz-fw.sh` have left. -/
structure Left where
  /-- the last start since the last stop -/
  last : Option Start
  /-- the number of upstream starts since then -/
  ups : Nat
  /-- the number of policy rules, if the relay is in use -/
  rules : Nat

def relayRules (env : Env) (n : Nat) : List PolicyRule :=
  if env.udpProxy = "relay" then List.replicate n (udpPolicy env) else []

def Left.host (env : Env) (s : Left) : Host :=
  ⟨mangleAfter env s.last, natAfter env s.ups, relayRules env s.rules, routesAfter env s.ups⟩

/-- The policy rules after an upstream start. -/
def added (k : Kernel) (n : Nat) : Nat := if k.refusesDuplicateRule then max n 1 else n + 1

def Left.after (k : Kernel) (s : Left) : FwRun → Left
  | .start r => ⟨some r, r.upsAfter s.ups, if r.mode.upstream then added k s.rules else s.rules⟩
  | .stop => ⟨none, 0, s.rules - 2⟩

def Left.none : Left := ⟨Option.none, 0, 0⟩

theorem host_none (env : Env) : Left.none.host env = Host.empty := by
  simp [Left.host, Left.none, Host.empty, mangleAfter, natAfter, relayRules, routesAfter]

/-! ### A start -/

theorem ruleAdd_relayRules (m n : FwTable) (rt : List Route) (rules : Nat)
    (hrelay : env.udpProxy = "relay") :
    (ruleAdd k (udpPolicy env) ⟨m, n, relayRules env rules, rt⟩).getD
      ⟨m, n, relayRules env rules, rt⟩ = ⟨m, n, relayRules env (added k rules), rt⟩ := by
  cases hk : k.refusesDuplicateRule with
  | false => simp [ruleAdd, relayRules, hrelay, added, hk, List.replicate_succ]
  | true =>
    cases rules with
    | zero => simp [ruleAdd, relayRules, hrelay, added, hk]
    | succ rules => simp [ruleAdd, relayRules, hrelay, added, hk]

theorem routeAdd_routesAfter' (m n : FwTable) (p : List PolicyRule) (ups : Nat)
    (hrelay : env.udpProxy = "relay") :
    (routeAdd (udpRoute env) ⟨m, n, p, routesAfter env ups⟩).getD
      ⟨m, n, p, routesAfter env ups⟩ = ⟨m, n, p, routesAfter env (ups + 1)⟩ := by
  cases ups <;> simp [routeAdd, routesAfter, hrelay]

theorem leaves_fwApplyUdp {m : FwTable} {l : List FwRule} (hw : m .wzfw = some l) (n : FwTable)
    (strategy : String) (ups rules : Nat) :
    Leaves (fwApplyUdp k env strategy) ⟨m, n, relayRules env rules, routesAfter env ups⟩
      (Host.withWzfw ⟨m, n, relayRules env (added k rules), routesAfter env (ups + 1)⟩
        (l ++ udpRules env strategy)) := by
  unfold fwApplyUdp udpRules
  by_cases hrelay : env.udpProxy = "relay"
  · simp only [hrelay, if_true, List.append_nil]
    rw [Host.withWzfw_eq_self hw]
    have hrule := leaves_command (f := ruleAdd k (udpPolicy env))
      ⟨m, n, relayRules env rules, routesAfter env ups⟩
    rw [ruleAdd_relayRules m n _ rules hrelay] at hrule
    have hroute := leaves_command (f := routeAdd (udpRoute env))
      ⟨m, n, relayRules env (added k rules), routesAfter env ups⟩
    rw [routeAdd_routesAfter' m n _ ups hrelay] at hroute
    exact leaves_bind hrule (leaves_bind hroute
      (leaves_bind (leaves_command _) (leaves_command _)))
  · simp only [hrelay, if_false]
    have hp (j : Nat) : relayRules env j = [] := by simp [relayRules, hrelay]
    have hr (j : Nat) : routesAfter env j = [] := by simp [routesAfter, hrelay]
    simp only [hp, hr]
    unfold Leaves
    rw [toScript_nfqRule]
    exact nfqRule_yields (h := ⟨m, n, [], []⟩) hw env.uidProxy "udp" env.nfqUdpPorts
      env.nfqwsUdpPktOut

theorem leaves_fwApplyMode {m : FwTable} {l : List FwRule} (hw : m .wzfw = some l) (r : Start)
    (ups rules : Nat) :
    Leaves (fwApplyMode k env r.mode r.strategy)
      ⟨m, natAfter env ups, relayRules env rules, routesAfter env ups⟩
      (Host.withWzfw ⟨m, natAfter env (r.upsAfter ups),
        relayRules env (if r.mode.upstream then added k rules else rules),
        routesAfter env (r.upsAfter ups)⟩ (l ++ modeRules env r)) := by
  obtain ⟨mode, strategy⟩ := r
  have hupstream (mode : ExitMode) : Leaves (do
        fwApplyRedirect env
        fwApplyUdp k env strategy
        fwApplyExitFlows env mode strategy)
      ⟨m, natAfter env ups, relayRules env rules, routesAfter env ups⟩
      (Host.withWzfw ⟨m, natAfter env (ups + 1), relayRules env (added k rules),
        routesAfter env (ups + 1)⟩
        (l ++ (udpRules env strategy ++ exitRules env mode strategy))) := by
    have hredirect : Leaves (fwApplyRedirect env) ⟨m, natAfter env ups, relayRules env rules,
        routesAfter env ups⟩ ⟨m, natAfter env (ups + 1), relayRules env rules,
        routesAfter env ups⟩ := by
      unfold Leaves
      rw [toScript_fwApplyRedirect]
      exact fwApplyRedirect_yields m ups _ _
    refine leaves_bind hredirect ?_
    refine leaves_bind (leaves_fwApplyUdp hw (natAfter env (ups + 1)) strategy ups rules) ?_
    have h : Yields (WebZapret.fwApplyExitFlows env mode strategy) _ () _ :=
      fwApplyExitFlows_yields (Host.withWzfw_wzfw
        ⟨m, natAfter env (ups + 1), relayRules env (added k rules), routesAfter env (ups + 1)⟩
        (l ++ udpRules env strategy)) mode strategy
    rw [Host.withWzfw_withWzfw, List.append_assoc] at h
    unfold Leaves
    rw [toScript_fwApplyExitFlows]
    exact h
  cases mode with
  | direct =>
    unfold Leaves
    rw [toScript_fwApplyMode]
    exact nfqRule_nfqRule_yields (h := ⟨m, natAfter env ups, relayRules env rules,
      routesAfter env ups⟩) hw ..
  | socks5 => exact hupstream .socks5
  | ss => exact hupstream .ss

theorem leaves_start (s : Left) (r : Start) :
    Leaves (FwRun.program k env (.start r)) (s.host env) ((s.after k (.start r)).host env) := by
  obtain ⟨last, ups, rules⟩ := s
  have hwzfw : Leaves (fwApplyWzfw env) (Left.host env ⟨last, ups, rules⟩)
      ⟨wzfwReady env last, natAfter env ups, relayRules env rules, routesAfter env ups⟩ := by
    unfold Leaves
    rw [toScript_fwApplyWzfw]
    exact fwApplyWzfw_yields last _ _ _
  refine leaves_bind hwzfw ?_
  refine leaves_bind (leaves_fwApplyMode (l := [markGuard env, loopbackGuard])
    (by simp [wzfwReady]) r ups rules) ?_
  have hpre : ∃ pre, wzfwReady env last .prerouting = some pre ∧
      nfqinJump :: pre.erase nfqinJump = [nfqinJump] := by
    cases last with
    | none => exact ⟨[], rfl, rfl⟩
    | some l => exact ⟨[nfqinJump], rfl, by simp⟩
  obtain ⟨pre, hpre, hone⟩ := hpre
  have h := fwApplyNfqin_yields (q := pre)
    (m := (wzfwReady env last).set .wzfw ([markGuard env, loopbackGuard] ++ modeRules env r))
    (by simpa using hpre) (natAfter env (r.upsAfter ups))
    (relayRules env (if r.mode.upstream then added k rules else rules))
    (routesAfter env (r.upsAfter ups))
  have hm : (((wzfwReady env last).set .wzfw ([markGuard env, loopbackGuard] ++
      modeRules env r)).set .prerouting [nfqinJump]).set .nfqin [nfqinReturn] =
      mangleAfter env (some r) := by
    funext c
    cases last <;> cases c <;> simp [wzfwReady, mangleAfter, FwTable.empty]
  rw [hone, hm] at h
  unfold Leaves
  rw [toScript_fwApplyNfqin]
  exact h

/-! ### A stop -/

/-- The mangle table once the hooks of the live firewall are gone. -/
def unhookedMangle (env : Env) (last : Option Start) : FwTable :=
  ((mangleAfter env last).set .output []).set .prerouting []

theorem loose_wzfw (last : Option Start) : Loose .wzfw (unhookedMangle env last) := by
  intro d hd rs hrs r hr
  cases last with
  | none => cases d <;> simp_all [unhookedMangle, mangleAfter, FwTable.empty]
  | some _ =>
    cases d <;> simp [unhookedMangle, mangleAfter] at hd hrs <;> subst hrs <;> simp at hr
    simp [hr, nfqinReturn]

theorem loose_nfqin (last : Option Start) :
    Loose .nfqin (Function.update (unhookedMangle env last) .wzfw none) := by
  intro d hd rs hrs r hr
  cases last <;> cases d <;> simp_all [unhookedMangle, mangleAfter, FwTable.empty]

theorem loose_wzredir (ups : Nat) : Loose .wzredir ((natAfter env ups).set .output []) := by
  intro d hd rs hrs r hr
  cases ups <;> cases d <;> simp_all [natAfter, FwTable.empty]

theorem mangle_removed (last : Option Start) :
    Function.update (Function.update (unhookedMangle env last) .wzfw none) .nfqin none =
      FwTable.empty := by
  funext c
  cases last <;> cases c <;> simp [unhookedMangle, mangleAfter, FwTable.empty]

theorem nat_removed (env : Env) (ups : Nat) :
    Function.update ((natAfter env ups).set .output []) .wzredir none = FwTable.empty := by
  funext c
  cases ups <;> cases c <;> simp [natAfter, FwTable.empty]

theorem leaves_removeLive (last : Option Start) (ups : Nat) (p : List PolicyRule)
    (rt : List Route) :
    Leaves removeLive ⟨mangleAfter env last, natAfter env ups, p, rt⟩
      ⟨FwTable.empty, FwTable.empty, p, rt⟩ := by
  have hout : ∃ o, mangleAfter env last .output = some o ∧ o.erase wzfwJump = [] := by
    cases last with
    | none => exact ⟨[], rfl, rfl⟩
    | some _ => exact ⟨[wzfwJump], rfl, by simp⟩
  have hpre : ∃ o, (mangleAfter env last).set .output [] .prerouting = some o ∧
      o.erase nfqinJump = [] := by
    cases last with
    | none => exact ⟨[], by simp [mangleAfter, FwTable.empty], rfl⟩
    | some _ => exact ⟨[nfqinJump], by simp [mangleAfter], by simp⟩
  have hnat : ∃ o, natAfter env ups .output = some o ∧ o.erase wzredirJump = [] := by
    cases ups with
    | zero => exact ⟨[], rfl, rfl⟩
    | succ _ => exact ⟨[wzredirJump], rfl, by simp⟩
  obtain ⟨_, hout, hout'⟩ := hout
  obtain ⟨_, hpre, hpre'⟩ := hpre
  obtain ⟨_, hnat, hnat'⟩ := hnat
  refine leaves_bind (leaves_delete hout) ?_
  rw [hout']
  refine leaves_bind (leaves_delete (T := .mangle) hpre) ?_
  rw [hpre']
  refine leaves_bind (leaves_delete (T := .nat) hnat) ?_
  rw [hnat']
  refine leaves_bind (leaves_removeChain (T := .mangle) (loose_wzfw last)) ?_
  refine leaves_bind (leaves_removeChain (T := .mangle) (loose_nfqin last)) ?_
  have hlast := leaves_removeChain (T := .nat) (c := .wzredir)
    (h := ⟨FwTable.empty, (natAfter env ups).set .output [], p, rt⟩) (loose_wzredir ups)
  have hredir : Leaves (removeChain .nat .wzredir)
      ⟨Function.update (Function.update (unhookedMangle env last) .wzfw none) .nfqin none,
        (natAfter env ups).set .output [], p, rt⟩ ⟨FwTable.empty, FwTable.empty, p, rt⟩ := by
    rw [mangle_removed, ← nat_removed env ups]
    rw [← nat_removed env ups] at hlast
    exact hlast
  exact hredir

theorem leaves_removeTest (n : FwTable) (p : List PolicyRule) (rt : List Route) :
    Leaves removeTest ⟨FwTable.empty, n, p, rt⟩ ⟨FwTable.empty, n, p, rt⟩ := by
  have h : Leaves removeTest ⟨FwTable.empty, n, p, rt⟩
      ⟨Function.update (FwTable.empty.set .output []) .wztest none, n, p, rt⟩ := by
    refine leaves_bind (leaves_delete (l := []) rfl) ?_
    refine leaves_removeChain (T := .mangle) fun d _ rs hrs r hr => ?_
    cases d <;> simp_all [Host.table, Host.withTable, FwTable.empty]
  have hsame : Function.update (FwTable.empty.set .output []) .wztest none = FwTable.empty := by
    funext c
    cases c <;> simp [FwTable.empty]
  rwa [hsame] at h

theorem ruleDel_relayRules (m n : FwTable) (rt : List Route) (rules : Nat)
    {ipproto : Option String} (hproto : ipproto.all (· = "udp") = true) :
    (ruleDel env.uidProxy ipproto env.rtTableUdp ⟨m, n, relayRules env rules, rt⟩).getD
      ⟨m, n, relayRules env rules, rt⟩ = ⟨m, n, relayRules env (rules - 1), rt⟩ := by
  by_cases hrelay : env.udpProxy = "relay"
  · cases rules with
    | zero => simp [ruleDel, relayRules]
    | succ rules =>
      simp only [ruleDel, relayRules, hrelay, if_true, List.replicate_succ, udpPolicy,
        List.any_cons, List.eraseP_cons, hproto]
      simp
  · simp [ruleDel, relayRules, hrelay]

theorem leaves_removeRouting (m n : FwTable) (ups rules : Nat) :
    Leaves (removeRouting env) ⟨m, n, relayRules env rules, routesAfter env ups⟩
      ⟨m, n, relayRules env (rules - 2), []⟩ := by
  have hfirst := leaves_command (f := ruleDel env.uidProxy (some "udp") env.rtTableUdp)
    ⟨m, n, relayRules env rules, routesAfter env ups⟩
  rw [ruleDel_relayRules m n _ rules (by simp)] at hfirst
  have hsecond := leaves_command (f := ruleDel env.uidProxy none env.rtTableUdp)
    ⟨m, n, relayRules env (rules - 1), routesAfter env ups⟩
  rw [ruleDel_relayRules m n _ (rules - 1) (by simp)] at hsecond
  have hroute := leaves_command (f := routeDel (udpRoute env))
    ⟨m, n, relayRules env (rules - 2), routesAfter env ups⟩
  have hnone : (routeDel (udpRoute env) ⟨m, n, relayRules env (rules - 2),
      routesAfter env ups⟩).getD ⟨m, n, relayRules env (rules - 2), routesAfter env ups⟩ =
        ⟨m, n, relayRules env (rules - 2), []⟩ := by
    by_cases h : env.udpProxy = "relay" ∧ ups ≠ 0 <;> simp [routeDel, routesAfter, h]
  rw [hnone] at hroute
  exact leaves_bind hfirst (leaves_bind hsecond (leaves_bind hroute (leaves_command _)))

theorem leaves_stop (s : Left) :
    Leaves (FwRun.program k env .stop) (s.host env) ((s.after k .stop).host env) := by
  have hroutes : routesAfter env 0 = [] := by simp [routesAfter]
  refine leaves_bind (leaves_removeLive s.last s.ups _ _) ?_
  refine leaves_bind (leaves_removeTest _ _ _) ?_
  show Leaves _ _ ⟨_, _, _, routesAfter env 0⟩
  rw [hroutes]
  exact leaves_removeRouting _ _ s.ups s.rules

/-! ## Any sequence of runs -/

/-- The runs, one after another and without faults. -/
def runAll (k : Kernel) (env : Env) (runs : List FwRun) (h : Host) : Host :=
  (gateway k env runs).toScript.exec h

theorem runs_left (s : Left) (runs : List FwRun) :
    runAll k env runs (s.host env) = (runs.foldl (Left.after k) s).host env := by
  refine Yields.exec (a := ()) ?_
  induction runs generalizing s with
  | nil => exact yields_pure () _
  | cons run runs ih =>
    refine leaves_bind ?_ (ih _)
    cases run with
    | start r => exact leaves_start s r
    | stop => exact leaves_stop s

/-- What the runs leave of an empty host. -/
def leftAfter (k : Kernel) (runs : List FwRun) : Left := runs.foldl (Left.after k) Left.none

theorem runAll_empty (runs : List FwRun) :
    runAll k env runs Host.empty = (leftAfter k runs).host env := by
  rw [← host_none env, runs_left]
  rfl

theorem relayRules_eq_nil (n : Nat) :
    relayRules env n = [] ↔ (env.udpProxy = "relay" → n = 0) := by
  unfold relayRules
  split
  · rename_i hrelay
    simp [hrelay, List.replicate_eq_nil_iff]
  · rename_i hrelay
    simp [hrelay]

/-- **What a stop undoes.** Everything, if the runs before it have left two policy rules at most. -/
theorem stop_restores_iff (runs : List FwRun) :
    runAll k env (runs ++ [.stop]) Host.empty = Host.empty ↔
      (env.udpProxy = "relay" → (leftAfter k runs).rules ≤ 2) := by
  have hstop : leftAfter k (runs ++ [.stop]) = ⟨none, 0, (leftAfter k runs).rules - 2⟩ := by
    rw [leftAfter, List.foldl_append]
    rfl
  have hroutes : routesAfter env 0 = [] := by simp [routesAfter]
  rw [runAll_empty, hstop]
  have hempty : Left.host env ⟨none, 0, (leftAfter k runs).rules - 2⟩ = Host.empty ↔
      relayRules env ((leftAfter k runs).rules - 2) = [] := by
    constructor
    · exact fun h => congrArg Host.policy h
    · intro h
      show (⟨_, _, _, routesAfter env 0⟩ : Host) = _
      rw [h, hroutes]
      rfl
  rw [hempty, relayRules_eq_nil]
  exact forall_congr' fun _ => Nat.sub_eq_zero_iff_le

end Stepwise

end WebZapret
