import WebZapret.Firewall.Rules
import Mathlib.Tactic.Common

/-!
# What a sequence of firewall starts leaves behind

`fw_apply` flushes and re-creates the chains it needs in the current mode. In the upstream modes
it also hooks `nat/WZREDIR` and adds a policy rule; in `direct` mode it does not touch those two
at all. The result of a sequence of starts is therefore described by the last start and by how
many starts were upstream (`Host.after`), and it equals the result of the last start alone in
exactly the cases of `historyIndependent_iff`.
-/

namespace WebZapret

open Script

section Blocks

variable {k : Kernel} {env : Env} {strategy : String} {h : Host} {T : TableName}

theorem ipt_yields {f : FwTable → Option FwTable} {t : FwTable} (hf : f (h.table T) = some t) :
    Yields (ipt T f) h true (h.withTable T t) :=
  yields_cmd (by rw [hf]; rfl)

theorem ipt_yields_none {f : FwTable → Option FwTable} (hf : f (h.table T) = none) :
    Yields (ipt T f) h false h :=
  yields_cmd_none (by rw [hf]; rfl)

/-- Whether or not the chain is there, it is empty afterwards. -/
theorem makeChain_yields (T : TableName) (c : Chain) (h : Host) :
    Yields (makeChain T c) h () (h.withTable T ((h.table T).set c [])) := by
  unfold makeChain
  cases hc : h.table T c with
  | none =>
    exact yields_bind (ipt_yields (t := (h.table T).set c []) (by simp [Table.newChain, hc]))
      (yields_pure () _)
  | some rs =>
    refine yields_bind (ipt_yields_none (by simp [Table.newChain, hc])) ?_
    exact yields_discard (ipt_yields (by simp [Table.flush, hc]))

/-- The jump from `OUTPUT` is there afterwards, once if it was not there before. -/
theorem hookOutput_yields {r : FwRule} {o : List FwRule} (ho : h.table T .output = some o)
    (hr : (h.table T).Resolves r) :
    Yields (hookOutput T r) h ()
      (h.withTable T ((h.table T).set .output (if r ∈ o then o else r :: o))) := by
  unfold hookOutput
  by_cases hm : r ∈ o
  · rw [if_pos hm, Table.set_eq_self ho]
    refine yields_bind (ipt_yields (t := h.table T) (by simp [Table.check, ho, hm])) ?_
    exact yields_pure () _
  · rw [if_neg hm]
    refine yields_bind (ipt_yields_none (by simp [Table.check, ho, hm])) ?_
    exact yields_discard (ipt_yields (by simp [Table.insert, ho, hr]))

theorem append_yields {c : Chain} {r : FwRule} {l : List FwRule} (hc : h.table T c = some l)
    (hr : (h.table T).Resolves r) :
    Yields (ipt T (Table.append c r)) h true
      (h.withTable T ((h.table T).set c (l ++ [r]))) :=
  ipt_yields (by simp [Table.append, hc, hr])

/-- The rules that one call of `nfq_rule` appends. -/
def nfqRules (env : Env) (strategy : String) (uid : Nat) (proto ports pktlim : String) :
    List FwRule :=
  if strategy = "none" then [] else [nfqRuleSpec env uid proto ports pktlim]

/-- The host with other rules in `WZFW`. -/
def Host.withWzfw (h : Host) (rs : List FwRule) : Host :=
  { h with mangle := h.mangle.set .wzfw rs }

@[simp] theorem Host.withWzfw_wzfw (h : Host) (rs : List FwRule) :
    (h.withWzfw rs).mangle .wzfw = some rs := by
  simp [Host.withWzfw]

@[simp] theorem Host.withWzfw_withWzfw (h : Host) (rs rs' : List FwRule) :
    (h.withWzfw rs).withWzfw rs' = h.withWzfw rs' := by
  simp only [Host.withWzfw, Table.set_set]

theorem Host.withWzfw_eq_self {rs : List FwRule} (hw : h.mangle .wzfw = some rs) :
    h.withWzfw rs = h := by
  rw [Host.withWzfw, Table.set_eq_self hw]

theorem nfqRule_yields {rs : List FwRule} (hw : h.mangle .wzfw = some rs) (uid : Nat)
    (proto ports pktlim : String) :
    Yields (nfqRule env strategy uid proto ports pktlim) h ()
      (h.withWzfw (rs ++ nfqRules env strategy uid proto ports pktlim)) := by
  unfold nfqRule nfqRules
  by_cases hs : strategy = "none"
  · simp only [hs, if_true, List.append_nil, Host.withWzfw_eq_self hw]
    exact yields_pure () h
  · simp only [hs, if_false]
    exact yields_bind (yields_pure _ h)
      (yields_discard (append_yields (T := .mangle) hw (by rfl)))

/-- Two calls of `nfq_rule` append their rules in order. -/
theorem nfqRule_nfqRule_yields {rs : List FwRule} (hw : h.mangle .wzfw = some rs)
    (uid uid' : Nat) (proto proto' ports ports' pktlim pktlim' : String) :
    Yields (do
        nfqRule env strategy uid proto ports pktlim
        nfqRule env strategy uid' proto' ports' pktlim') h ()
      (h.withWzfw (rs ++ (nfqRules env strategy uid proto ports pktlim ++
        nfqRules env strategy uid' proto' ports' pktlim'))) := by
  refine yields_bind (nfqRule_yields hw uid proto ports pktlim) ?_
  have h' : Yields (nfqRule env strategy uid' proto' ports' pktlim') _ () _ :=
    nfqRule_yields (h.withWzfw_wzfw (rs ++ nfqRules env strategy uid proto ports pktlim))
      uid' proto' ports' pktlim'
  rwa [Host.withWzfw_withWzfw, List.append_assoc] at h'

end Blocks

/-! ## The state after a sequence of starts -/

/-- One run of `wz-fw.sh start`: the exit mode and the strategy that the state files hold. -/
structure Start where
  mode : ExitMode
  strategy : String
  deriving DecidableEq

variable (k : Kernel) (env : Env)

/-- `wz-fw.sh start` -/
def start (r : Start) (h : Host) : Host := (fwApply k env r.mode r.strategy).exec h

/-- A sequence of starts, in order. -/
def startAll (rs : List Start) (h : Host) : Host := rs.foldl (fun h r => start k env r h) h

/-- The UDP rules of an upstream start. -/
def udpRules (strategy : String) : List FwRule :=
  if env.udpProxy = "relay" then []
  else nfqRules env strategy env.uidProxy "udp" env.nfqUdpPorts env.nfqwsUdpPktOut

/-- The rules for the exit flows of an upstream start. -/
def exitRules (mode : ExitMode) (strategy : String) : List FwRule :=
  if env.upPort mode = "" then []
  else nfqRules env strategy env.uidExit "tcp" (env.upPort mode) env.nfqwsTcpPktOut ++
    nfqRules env strategy env.uidExit "udp" (env.upPort mode) env.nfqwsUdpPktOut

/-- The NFQUEUE rules of a start. -/
def modeRules (r : Start) : List FwRule :=
  match r.mode with
  | .direct =>
    nfqRules env r.strategy env.uidProxy "tcp" env.nfqTcpPorts env.nfqwsTcpPktOut ++
      nfqRules env r.strategy env.uidProxy "udp" env.nfqUdpPorts env.nfqwsUdpPktOut
  | .socks5 | .ss => udpRules env r.strategy ++ exitRules env r.mode r.strategy

/-- The mangle table after a sequence of starts whose last one is given. -/
def mangleAfter : Option Start → FwTable
  | none => FwTable.empty
  | some r => fun
    | .output => some [wzfwJump]
    | .prerouting => some [nfqinJump]
    | .wzfw => some (markGuard env :: loopbackGuard :: modeRules env r)
    | .nfqin => some [nfqinReturn]
    | _ => none

/-- The nat table after a number of upstream starts. -/
def natAfter : Nat → FwTable
  | 0 => FwTable.empty
  | _ + 1 => fun
    | .output => some [wzredirJump]
    | .prerouting => some []
    | .wzredir => some [redirectRule env]
    | _ => none

/-- The policy rules after a number of upstream starts: each start adds one, unless the kernel
refuses duplicates. -/
def policyAfter (ups : Nat) : List PolicyRule :=
  if env.udpProxy = "relay" then
    List.replicate (if k.refusesDuplicateRule then min ups 1 else ups) (udpPolicy env)
  else []

def routesAfter (ups : Nat) : List Route :=
  if env.udpProxy = "relay" ∧ ups ≠ 0 then [udpRoute env] else []

def Host.after (last : Option Start) (ups : Nat) : Host :=
  ⟨mangleAfter env last, natAfter env ups, policyAfter k env ups, routesAfter env ups⟩

theorem after_none_zero : Host.after k env none 0 = Host.empty := by
  simp [Host.after, Host.empty, mangleAfter, natAfter, policyAfter, routesAfter]

variable {k env}

theorem fwApplyRedirect_yields (m : FwTable) (ups : Nat) (p : List PolicyRule) (rt : List Route) :
    Yields (fwApplyRedirect env) ⟨m, natAfter env ups, p, rt⟩ ()
      ⟨m, natAfter env (ups + 1), p, rt⟩ := by
  refine yields_bind (makeChain_yields .nat .wzredir _) ?_
  have ho : ∃ o, natAfter env ups .output = some o ∧
      (if wzredirJump ∈ o then o else wzredirJump :: o) = [wzredirJump] := by
    cases ups with
    | zero => exact ⟨[], rfl, rfl⟩
    | succ ups => exact ⟨[wzredirJump], rfl, by simp⟩
  obtain ⟨o, ho, hooked⟩ := ho
  refine yields_bind (hookOutput_yields (o := o) (by simpa [Host.table, Host.withTable] using ho)
    (by simp [Table.Resolves, wzredirJump])) ?_
  rw [hooked]
  have happ := yields_discard (append_yields (T := .nat) (c := .wzredir) (r := redirectRule env)
    (l := []) (h := (⟨m, ((natAfter env ups).set .wzredir []).set .output [wzredirJump], p, rt⟩))
    (by simp [Host.table]) rfl)
  have hnat : (((natAfter env ups).set .wzredir []).set .output [wzredirJump]).set .wzredir
      [redirectRule env] = natAfter env (ups + 1) := by
    funext c
    cases ups <;> cases c <;> simp [natAfter, FwTable.empty]
  simpa [Host.withTable, Host.table, hnat] using happ

theorem ruleAdd_policyAfter (m n : FwTable) (ups : Nat) (rt : List Route)
    (hrelay : env.udpProxy = "relay") :
    ∃ b, Yields (Script.cmd (ruleAdd k (udpPolicy env))) ⟨m, n, policyAfter k env ups, rt⟩ b
      ⟨m, n, policyAfter k env (ups + 1), rt⟩ := by
  cases hk : k.refusesDuplicateRule with
  | false =>
    refine ⟨true, yields_cmd ?_⟩
    simp [ruleAdd, policyAfter, hrelay, hk, List.replicate_succ]
  | true =>
    cases ups with
    | zero =>
      refine ⟨true, yields_cmd ?_⟩
      simp [ruleAdd, policyAfter, hrelay, hk]
    | succ ups =>
      have hsame : policyAfter k env (ups + 2) = policyAfter k env (ups + 1) := by
        simp [policyAfter, hrelay, hk]
      rw [show ups + 1 + 1 = ups + 2 from rfl, hsame]
      refine ⟨false, yields_cmd_none ?_⟩
      simp [ruleAdd, policyAfter, hrelay, hk]

theorem routeAdd_routesAfter (m n : FwTable) (p : List PolicyRule) (ups : Nat)
    (hrelay : env.udpProxy = "relay") :
    ∃ b, Yields (Script.cmd (routeAdd (udpRoute env))) ⟨m, n, p, routesAfter env ups⟩ b
      ⟨m, n, p, routesAfter env (ups + 1)⟩ := by
  cases ups with
  | zero =>
    refine ⟨true, yields_cmd ?_⟩
    simp [routeAdd, routesAfter, hrelay]
  | succ ups =>
    have hsame : routesAfter env (ups + 2) = routesAfter env (ups + 1) := by
      simp [routesAfter, hrelay]
    rw [show ups + 1 + 1 = ups + 2 from rfl, hsame]
    refine ⟨false, yields_cmd_none ?_⟩
    simp [routeAdd, routesAfter, hrelay]

theorem fwApplyUdp_yields {m : FwTable} {rs : List FwRule} (hw : m .wzfw = some rs) (n : FwTable)
    (strategy : String) (ups : Nat) :
    Yields (fwApplyUdp k env strategy)
      ⟨m, n, policyAfter k env ups, routesAfter env ups⟩ ()
      (Host.withWzfw ⟨m, n, policyAfter k env (ups + 1), routesAfter env (ups + 1)⟩
        (rs ++ udpRules env strategy)) := by
  unfold fwApplyUdp udpRules
  by_cases hrelay : env.udpProxy = "relay"
  · simp only [hrelay, if_true, List.append_nil]
    rw [Host.withWzfw_eq_self hw]
    obtain ⟨b, hrule⟩ := ruleAdd_policyAfter (k := k) m n ups (routesAfter env ups) hrelay
    obtain ⟨b', hroute⟩ := routeAdd_routesAfter m n (policyAfter k env (ups + 1)) ups hrelay
    refine yields_bind (yields_discard hrule) (yields_bind (yields_discard hroute) ?_)
    exact yields_bind (yields_discard (yields_cmd rfl)) (yields_discard (yields_cmd rfl))
  · simp only [hrelay, if_false]
    have hp (j : Nat) : policyAfter k env j = [] := by simp [policyAfter, hrelay]
    have hr (j : Nat) : routesAfter env j = [] := by simp [routesAfter, hrelay]
    simp only [hp, hr]
    exact nfqRule_yields (h := ⟨m, n, [], []⟩) hw env.uidProxy "udp" env.nfqUdpPorts
      env.nfqwsUdpPktOut

theorem fwApplyExitFlows_yields {h : Host} {rs : List FwRule} (hw : h.mangle .wzfw = some rs)
    (mode : ExitMode) (strategy : String) :
    Yields (fwApplyExitFlows env mode strategy) h ()
      (h.withWzfw (rs ++ exitRules env mode strategy)) := by
  unfold fwApplyExitFlows exitRules
  by_cases hport : env.upPort mode = ""
  · simp only [hport, ne_eq, not_true_eq_false, if_false, if_true, List.append_nil]
    rw [Host.withWzfw_eq_self hw]
    exact yields_bind (yields_pure () _) (yields_pure () _)
  · simp only [hport, ne_eq, not_false_eq_true, if_false, if_true]
    exact nfqRule_nfqRule_yields hw ..

/-- How many upstream starts there are once one more start has run. -/
def Start.upsAfter (r : Start) (ups : Nat) : Nat := if r.mode.upstream then ups + 1 else ups

theorem fwApplyMode_yields {m : FwTable} {l : List FwRule} (hw : m .wzfw = some l)
    (r : Start) (ups : Nat) :
    Yields (fwApplyMode k env r.mode r.strategy)
      ⟨m, natAfter env ups, policyAfter k env ups, routesAfter env ups⟩ ()
      (Host.withWzfw ⟨m, natAfter env (r.upsAfter ups), policyAfter k env (r.upsAfter ups),
        routesAfter env (r.upsAfter ups)⟩ (l ++ modeRules env r)) := by
  obtain ⟨mode, strategy⟩ := r
  have hupstream : Yields (do
        fwApplyRedirect env
        fwApplyUdp k env strategy
        fwApplyExitFlows env mode strategy)
      ⟨m, natAfter env ups, policyAfter k env ups, routesAfter env ups⟩ ()
      (Host.withWzfw ⟨m, natAfter env (ups + 1), policyAfter k env (ups + 1),
        routesAfter env (ups + 1)⟩
        (l ++ (udpRules env strategy ++ exitRules env mode strategy))) := by
    refine yields_bind (fwApplyRedirect_yields m ups _ _) ?_
    refine yields_bind (fwApplyUdp_yields hw (natAfter env (ups + 1)) strategy ups) ?_
    have h : Yields (fwApplyExitFlows env mode strategy) _ () _ := fwApplyExitFlows_yields
      (Host.withWzfw_wzfw
      ⟨m, natAfter env (ups + 1), policyAfter k env (ups + 1), routesAfter env (ups + 1)⟩
      (l ++ udpRules env strategy)) mode strategy
    rwa [Host.withWzfw_withWzfw, List.append_assoc] at h
  cases mode with
  | direct => exact nfqRule_nfqRule_yields hw ..
  | socks5 => exact hupstream
  | ss => exact hupstream

theorem insert_yields {h : Host} {T : TableName} {c : Chain} {r : FwRule} {l : List FwRule}
    (hc : h.table T c = some l) (hr : (h.table T).Resolves r) {n : Nat}
    (hn : 1 ≤ n ∧ n ≤ l.length + 1) :
    Yields (ipt T (Table.insert c n r)) h true
      (h.withTable T ((h.table T).set c (l.take (n - 1) ++ r :: l.drop (n - 1)))) :=
  ipt_yields (by simp [Table.insert, hc, hr, hn])

/-- The mangle table once WZFW has its hook and its guards, and nothing else yet. -/
def wzfwReady (env : Env) (last : Option Start) : FwTable :=
  ((mangleAfter env last).set .output [wzfwJump]).set .wzfw [markGuard env, loopbackGuard]

theorem fwApplyWzfw_yields (last : Option Start) (n : FwTable) (p : List PolicyRule)
    (rt : List Route) :
    Yields (fwApplyWzfw env) ⟨mangleAfter env last, n, p, rt⟩ () ⟨wzfwReady env last, n, p, rt⟩ := by
  refine yields_bind (makeChain_yields .mangle .wzfw _) ?_
  have ho : ∃ o, mangleAfter env last .output = some o ∧
      (if wzfwJump ∈ o then o else wzfwJump :: o) = [wzfwJump] := by
    cases last with
    | none => exact ⟨[], rfl, rfl⟩
    | some r => exact ⟨[wzfwJump], rfl, by simp⟩
  obtain ⟨o, ho, hooked⟩ := ho
  refine yields_bind (hookOutput_yields (o := o) (by simpa [Host.table, Host.withTable] using ho)
    (by simp [Table.Resolves, wzfwJump])) ?_
  rw [hooked]
  refine yields_bind (yields_discard (insert_yields (l := []) (by simp) rfl (by simp))) ?_
  have hlo := yields_discard (insert_yields (T := .mangle) (c := .wzfw) (r := loopbackGuard)
    (l := [markGuard env]) (n := 2)
    (h := ⟨(((mangleAfter env last).set .wzfw []).set .output [wzfwJump]).set .wzfw
      [markGuard env], n, p, rt⟩) (by simp [Host.table]) rfl (by simp))
  have hready : ((((mangleAfter env last).set .wzfw []).set .output [wzfwJump]).set .wzfw
      [markGuard env]).set .wzfw [markGuard env, loopbackGuard] = wzfwReady env last := by
    funext c
    cases c <;> simp [wzfwReady]
  simpa [Host.withTable, Host.table, hready] using hlo

theorem fwApplyNfqin_yields {m : FwTable} {q : List FwRule} (hpre : m .prerouting = some q)
    (n : FwTable) (p : List PolicyRule) (rt : List Route) :
    Yields fwApplyNfqin ⟨m, n, p, rt⟩ ()
      ⟨(m.set .prerouting (nfqinJump :: q.erase nfqinJump)).set .nfqin [nfqinReturn], n, p, rt⟩ := by
  refine yields_bind (makeChain_yields .mangle .nfqin _) ?_
  have hdel : ∃ b, Yields (ipt .mangle (Table.delete .prerouting nfqinJump))
      ⟨m.set .nfqin [], n, p, rt⟩ b
      ⟨(m.set .nfqin []).set .prerouting (q.erase nfqinJump), n, p, rt⟩ := by
    by_cases hj : nfqinJump ∈ q
    · exact ⟨true, ipt_yields (by simp [Table.delete, Host.table, hpre, hj])⟩
    · rw [List.erase_of_not_mem hj, Table.set_eq_self (l := q) (c := .prerouting)
        (by simpa using hpre)]
      exact ⟨false, ipt_yields_none (by simp [Table.delete, Host.table, hpre, hj])⟩
  obtain ⟨b, hdel⟩ := hdel
  refine yields_bind (yields_discard hdel) ?_
  refine yields_bind (yields_discard (insert_yields (l := q.erase nfqinJump)
    (by simp [Host.table]) (by simp [Table.Resolves, nfqinJump, Host.table]) (by simp))) ?_
  have happ := yields_discard (append_yields (T := .mangle) (c := .nfqin) (r := nfqinReturn)
    (l := []) (h := ⟨(((m.set .nfqin []).set .prerouting (q.erase nfqinJump))).set .prerouting
      (nfqinJump :: q.erase nfqinJump), n, p, rt⟩) (by simp [Host.table]) rfl)
  have heq : ((m.set .nfqin []).set .prerouting (nfqinJump :: q.erase nfqinJump)).set .nfqin
      [nfqinReturn] =
      (m.set .prerouting (nfqinJump :: q.erase nfqinJump)).set .nfqin [nfqinReturn] := by
    funext c
    cases c <;> simp
  simpa [Host.withTable, Host.table, heq] using happ

/-! ## One start, and a sequence of starts -/

variable (k env)

/-- One start takes the state after any earlier starts to the state after one more. -/
theorem start_after (r : Start) (last : Option Start) (ups : Nat) :
    start k env r (Host.after k env last ups) = Host.after k env (some r) (r.upsAfter ups) := by
  refine Yields.exec (a := ()) ?_
  refine yields_bind (fwApplyWzfw_yields last _ _ _) ?_
  refine yields_bind (fwApplyMode_yields (l := [markGuard env, loopbackGuard])
    (by simp [wzfwReady]) r ups) ?_
  have hpre : ∃ pre, wzfwReady env last .prerouting = some pre ∧
      nfqinJump :: pre.erase nfqinJump = [nfqinJump] := by
    cases last with
    | none => exact ⟨[], rfl, rfl⟩
    | some l => exact ⟨[nfqinJump], rfl, by simp⟩
  obtain ⟨pre, hpre, hone⟩ := hpre
  have h := fwApplyNfqin_yields (q := pre)
    (m := (wzfwReady env last).set .wzfw ([markGuard env, loopbackGuard] ++ modeRules env r))
    (by simpa using hpre) (natAfter env (r.upsAfter ups)) (policyAfter k env (r.upsAfter ups))
    (routesAfter env (r.upsAfter ups))
  have hm : (((wzfwReady env last).set .wzfw ([markGuard env, loopbackGuard] ++
      modeRules env r)).set .prerouting [nfqinJump]).set .nfqin [nfqinReturn] =
      mangleAfter env (some r) := by
    funext c
    cases last <;> cases c <;> simp [wzfwReady, mangleAfter, FwTable.empty]
  rw [hone, hm] at h
  exact h

/-- The number of upstream starts in a sequence. -/
def upstreamCount (rs : List Start) : Nat := rs.countP fun r => r.mode.upstream

theorem startAll_after (rs : List Start) (last : Option Start) (ups : Nat) :
    startAll k env rs (Host.after k env last ups) =
      Host.after k env (rs.getLast?.or last) (ups + upstreamCount rs) := by
  induction rs generalizing last ups with
  | nil => rfl
  | cons r rs ih =>
    show startAll k env rs (start k env r _) = _
    rw [start_after, ih]
    congr 1
    · rw [List.getLast?_cons]
      cases rs.getLast? <;> rfl
    · cases hm : r.mode.upstream <;> simp [Start.upsAfter, upstreamCount, hm, Nat.add_assoc,
        Nat.add_comm]

/-- What a sequence of starts on an empty ruleset leaves. -/
theorem startAll_empty (rs : List Start) :
    startAll k env rs Host.empty = Host.after k env rs.getLast? (upstreamCount rs) := by
  rw [← after_none_zero k env, startAll_after]
  simp

/-! ## History independence -/

theorem natAfter_eq_iff (a b : Nat) : natAfter env a = natAfter env b ↔ (a = 0 ↔ b = 0) := by
  constructor
  · intro h
    have hout := congrFun h .wzredir
    cases a <;> cases b <;> simp_all [natAfter, FwTable.empty]
  · intro h
    cases a <;> cases b <;> simp_all [natAfter]

theorem policyAfter_eq_iff (a b : Nat) : policyAfter k env a = policyAfter k env b ↔
    (env.udpProxy = "relay" →
      if k.refusesDuplicateRule then (a = 0 ↔ b = 0) else a = b) := by
  unfold policyAfter
  by_cases hrelay : env.udpProxy = "relay"
  · simp only [hrelay, if_true, List.replicate_inj, or_true, and_true, forall_const]
    cases k.refusesDuplicateRule
    · simp
    · simp only [if_true]
      omega
  · simp [hrelay]

theorem routesAfter_eq_of_iff {a b : Nat} (h : a = 0 ↔ b = 0) :
    routesAfter env a = routesAfter env b := by
  simp only [routesAfter, ne_eq, h]

/-- The tables, rules and routes after `earlier` and `r` are those of `r` alone, and in `direct`
mode nothing sends the proxy's traffic into redsocks or the tunnel. -/
structure HistoryIndependent (earlier : List Start) (r : Start) : Prop where
  same : startAll k env (earlier ++ [r]) Host.empty = start k env r Host.empty
  no_redirect : r.mode = .direct → ∀ c rs,
    (startAll k env (earlier ++ [r]) Host.empty).nat c = some rs → redirectRule env ∉ rs
  no_policy : r.mode = .direct →
    udpPolicy env ∉ (startAll k env (earlier ++ [r]) Host.empty).policy

theorem start_empty (r : Start) :
    start k env r Host.empty = Host.after k env (some r) (r.upsAfter 0) := by
  rw [← after_none_zero k env, start_after]

theorem startAll_snoc (earlier : List Start) (r : Start) :
    startAll k env (earlier ++ [r]) Host.empty =
      Host.after k env (some r) (r.upsAfter (upstreamCount earlier)) := by
  rw [startAll_empty, List.getLast?_concat, upstreamCount, List.countP_append]
  cases hm : r.mode.upstream <;> simp [Start.upsAfter, hm, upstreamCount]

theorem upstreamCount_eq_zero {rs : List Start} :
    upstreamCount rs = 0 ↔ ∀ e ∈ rs, ¬ e.mode.upstream = true :=
  List.countP_eq_zero

/-- **When the history of starts does not matter.** Exactly when every upstream start is
eventually followed by a last start in an upstream mode, on a kernel that refuses the second
policy rule if the relay is in use. -/
theorem historyIndependent_iff (earlier : List Start) (r : Start) :
    HistoryIndependent k env earlier r ↔
      ∀ e ∈ earlier, e.mode.upstream = true →
        r.mode.upstream = true ∧ (env.udpProxy = "relay" → k.refusesDuplicateRule = true) := by
  constructor
  · intro h e he hup
    have hcount : upstreamCount earlier ≠ 0 := fun h0 => upstreamCount_eq_zero.mp h0 e he hup
    have hsame := h.same
    rw [startAll_snoc, start_empty] at hsame
    have hnat := (natAfter_eq_iff env _ _).mp (congrArg Host.nat hsame)
    have hpol := (policyAfter_eq_iff k env _ _).mp (congrArg Host.policy hsame)
    cases hm : r.mode.upstream with
    | false =>
      simp [Start.upsAfter, hm] at hnat
      exact absurd hnat hcount
    | true =>
      refine ⟨rfl, fun hrelay => ?_⟩
      have hdup := hpol hrelay
      simp only [Start.upsAfter, hm, if_true] at hdup
      by_contra hk
      simp only [hk, if_false] at hdup
      omega
  · intro h
    -- the last state depends on the number of upstream starts only through its being zero
    have hzero : r.mode = .direct → upstreamCount earlier = 0 := by
      intro hmode
      refine upstreamCount_eq_zero.mpr fun e he hup => ?_
      have := (h e he hup).1
      rw [hmode] at this
      exact absurd this (by decide)
    have hiff : r.upsAfter (upstreamCount earlier) = 0 ↔ r.upsAfter 0 = 0 := by
      cases hm : r.mode with
      | direct => simp [Start.upsAfter, ExitMode.upstream, hm, hzero hm]
      | socks5 => simp [Start.upsAfter, ExitMode.upstream, hm]
      | ss => simp [Start.upsAfter, ExitMode.upstream, hm]
    have hpol : policyAfter k env (r.upsAfter (upstreamCount earlier)) =
        policyAfter k env (r.upsAfter 0) := by
      refine (policyAfter_eq_iff k env _ _).mpr fun hrelay => ?_
      by_cases hcount : upstreamCount earlier = 0
      · rw [hcount]
        simp
      · obtain ⟨e, he, hup⟩ := List.countP_pos_iff.mp (Nat.pos_of_ne_zero hcount)
        rw [if_pos ((h e he hup).2 hrelay)]
        exact hiff
    have hnat := (natAfter_eq_iff env _ _).mpr hiff
    refine ⟨?_, fun hmode c rs hc => ?_, fun hmode => ?_⟩
    · rw [startAll_snoc, start_empty]
      simp only [Host.after, hnat, hpol, routesAfter_eq_of_iff env hiff]
    · rw [startAll_snoc] at hc
      simp only [Host.after, Start.upsAfter, hmode, ExitMode.upstream, hzero hmode] at hc
      cases c <;> simp_all [natAfter, FwTable.empty]
    · rw [startAll_snoc]
      simp [Host.after, Start.upsAfter, hmode, ExitMode.upstream, hzero hmode, policyAfter]

/-- The container's defaults (`zapret.default`, `wz-common.sh`). -/
def defaultEnv : Env where
  uidProxy := 1001
  uidExit := 1002
  desyncMark := "0x40000000"
  qnumTcp := "210"
  qnumUdp := "211"
  nfqTcpPorts := "80,443"
  nfqUdpPorts := "443"
  nfqwsTcpPktOut := "9"
  nfqwsUdpPktOut := "9"
  redsocksPort := "1060"
  udpProxy := "relay"
  utun := "utun0"
  rtTableUdp := "100"
  upstreamSocks5Port := "1080"
  upstreamSsPort := "8388"

/-- After `socks5` and then `direct`, the redirect into redsocks is still hooked. -/
theorem socks5_then_direct :
    ¬ HistoryIndependent ⟨true⟩ defaultEnv [⟨.socks5, "standard"⟩] ⟨.direct, "standard"⟩ := by
  intro h
  have hnat := congrArg (fun h : Host => h.nat .output) h.same
  exact absurd hnat (by decide)

end WebZapret
