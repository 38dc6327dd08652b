import WebZapret.Firewall.Faults
import WebZapret.Firewall.Packets
import WebZapret.Firewall.Stops

/-!
# Which way the packets go

`gatewayPath` says what the firewall is for: the flows that a mode and a strategy send to nfqws, the TCP
of the proxy that goes to redsocks, and its UDP that goes into the tunnel. After any sequence of starts
and stops, that is the way that every packet goes (`path_after_runs`).
-/

namespace WebZapret

namespace Stepwise

/-- A kind of connections that is desynced: `pktlim` is how many packets of each. -/
structure Flow where
  uid : Nat
  proto : String
  ports : String
  pktlim : String

def Flow.has (f : Flow) (p : Packet) : Bool :=
  p.sat (.proto f.proto) && p.sat (.uidOwner f.uid) && p.sat (.dports f.ports) &&
    (!limitGiven f.pktlim || p.sat (.connbytesOriginalPackets ("1:" ++ f.pktlim)))

/-- The flows that a mode desyncs: those of the proxy, or those of the exit user upstream. -/
def flows (env : Env) : ExitMode → List Flow
  | .direct => [⟨env.uidProxy, "tcp", env.nfqTcpPorts, env.nfqwsTcpPktOut⟩,
      ⟨env.uidProxy, "udp", env.nfqUdpPorts, env.nfqwsUdpPktOut⟩]
  | mode =>
    (if env.udpProxy = "relay" then []
      else [⟨env.uidProxy, "udp", env.nfqUdpPorts, env.nfqwsUdpPktOut⟩]) ++
    if env.upPort mode = "" then []
      else [⟨env.uidExit, "tcp", env.upPort mode, env.nfqwsTcpPktOut⟩,
        ⟨env.uidExit, "udp", env.upPort mode, env.nfqwsUdpPktOut⟩]

/-- The packet goes to nfqws. -/
def queued (env : Env) (r : Start) (p : Packet) : Bool :=
  r.strategy ≠ "none" && !p.sat (.mark (env.desyncMark ++ "/" ++ env.desyncMark)) &&
    !p.sat (.outInterface "lo") && (flows env r.mode).any (·.has p)

/-- The way of a packet, where `last` is the last start since the last stop, if there is one, and
`upstream` is whether there has been an upstream one. -/
def gatewayPath (env : Env) (last : Option Start) (upstream : Bool) (p : Packet) : Path where
  mangle :=
    if last.any fun r => queued env r p then .decided (.nfqueueBypass env.qnumTcp) else .returned
  nat :=
    if upstream && p.sat (.proto "tcp") && p.sat (.uidOwner env.uidProxy) then
      .decided (.redirect env.redsocksPort)
    else .returned
  device :=
    if env.udpProxy = "relay" && upstream && p.sat (.uidOwner env.uidProxy) && p.sat (.proto "udp") then
      some env.utun
    else none

variable {k : Kernel} {env : Env}

/-! ## The tables -/

def Flow.rule (env : Env) (f : Flow) : FwRule := nfqRuleSpec env f.uid f.proto f.ports f.pktlim

theorem modeRules_eq (r : Start) : modeRules env r =
    if r.strategy = "none" then [] else (flows env r.mode).map (Flow.rule env) := by
  obtain ⟨mode, strategy⟩ := r
  have hup (mode : ExitMode) : udpRules env strategy ++ exitRules env mode strategy =
      if strategy = "none" then [] else
        ((if env.udpProxy = "relay" then []
          else [⟨env.uidProxy, "udp", env.nfqUdpPorts, env.nfqwsUdpPktOut⟩]) ++
        if env.upPort mode = "" then []
          else [⟨env.uidExit, "tcp", env.upPort mode, env.nfqwsTcpPktOut⟩,
            ⟨env.uidExit, "udp", env.upPort mode, env.nfqwsUdpPktOut⟩] : List Flow).map
          (Flow.rule env) := by
    unfold udpRules exitRules nfqRules
    split_ifs <;> rfl
  cases mode with
  | direct =>
    unfold modeRules nfqRules
    by_cases h : strategy = "none" <;> simp [h, flows, Flow.rule]
  | socks5 => exact hup .socks5
  | ss => exact hup .ss

theorem flow_rule_matches (f : Flow) (p : Packet) : (f.rule env).conds.all p.sat =
    (f.has p && !p.sat (.mark (env.desyncMark ++ "/" ++ env.desyncMark))) := by
  unfold Flow.rule nfqRuleSpec Flow.has
  by_cases h : limitGiven f.pktlim = true
  · simp [h, p.notMark, Bool.and_assoc, Bool.and_comm, Bool.and_left_comm]
  · simp [h, p.notMark, Bool.and_assoc]

/-- What the packet meets in WZFW. -/
theorem through_wzfw (enter : Chain → Outcome Verdict) (r : Start) (p : Packet) :
    Table.through p.sat Verdict.returns enter (markGuard env :: loopbackGuard :: modeRules env r) =
      if queued env r p then .decided (.nfqueueBypass env.qnumTcp) else .returned := by
  have hmark : (markGuard env).conds.all p.sat =
      p.sat (.mark (env.desyncMark ++ "/" ++ env.desyncMark)) := by simp [markGuard]
  have hlo : loopbackGuard.conds.all p.sat = p.sat (.outInterface "lo") := by simp [loopbackGuard]
  have hrules : Table.through p.sat Verdict.returns enter (modeRules env r) =
      if (modeRules env r).any fun rule => rule.conds.all p.sat then
        .decided (.nfqueueBypass env.qnumTcp) else .returned :=
    Table.through_uniform rfl fun rule (hrule : rule ∈ caseRules env r.strategy (some r.mode)) =>
      caseRules_target hrule
  cases hm : p.sat (.mark (env.desyncMark ++ "/" ++ env.desyncMark)) with
  | true => simp [Table.through_cons_verdict _ rfl (hmark.trans hm), queued, hm, Verdict.returns]
  | false =>
    rw [Table.through_cons_of_not _ (hmark.trans hm)]
    cases hl : p.sat (.outInterface "lo") with
    | true => simp [Table.through_cons_verdict _ rfl (hlo.trans hl), queued, hl, Verdict.returns]
    | false =>
      rw [Table.through_cons_of_not _ (hlo.trans hl), hrules, modeRules_eq]
      by_cases hs : r.strategy = "none"
      · simp [hs, queued]
      · simp [hs, queued, hm, hl, List.any_map, Function.comp_def, flow_rule_matches]

/-- A jump that every packet takes. -/
theorem outcome_of_hook {t : FwTable} {c : Chain} (ht : t .output = some [⟨[], .jump c⟩])
    (p : Packet) : t.outcome p = Table.through p.sat Verdict.returns
      (Table.walk p.sat Verdict.returns t 4) ((t c).getD []) := by
  show Table.through p.sat Verdict.returns (Table.walk p.sat Verdict.returns t 5)
    ((t .output).getD []) = _
  rw [ht, Option.getD_some, Table.through_cons_jump [] rfl rfl]
  show (Table.through p.sat Verdict.returns (Table.walk p.sat Verdict.returns t 4)
    ((t c).getD [])).andThen .returned = _
  cases Table.through p.sat Verdict.returns (Table.walk p.sat Verdict.returns t 4)
    ((t c).getD []) <;> rfl

theorem mangle_outcome (last : Option Start) (p : Packet) : (mangleAfter env last).outcome p =
    if last.any fun r => queued env r p then .decided (.nfqueueBypass env.qnumTcp) else .returned := by
  cases last with
  | none => rfl
  | some r =>
    rw [outcome_of_hook (c := .wzfw) rfl]
    exact through_wzfw _ r p

theorem nat_outcome (ups : Nat) (p : Packet) : (natAfter env ups).outcome p =
    if decide (ups ≠ 0) && p.sat (.proto "tcp") && p.sat (.uidOwner env.uidProxy) then
      .decided (.redirect env.redsocksPort) else .returned := by
  cases ups with
  | zero => rfl
  | succ ups =>
    rw [outcome_of_hook (c := .wzredir) rfl]
    have hone : ∀ rule ∈ [redirectRule env], rule.target = .verdict (.redirect env.redsocksPort) := by
      simp [redirectRule]
    refine (Table.through_uniform rfl hone).trans ?_
    simp [redirectRule]

/-! ## The policy rules -/

/-- An upstream start leaves a policy rule, and only a stop removes one. -/
theorem rules_ne_zero (runs : List FwRun) :
    (leftAfter k runs).ups ≠ 0 → (leftAfter k runs).rules ≠ 0 := by
  induction runs using List.reverseRecOn with
  | nil => simp [leftAfter, Left.none]
  | append_singleton runs run ih =>
    have hlast : leftAfter k (runs ++ [run]) = (leftAfter k runs).after k run := by
      rw [leftAfter, List.foldl_append]
      rfl
    rw [hlast]
    cases run with
    | stop => simp [Left.after]
    | start r =>
      cases hm : r.mode.upstream with
      | true =>
        simp only [Left.after, hm, if_true, added]
        split <;> omega
      | false => simpa [Left.after, Start.upsAfter, hm] using ih

theorem device_host {s : Left} (hs : s.ups ≠ 0 → s.rules ≠ 0) (p : Packet) :
    (s.host env).device p =
      if env.udpProxy = "relay" && decide (s.ups ≠ 0) && p.sat (.uidOwner env.uidProxy) &&
        p.sat (.proto "udp") then some env.utun else none := by
  by_cases hrelay : env.udpProxy = "relay"
  · show (relayRules env s.rules).findSome? _ = _
    rw [relayRules, if_pos hrelay]
    by_cases hups : s.ups = 0
    · have hroutes : (s.host env).routes = [] := by simp [Left.host, routesAfter, hups]
      simp [hroutes, hups]
    · have hroutes : (s.host env).routes = [udpRoute env] := by
        simp [Left.host, routesAfter, hups, hrelay]
      obtain ⟨n, hn⟩ := Nat.exists_eq_succ_of_ne_zero (hs hups)
      rw [hroutes, hn, List.replicate_succ]
      by_cases happlies : (udpPolicy env).applies p = true
      · have hsat := happlies
        simp only [PolicyRule.applies, udpPolicy, Bool.and_eq_true] at hsat
        rw [List.findSome?_cons, if_pos happlies]
        simp [hrelay, hups, hsat, udpRoute, udpPolicy]
      · have hsat := happlies
        simp only [PolicyRule.applies, udpPolicy, Bool.and_eq_true] at hsat
        simp [happlies, hrelay, hups, hsat]
  · have hrules : (s.host env).policy = [] := by simp [Left.host, relayRules, hrelay]
    simp [Host.device, hrules, hrelay]

/-- **Which way a packet goes.** -/
theorem path_after_runs (runs : List FwRun) (p : Packet) :
    (runAll k env runs Host.empty).path p =
      gatewayPath env (leftAfter k runs).last (decide ((leftAfter k runs).ups ≠ 0)) p := by
  rw [runAll_empty]
  show Path.mk _ _ _ = _
  rw [device_host (rules_ne_zero runs)]
  show Path.mk ((mangleAfter env _).outcome p) ((natAfter env _).outcome p) _ = _
  rw [mangle_outcome, nat_outcome]
  rfl

end Stepwise

end WebZapret
