import WebZapret.Firewall.History
import WebZapret.Lib.Commands

/-!
# The firewall scripts, a command at a time

`wz-fw.sh` runs beside `wz-test.sh`, which writes into the same mangle table. Here each script is the
program of its commands: `fw_apply` (the same script as before, `toScript_fwApply`), `fw_flush`, and
of `wz-test.sh` the commands on the host, `install_rules` between two `cleanup_all`.
-/

namespace WebZapret

/-- `ip rule del from all uidrange U-U [ipproto P] lookup T`: the first rule that has what the command
names. -/
def ruleDel (uid : Nat) (ipproto : Option String) (lookup : String) (h : Host) : Option Host :=
  let named (r : PolicyRule) : Bool :=
    r.uid = uid && ipproto.all (· = r.ipproto) && r.lookup = lookup
  if h.policy.any named then some { h with policy := h.policy.eraseP named } else none

/-- `ip route del` -/
def routeDel (r : Route) (h : Host) : Option Host :=
  if r ∈ h.routes then some { h with routes := h.routes.erase r } else none

namespace Stepwise

open Commands

/-- `$IPT -t T ...` -/
def ipt (T : TableName) (f : FwTable → Option FwTable) : Commands Host Bool :=
  invoke fun h => (f (h.table T)).map (h.withTable T)

def makeChain (T : TableName) (c : Chain) : Commands Host Unit := do
  unless ← ipt T (Table.newChain c) do
    discard (ipt T (Table.flush c))

def hookOutput (T : TableName) (r : FwRule) : Commands Host Unit := do
  unless ← ipt T (Table.check .output r) do
    discard (ipt T (Table.insert .output 1 r))

section Start

variable (k : Kernel) (env : Env) (mode : ExitMode) (strategy : String)

def nfqRule (uid : Nat) (proto ports pktlim : String) : Commands Host Unit := do
  if strategy = "none" then
    return
  discard (ipt .mangle (Table.append .wzfw (nfqRuleSpec env uid proto ports pktlim)))

def fwApplyWzfw : Commands Host Unit := do
  makeChain .mangle .wzfw
  hookOutput .mangle wzfwJump
  discard (ipt .mangle (Table.insert .wzfw 1 (markGuard env)))
  discard (ipt .mangle (Table.insert .wzfw 2 loopbackGuard))

def fwApplyRedirect : Commands Host Unit := do
  makeChain .nat .wzredir
  hookOutput .nat wzredirJump
  discard (ipt .nat (Table.append .wzredir (redirectRule env)))

def fwApplyUdp : Commands Host Unit := do
  if env.udpProxy = "relay" then
    discard (invoke (ruleAdd k (udpPolicy env)))
    discard (invoke (routeAdd (udpRoute env)))
    discard (invoke (some : Host → Option Host))
    discard (invoke (some : Host → Option Host))
  else
    nfqRule env strategy env.uidProxy "udp" env.nfqUdpPorts env.nfqwsUdpPktOut

def fwApplyExitFlows : Commands Host Unit := do
  if env.upPort mode ≠ "" then
    nfqRule env strategy env.uidExit "tcp" (env.upPort mode) env.nfqwsTcpPktOut
  if env.upPort mode ≠ "" then
    nfqRule env strategy env.uidExit "udp" (env.upPort mode) env.nfqwsUdpPktOut

def fwApplyMode : Commands Host Unit :=
  match mode with
  | .direct => do
    nfqRule env strategy env.uidProxy "tcp" env.nfqTcpPorts env.nfqwsTcpPktOut
    nfqRule env strategy env.uidProxy "udp" env.nfqUdpPorts env.nfqwsUdpPktOut
  | .socks5 | .ss => do
    fwApplyRedirect env
    fwApplyUdp k env strategy
    fwApplyExitFlows env mode strategy

def fwApplyNfqin : Commands Host Unit := do
  makeChain .mangle .nfqin
  discard (ipt .mangle (Table.delete .prerouting nfqinJump))
  discard (ipt .mangle (Table.insert .prerouting 1 nfqinJump))
  discard (ipt .mangle (Table.append .nfqin nfqinReturn))

/-- `fw_apply` -/
def fwApply : Commands Host Unit := do
  fwApplyWzfw env
  fwApplyMode k env mode strategy
  fwApplyNfqin

/-! ## They are the same scripts -/

@[simp] theorem toScript_discard {S α : Type} (p : Commands S α) :
    (discard p).toScript = discard p.toScript := toScript_bind p _

@[simp] theorem toScript_ipt (T : TableName) (f : FwTable → Option FwTable) :
    (ipt T f).toScript = WebZapret.ipt T f := rfl

@[simp] theorem toScript_makeChain (T : TableName) (c : Chain) :
    (makeChain T c).toScript = WebZapret.makeChain T c := by
  simp only [makeChain, toScript_bind, toScript_ipt]
  congr 1
  funext b
  cases b <;> rfl

@[simp] theorem toScript_hookOutput (T : TableName) (r : FwRule) :
    (hookOutput T r).toScript = WebZapret.hookOutput T r := by
  simp only [hookOutput, toScript_bind, toScript_ipt]
  congr 1
  funext b
  cases b <;> rfl

@[simp] theorem toScript_nfqRule (uid : Nat) (proto ports pktlim : String) :
    (nfqRule env strategy uid proto ports pktlim).toScript =
      WebZapret.nfqRule env strategy uid proto ports pktlim := by
  unfold nfqRule WebZapret.nfqRule
  split <;> rfl

@[simp] theorem toScript_fwApplyUdp :
    (fwApplyUdp k env strategy).toScript = WebZapret.fwApplyUdp k env strategy := by
  unfold fwApplyUdp WebZapret.fwApplyUdp
  split
  · rfl
  · exact toScript_nfqRule ..

@[simp] theorem toScript_fwApplyExitFlows :
    (fwApplyExitFlows env mode strategy).toScript =
      WebZapret.fwApplyExitFlows env mode strategy := by
  unfold fwApplyExitFlows WebZapret.fwApplyExitFlows
  split
  · simp only [toScript_bind, toScript_nfqRule]
  · rfl

@[simp] theorem toScript_fwApplyWzfw : (fwApplyWzfw env).toScript = WebZapret.fwApplyWzfw env := by
  simp only [fwApplyWzfw, toScript_bind, toScript_discard, toScript_ipt, toScript_makeChain,
    toScript_hookOutput]
  rfl

@[simp] theorem toScript_fwApplyRedirect :
    (fwApplyRedirect env).toScript = WebZapret.fwApplyRedirect env := by
  simp only [fwApplyRedirect, toScript_bind, toScript_discard, toScript_ipt, toScript_makeChain,
    toScript_hookOutput]
  rfl

@[simp] theorem toScript_fwApplyNfqin : fwApplyNfqin.toScript = WebZapret.fwApplyNfqin := by
  simp only [fwApplyNfqin, toScript_bind, toScript_discard, toScript_ipt, toScript_makeChain]
  rfl

@[simp] theorem toScript_fwApplyMode :
    (fwApplyMode k env mode strategy).toScript = WebZapret.fwApplyMode k env mode strategy := by
  have hupstream : Commands.toScript (do
        fwApplyRedirect env
        fwApplyUdp k env strategy
        fwApplyExitFlows env mode strategy) = (do
        WebZapret.fwApplyRedirect env
        WebZapret.fwApplyUdp k env strategy
        WebZapret.fwApplyExitFlows env mode strategy) := by
    simp only [toScript_bind, toScript_fwApplyRedirect, toScript_fwApplyUdp,
      toScript_fwApplyExitFlows]
  cases mode with
  | direct =>
    simp only [fwApplyMode, toScript_bind, toScript_nfqRule]
    rfl
  | socks5 => exact hupstream
  | ss => exact hupstream

/-- It is the same script. -/
theorem toScript_fwApply :
    (fwApply k env mode strategy).toScript = WebZapret.fwApply k env mode strategy := by
  simp only [fwApply, toScript_bind, toScript_fwApplyWzfw, toScript_fwApplyMode,
    toScript_fwApplyNfqin]
  rfl

end Start

/-! ## Removing everything -/

def wztestJump : FwRule := ⟨[], .jump .wztest⟩

/-- `-F c; -X c` -/
def removeChain (T : TableName) (c : Chain) : Commands Host Unit := do
  discard (ipt T (Table.flush c))
  discard (ipt T (Table.deleteChain c))

/-- What `wz-fw.sh stop` and `wz-test.sh` do to the test chain. -/
def removeTest : Commands Host Unit := do
  discard (ipt .mangle (Table.delete .output wztestJump))
  removeChain .mangle .wztest

/-- The chains of the live firewall and their hooks. -/
def removeLive : Commands Host Unit := do
  discard (ipt .mangle (Table.delete .output wzfwJump))
  discard (ipt .mangle (Table.delete .prerouting nfqinJump))
  discard (ipt .nat (Table.delete .output wzredirJump))
  removeChain .mangle .wzfw
  removeChain .mangle .nfqin
  removeChain .nat .wzredir

def removeRouting (env : Env) : Commands Host Unit := do
  discard (invoke (ruleDel env.uidProxy (some "udp") env.rtTableUdp))
  discard (invoke (ruleDel env.uidProxy none env.rtTableUdp))
  discard (invoke (routeDel (udpRoute env)))
  discard (invoke (some : Host → Option Host))

/-- `fw_flush` -/
def fwFlush (env : Env) : Commands Host Unit := do
  removeLive
  removeTest
  removeRouting env

/-- One run of `wz-fw.sh`. -/
inductive FwRun
  | start (r : Start)
  | stop
  deriving DecidableEq

def FwRun.program (k : Kernel) (env : Env) : FwRun → Commands Host Unit
  | .start r => fwApply k env r.mode r.strategy
  | .stop => fwFlush env

/-- Runs of `wz-fw.sh`, one after another. -/
def gateway (k : Kernel) (env : Env) (runs : List FwRun) : Commands Host Unit :=
  Commands.all (runs.map (FwRun.program k env))

/-! ## `wz-test.sh` on the host -/

/-- `TEST_UID` and `QNUM_TEST` -/
structure TestEnv where
  uid : Nat
  qnum : String

/-- The rule of `install_rules` for a protocol. -/
def testRule (te : TestEnv) (proto ports : String) : FwRule :=
  ⟨[.proto proto, .uidOwner te.uid, .dports ports], .verdict (.nfqueueBypass te.qnum)⟩

/-- `install_rules` -/
def installRules (env : Env) (te : TestEnv) (sid : String) : Commands Host Unit := do
  makeChain .mangle .wztest
  discard (ipt .mangle (Table.append .wztest (markGuard env)))
  discard (ipt .mangle (Table.append .wztest loopbackGuard))
  if sid ≠ "none" then
    discard (ipt .mangle (Table.append .wztest (testRule te "tcp" env.nfqTcpPorts)))
    discard (ipt .mangle (Table.append .wztest (testRule te "udp" env.nfqUdpPorts)))
  discard (ipt .mangle (Table.insert .output 1 wztestJump))

/-- A run of `wz-test.sh` that takes the lock: its strategy, and whether its nfqws starts. -/
structure TestRun where
  sid : String
  started : Bool

/-- The commands of a test run on the host: `cleanup_all` first and, on exit, last. -/
def TestRun.program (env : Env) (te : TestEnv) (r : TestRun) : Commands Host Unit := do
  removeTest
  if r.started then
    installRules env te r.sid
  removeTest

end Stepwise

end WebZapret
