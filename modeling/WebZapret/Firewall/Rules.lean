import WebZapret.Lib.Netfilter
import WebZapret.Lib.Script

/-!
# The firewall that `wz-fw.sh start` renders

`fw_apply` runs `iptables` and `ip` commands on the container's network state, which is the pair
of tables it touches, the policy rules and the routes. `MODE` and the active strategy come from
the state files; everything else (`Env`) comes from the container's environment.
-/

namespace WebZapret

inductive Chain
  | output | prerouting | wzfw | nfqin | wzredir | wztest
  deriving DecidableEq

instance : Fintype Chain where
  elems := {.output, .prerouting, .wzfw, .nfqin, .wzredir, .wztest}
  complete := by intro c; cases c <;> decide

/-- The match conditions that the scripts write. -/
inductive Cond
  | proto (p : String)
  | uidOwner (uid : Nat)
  | dports (ports : String)
  | mark (valueMask : String)
  | notMark (valueMask : String)
  | connbytesOriginalPackets (range : String)
  | outInterface (name : String)
  deriving DecidableEq

inductive Verdict
  | ret
  | nfqueueBypass (num : String)
  | redirect (toPorts : String)
  deriving DecidableEq

abbrev FwRule := Rule Chain Cond Verdict
abbrev FwTable := Table Chain Cond Verdict

/-- `from all uidrange U-U ipproto P lookup T` -/
structure PolicyRule where
  uid : Nat
  ipproto : String
  lookup : String
  deriving DecidableEq

structure Route where
  dest : String
  dev : String
  table : String
  deriving DecidableEq

structure Host where
  mangle : FwTable
  nat : FwTable
  policy : List PolicyRule
  routes : List Route
  deriving DecidableEq

inductive TableName
  | mangle | nat
  deriving DecidableEq

def Host.table (h : Host) : TableName → FwTable
  | .mangle => h.mangle
  | .nat => h.nat

def Host.withTable (h : Host) (T : TableName) (t : FwTable) : Host :=
  match T with
  | .mangle => { h with mangle := t }
  | .nat => { h with nat := t }

@[simp] theorem Host.table_withTable (h : Host) (T : TableName) (t : FwTable) :
    (h.withTable T t).table T = t := by
  cases T <;> rfl

/-- The built-in chains, with no rule in them. -/
def FwTable.empty : FwTable
  | .output | .prerouting => some []
  | _ => none

def Host.empty : Host := ⟨FwTable.empty, FwTable.empty, [], []⟩

/-- `ip rule add` without a preference. Kernels differ on whether they refuse a rule that is
already there (`EEXIST`) or install it a second time under the next preference. -/
structure Kernel where
  refusesDuplicateRule : Bool

def ruleAdd (k : Kernel) (r : PolicyRule) (h : Host) : Option Host :=
  if k.refusesDuplicateRule && r ∈ h.policy then none
  else some { h with policy := r :: h.policy }

/-- `ip route add` refuses a second route to the same destination in a table. -/
def routeAdd (r : Route) (h : Host) : Option Host :=
  if h.routes.any fun o => o.dest = r.dest ∧ o.table = r.table then none
  else some { h with routes := h.routes ++ [r] }

/-! ## The environment -/

inductive ExitMode
  | direct | socks5 | ss
  deriving DecidableEq

def ExitMode.upstream : ExitMode → Bool
  | .direct => false
  | .socks5 | .ss => true

structure Env where
  uidProxy : Nat
  uidExit : Nat
  desyncMark : String
  qnumTcp : String
  qnumUdp : String
  nfqTcpPorts : String
  nfqUdpPorts : String
  nfqwsTcpPktOut : String
  nfqwsUdpPktOut : String
  redsocksPort : String
  udpProxy : String
  utun : String
  rtTableUdp : String
  upstreamSocks5Port : String
  upstreamSsPort : String

/-- `compute_upstream`: the port that `UP_TCP_PORT` and `UP_UDP_PORT` are both set to. -/
def Env.upPort (env : Env) : ExitMode → String
  | .direct => ""
  | .socks5 => env.upstreamSocks5Port
  | .ss => env.upstreamSsPort

def isBlank (c : Char) : Bool := c == ' ' || c == '\t' || c == '\n'

/-- The decimal digits of an operand of `[ -gt ]`. -/
def digitsValue (ds : List Char) : Option Nat :=
  if ds ≠ [] ∧ ds.all Char.isDigit then
    some (ds.foldl (fun n c => 10 * n + (c.toNat - '0'.toNat)) 0)
  else none

/-- The integer that `[` reads from an operand: blanks around an optional sign and digits, in
the range of `intmax_t`. -/
def testInteger (s : String) : Option Int :=
  let cs := ((s.toList.dropWhile isBlank).reverse.dropWhile isBlank).reverse
  let value : Option Int := match cs with
    | '-' :: ds => (digitsValue ds).map fun n => -(n : Int)
    | '+' :: ds => (digitsValue ds).map fun n => (n : Int)
    | ds => (digitsValue ds).map fun n => (n : Int)
  value.filter fun n => -2 ^ 63 ≤ n ∧ n < 2 ^ 63

/-- `[ -n "$pktlim" ] && [ "$pktlim" -gt 0 ] 2>/dev/null` -/
def limitGiven (pktlim : String) : Bool :=
  pktlim ≠ "" ∧ (testInteger pktlim).any fun n => 0 < n

/-! ## `fw_apply` -/

section Apply

variable (k : Kernel) (env : Env) (mode : ExitMode) (strategy : String)

/-- `$IPT -t T ...` -/
def ipt (T : TableName) (f : FwTable → Option FwTable) : Script Host Bool :=
  Script.cmd fun h => (f (h.table T)).map (h.withTable T)

/-- The rule of `nfq_rule`. Its queue is always `QNUM_TCP`: the function overwrites the queue
number it was given. -/
def nfqRuleSpec (uid : Nat) (proto ports pktlim : String) : FwRule :=
  let owner := [Cond.proto proto, .uidOwner uid, .dports ports,
    .notMark (env.desyncMark ++ "/" ++ env.desyncMark)]
  ⟨if limitGiven pktlim then owner ++ [.connbytesOriginalPackets ("1:" ++ pktlim)] else owner,
    .verdict (.nfqueueBypass env.qnumTcp)⟩

/-- `nfq_rule` -/
def nfqRule (uid : Nat) (proto ports pktlim : String) : Script Host Unit := do
  if strategy = "none" then
    return
  discard (ipt .mangle (Table.append .wzfw (nfqRuleSpec env uid proto ports pktlim)))

def wzfwJump : FwRule := ⟨[], .jump .wzfw⟩
def wzredirJump : FwRule := ⟨[], .jump .wzredir⟩
def nfqinJump : FwRule := ⟨[], .jump .nfqin⟩

def markGuard : FwRule :=
  ⟨[.mark (env.desyncMark ++ "/" ++ env.desyncMark)], .verdict .ret⟩

def loopbackGuard : FwRule := ⟨[.outInterface "lo"], .verdict .ret⟩

def redirectRule : FwRule :=
  ⟨[.proto "tcp", .uidOwner env.uidProxy], .verdict (.redirect env.redsocksPort)⟩

def nfqinReturn : FwRule := ⟨[], .verdict .ret⟩

def udpPolicy : PolicyRule := ⟨env.uidProxy, "udp", env.rtTableUdp⟩
def udpRoute : Route := ⟨"default", env.utun, env.rtTableUdp⟩

/-- `-N c || -F c`, the way each of the chains is made. -/
def makeChain (T : TableName) (c : Chain) : Script Host Unit := do
  unless ← ipt T (Table.newChain c) do
    discard (ipt T (Table.flush c))

/-- `if ! -C OUTPUT r; then -I OUTPUT r; fi` -/
def hookOutput (T : TableName) (r : FwRule) : Script Host Unit := do
  unless ← ipt T (Table.check .output r) do
    discard (ipt T (Table.insert .output 1 r))

/-- mangle/WZFW: the chain, its hook and its guards. -/
def fwApplyWzfw : Script Host Unit := do
  makeChain .mangle .wzfw
  hookOutput .mangle wzfwJump
  discard (ipt .mangle (Table.insert .wzfw 1 (markGuard env)))
  discard (ipt .mangle (Table.insert .wzfw 2 loopbackGuard))

/-- TCP of the access layer into redsocks. -/
def fwApplyRedirect : Script Host Unit := do
  makeChain .nat .wzredir
  hookOutput .nat wzredirJump
  discard (ipt .nat (Table.append .wzredir (redirectRule env)))

/-- UDP of the access layer into the tunnel, or desynced directly. -/
def fwApplyUdp : Script Host Unit := do
  if env.udpProxy = "relay" then
    discard (Script.cmd (ruleAdd k (udpPolicy env)))
    discard (Script.cmd (routeAdd (udpRoute env)))
    -- `ip link set up` and `ip route flush cache` change nothing that is modelled
    discard (Script.cmd (some : Host → Option Host))
    discard (Script.cmd (some : Host → Option Host))
  else
    nfqRule env strategy env.uidProxy "udp" env.nfqUdpPorts env.nfqwsUdpPktOut

/-- Desync of the exit flows to the upstream endpoint. -/
def fwApplyExitFlows : Script Host Unit := do
  if env.upPort mode ≠ "" then
    nfqRule env strategy env.uidExit "tcp" (env.upPort mode) env.nfqwsTcpPktOut
  if env.upPort mode ≠ "" then
    nfqRule env strategy env.uidExit "udp" (env.upPort mode) env.nfqwsUdpPktOut

/-- `case "$MODE"` -/
def fwApplyMode : Script Host Unit :=
  match mode with
  | .direct => do
    nfqRule env strategy env.uidProxy "tcp" env.nfqTcpPorts env.nfqwsTcpPktOut
    nfqRule env strategy env.uidProxy "udp" env.nfqUdpPorts env.nfqwsUdpPktOut
  | .socks5 | .ss => do
    fwApplyRedirect env
    fwApplyUdp k env strategy
    fwApplyExitFlows env mode strategy

/-- The ingress counting chain. -/
def fwApplyNfqin : Script Host Unit := do
  makeChain .mangle .nfqin
  discard (ipt .mangle (Table.delete .prerouting nfqinJump))
  discard (ipt .mangle (Table.insert .prerouting 1 nfqinJump))
  discard (ipt .mangle (Table.append .nfqin nfqinReturn))

/-- `fw_apply` -/
def fwApply : Script Host Unit := do
  fwApplyWzfw env
  fwApplyMode k env mode strategy
  fwApplyNfqin

end Apply

end WebZapret
