import WebZapret.Apply.Transaction

/-!
# Byte counters

Every rule of a table has a byte counter. `wz-fw.sh start` empties the two chains whose rules are
counted and fills them again, so that they count from 0; `wz-apply.sh exit` first adds the counters to
two files, and `wz-apply.sh strategy` does not. The panel shows the counters, and the files only while
the counters are 0.

The scripts are the ones of `Apply`, with the firewall's commands one by one. Counters are natural
numbers: no gateway forwards 2^63 bytes.
-/

namespace WebZapret.Traffic

open Py Catalog Apply Proc

/-- The gateway with the byte counters of the rules of table mangle, in the order of the rules, and
the two counter files. A file that is empty or not there counts as 0. -/
structure Metered where
  gateway : Gateway
  bytes : Chain → List Nat
  /-- `$WZ_STATE/nfqws_bytes_in` -/
  fileIn : Nat
  /-- `$WZ_STATE/nfqws_bytes_out` -/
  fileOut : Nat

/-! ## Counters -/

def isNfqueue (r : FwRule) : Bool :=
  match r.target with
  | .verdict (.nfqueueBypass _) => true
  | _ => false

def isReturn (r : FwRule) : Bool := r.target = .verdict .ret

/-- The bytes that the rules of one kind have counted. -/
def tally (p : FwRule → Bool) (rules : List FwRule) (bytes : List Nat) : Nat :=
  ((rules.zip bytes).map fun rn => if p rn.1 then rn.2 else 0).sum

/-- Egress: the NFQUEUE rules of WZFW. -/
def Metered.egress (s : Metered) : Nat :=
  tally isNfqueue (s.gateway.host.mangle.rules .wzfw) (s.bytes .wzfw)

/-- Ingress: the RETURN rule of NFQIN. -/
def Metered.ingress (s : Metered) : Nat :=
  tally isReturn (s.gateway.host.mangle.rules .nfqin) (s.bytes .nfqin)

/-- A packet of `n` bytes that matches rule `i` of the chain. -/
def packet (c : Chain) (i n : Nat) (s : Metered) : Metered :=
  { s with bytes := Function.update s.bytes c ((s.bytes c).modify i (· + n)) }

/-! ## Commands -/

/-- A process that touches no counter. -/
def onGateway {α : Type} (p : Proc Site Gateway α) : Proc Site Metered α :=
  p.within Metered.gateway fun g s => { s with gateway := g }

/-- A script on other tables than mangle, or on the routing. -/
def onHost (p : Script Host Unit) : Proc Site Metered Unit := do
  let _ ← .invoke .firewall <|
    (show Script Host Bool from do p; return true).within (fun s => s.gateway.host)
      fun h s => { s with gateway := s.gateway.withHost h }
  return ()

/-- `$IPT -t mangle ...`: what the command does to the table, and to the counters of a chain. -/
def mangle (c : Chain) (f : FwTable → Option FwTable) (meter : List FwRule → List Nat → List Nat) :
    Proc Site Metered Bool :=
  .invoke .firewall <| Script.cmd fun s => (f s.gateway.host.mangle).map fun t =>
    { s with
      gateway := s.gateway.withHost { s.gateway.host with mangle := t }
      bytes := Function.update s.bytes c (meter (s.gateway.host.mangle.rules c) (s.bytes c)) }

/-- `-N c` -/
def newChain (c : Chain) : Proc Site Metered Bool := mangle c (Table.newChain c) fun _ _ => []

/-- `-F c` -/
def flush (c : Chain) : Proc Site Metered Bool := mangle c (Table.flush c) fun _ _ => []

/-- `-C c r` -/
def check (c : Chain) (r : FwRule) : Proc Site Metered Bool :=
  mangle c (Table.check c r) fun _ bytes => bytes

/-- `-I c n r` -/
def insert (c : Chain) (n : Nat) (r : FwRule) : Proc Site Metered Bool :=
  mangle c (Table.insert c n r) fun _ bytes => bytes.take (n - 1) ++ 0 :: bytes.drop (n - 1)

/-- `-A c r` -/
def append (c : Chain) (r : FwRule) : Proc Site Metered Bool :=
  mangle c (Table.append c r) fun _ bytes => bytes ++ [0]

/-- `-D c r` -/
def delete (c : Chain) (r : FwRule) : Proc Site Metered Bool :=
  mangle c (Table.delete c r) fun rules bytes => bytes.eraseIdx (rules.idxOf r)

/-- `-Z c` -/
def zero (c : Chain) : Proc Site Metered Bool :=
  mangle c (fun t => (t c).map fun _ => t) fun _ bytes => bytes.map fun _ => 0

/-! ## `wz-fw.sh start` -/

variable (cfg : Setup)

/-- `-N c || -F c` -/
def makeChain (c : Chain) : Proc Site Metered Unit := do
  unless ← newChain c do
    discard (flush c)

/-- `nfq_rule`, which reads the state file each time. -/
def nfqRule (uid : Nat) (proto ports pktlim : String) : Proc Site Metered Unit := do
  let strategy ← .ask fun s => activeStrategy cfg s.gateway
  if strategy = lit "none" then
    return
  discard (append .wzfw (nfqRuleSpec cfg.env uid proto ports pktlim))

/-- mangle/WZFW: the chain, its hook and its guards. -/
def fwApplyWzfw : Proc Site Metered Unit := do
  makeChain .wzfw
  unless ← check .output wzfwJump do
    discard (insert .output 1 wzfwJump)
  discard (insert .wzfw 1 (markGuard cfg.env))
  discard (insert .wzfw 2 loopbackGuard)

/-- Desync of the exit flows to the upstream endpoint. -/
def fwApplyExitFlows (mode : ExitMode) : Proc Site Metered Unit := do
  if cfg.env.upPort mode ≠ "" then
    nfqRule cfg cfg.env.uidExit "tcp" (cfg.env.upPort mode) cfg.env.nfqwsTcpPktOut
  if cfg.env.upPort mode ≠ "" then
    nfqRule cfg cfg.env.uidExit "udp" (cfg.env.upPort mode) cfg.env.nfqwsUdpPktOut

/-- UDP of the access layer into the tunnel, or desynced directly. -/
def fwApplyUdp : Proc Site Metered Unit := do
  if cfg.env.udpProxy = "relay" then
    onHost (WebZapret.fwApplyUdp cfg.kernel cfg.env "none")
  else
    nfqRule cfg cfg.env.uidProxy "udp" cfg.env.nfqUdpPorts cfg.env.nfqwsUdpPktOut

/-- `case "$MODE"` -/
def fwApplyCase : Option ExitMode → Proc Site Metered Unit
  | none => return ()
  | some .direct => do
    nfqRule cfg cfg.env.uidProxy "tcp" cfg.env.nfqTcpPorts cfg.env.nfqwsTcpPktOut
    nfqRule cfg cfg.env.uidProxy "udp" cfg.env.nfqUdpPorts cfg.env.nfqwsUdpPktOut
  | some mode => do
    onHost (fwApplyRedirect cfg.env)
    fwApplyUdp cfg
    fwApplyExitFlows cfg mode

/-- The ingress counting chain. -/
def fwApplyNfqin : Proc Site Metered Unit := do
  makeChain .nfqin
  discard (delete .prerouting nfqinJump)
  discard (insert .prerouting 1 nfqinJump)
  discard (append .nfqin nfqinReturn)

/-- `wz-fw.sh start` -/
def fwStart : Proc Site Metered Bool := do
  let mode ← .ask fun s => exitMode? (activeExitMode cfg s.gateway)
  fwApplyWzfw cfg
  fwApplyCase cfg mode
  fwApplyNfqin
  return true

/-! ## `wz-apply.sh` -/

/-- `printf ... > nfqws_bytes_in`: the file is empty before it is written. -/
def writeFileIn (n : Nat) : Proc Site Metered Unit := do
  .change fun s => { s with fileIn := 0 }
  .change fun s => { s with fileIn := n }

/-- `printf ... > nfqws_bytes_out` -/
def writeFileOut (n : Nat) : Proc Site Metered Unit := do
  .change fun s => { s with fileOut := 0 }
  .change fun s => { s with fileOut := n }

/-- `accumulate_traffic_counters`, when `iptables` can list the chains -/
def accumulateTrafficCounters : Proc Site Metered Unit := do
  let bytesOut ← .ask Metered.egress
  let bytesIn ← .ask Metered.ingress
  discard (zero .wzfw)
  discard (zero .nfqin)
  let cumIn ← .ask Metered.fileIn
  let cumOut ← .ask Metered.fileOut
  writeFileIn (cumIn + bytesIn)
  writeFileOut (cumOut + bytesOut)

/-- `do_strategy` -/
def doStrategy (id : Str) : Proc Site Metered Nat := do
  let known ← .ask fun s => validStrategyId s.gateway.catalog id
  if known then
    let new ← .ask fun s => output (s.gateway.strategy.getD [])
    if new = id then
      return 0
    onGateway (writeStrategy id)
    let restarted ← onGateway (restartNfqws cfg false)
    if restarted then
      let applied ← fwStart cfg
      return if applied then 0 else 3
    onGateway (writeStrategy new)
    let _ ← onGateway (restartNfqws cfg true)
    return 3
  else return 2

/-- `do_exit` -/
def doExit (mode : Str) : Proc Site Metered Nat := do
  if validExitMode mode then
    let active ← .ask fun s => activeExitMode cfg s.gateway
    if active = mode then
      return 0
    onGateway (writeExitMode mode)
    onGateway (exitLayer .render)
    onGateway (exitLayer .redsocks)
    onGateway (exitLayer .ssLocal)
    onGateway (exitLayer .udprelay)
    accumulateTrafficCounters
    let applied ← fwStart cfg
    if applied then
      let _ ← onGateway (restartNfqws cfg false)
      return 0
    return 3
  else return 2

/-- `with_lock` -/
def apply (request : Request) : Proc Site Metered Nat := do
  let locked ← .invoke .flock (Script.cmd some)
  if locked then
    match request with
    | .strategy id => doStrategy cfg id
    | .exit mode => doExit cfg mode
  else return 1

/-! ## The panel -/

/-- `get_traffic_stats`, when `iptables` is available: `bytes_in` and `bytes_out` -/
def getTrafficStats : Proc Site Metered (Nat × Nat) := do
  let bytesOut ← .ask Metered.egress
  let bytesIn ← .ask Metered.ingress
  if bytesIn = 0 ∧ bytesOut = 0 then
    let bytesIn ← .ask Metered.fileIn
    let bytesOut ← .ask Metered.fileOut
    return (bytesIn, bytesOut)
  return (bytesIn, bytesOut)

end WebZapret.Traffic
