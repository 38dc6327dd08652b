import WebZapret.Catalog.Stored
import WebZapret.Firewall.Faults
import WebZapret.Lib.Proc
import Mathlib.Data.List.DropRight

/-!
# Applying a strategy or an exit mode

`wz-apply.sh` writes the state files, restarts services with `wz-svc.sh` and renders the firewall
with `wz-fw.sh`. The three scripts share the gateway's state: the catalog, the state files and the
network state. A file that is not there is `none`.
-/

namespace WebZapret.Apply

open Py Catalog

/-- What the scripts read and write. -/
structure Gateway where
  catalog : Stored
  /-- `$WZ_STATE/strategy` -/
  strategy : Option Str
  /-- `$WZ_STATE/exit_mode` -/
  exitMode : Option Str
  host : Host

/-- The container's environment. -/
structure Setup where
  kernel : Kernel
  env : Env
  /-- `$STRATEGY` -/
  strategy : Str
  /-- `$EXIT_MODE` -/
  exitMode : Str

/-- The calls of `wz-apply.sh` that may fail; a rollback restarts nfqws again. -/
inductive Site
  | flock | render | redsocks | ssLocal | udprelay | firewall
  | restart (again : Bool)
  | nfqws (again : Bool)
  deriving DecidableEq

/-! ## State files -/

/-- `$(...)`: the output without its trailing newlines. -/
def output (s : Str) : Str := s.rdropWhile (· = 10)

/-- `printf '%s\n' "$2"` -/
def line (s : Str) : Str := s ++ [10]

@[simp] theorem output_line (s : Str) : output (line s) = output s :=
  List.rdropWhile_concat_pos _ _ _ (by decide)

@[simp] theorem output_output (s : Str) : output (output s) = output s :=
  List.rdropWhile_idempotent _ _

/-- The texts that the state files hold. -/
def Gateway.persisted (g : Gateway) : Option Str × Option Str :=
  (g.strategy.map output, g.exitMode.map output)

variable (cfg : Setup)

/-- `active_strategy` -/
def activeStrategy (g : Gateway) : Str := output (g.strategy.getD cfg.strategy)

/-- `active_exit_mode` -/
def activeExitMode (g : Gateway) : Str := output (g.exitMode.getD cfg.exitMode)

/-- `state_write strategy` -/
def writeStrategy (id : Str) : Proc Site Gateway Unit :=
  .change fun g => { g with strategy := some (line id) }

/-- `state_write exit_mode` -/
def writeExitMode (mode : Str) : Proc Site Gateway Unit :=
  .change fun g => { g with exitMode := some (line mode) }

/-- The exit mode that a text names. -/
def exitMode? (mode : Str) : Option ExitMode :=
  if mode = lit "direct" then some .direct
  else if mode = lit "socks5" then some .socks5
  else if mode = lit "ss" then some .ss
  else none

/-- `valid_exit_mode` -/
def validExitMode (mode : Str) : Bool := (exitMode? mode).isSome

/-- `s["id"]`, which has to be hashable. -/
def entryId : Json → Option Json
  | .obj s =>
    match s.lookup (lit "id") with
    | some (.arr _) | some (.obj _) => none
    | id => id
  | _ => none

/-- `{s["id"] for s in data["strategies"]}`, when nothing raises -/
def catalogIds : Stored → Option (List Json)
  | some (.obj data) =>
    match data.lookup (lit "strategies") with
    | some (.arr items) => items.mapM entryId
    | _ => none
  | _ => none

/-- `valid_strategy_id` -/
def validStrategyId (stored : Stored) (sid : Str) : Bool :=
  sid ≠ [] && (catalogIds stored).any fun ids => HasId ids sid

/-! ## `wz-svc.sh restart nfqws` -/

/-- `mktemp`, `strategy.py` and the start of nfqws2: the first that fails ends `start_nfqws`. -/
def nfqwsStart : Script Gateway Bool := do
  unless ← Script.cmd some do
    return false
  unless ← Script.cmd some do
    return false
  Script.cmd some

/-- `start_nfqws`; a strategy that is not in the catalog is replaced by `none`. -/
def startNfqws (again : Bool) : Proc Site Gateway Bool := do
  let sid ← .ask (activeStrategy cfg)
  let known ← .ask fun g => validStrategyId g.catalog sid
  if known then
    if sid = lit "none" then
      return true
    .invoke (.nfqws again) nfqwsStart
  else
    writeStrategy (lit "none")
    return true

/-- `wz-svc.sh restart nfqws`, when the script can be run at all -/
def restartNfqws (again : Bool) : Proc Site Gateway Bool := do
  let launched ← .invoke (.restart again) (Script.cmd some)
  if launched then startNfqws cfg again else return false

/-! ## `wz-fw.sh start` -/

/-- A strategy's text. -/
def asText (s : Str) : String := String.ofList (s.map Char.ofNat)

/-- `wz-fw.sh start`: its last command is `exit 0`. -/
def fwStart : Script Gateway Bool := fun s =>
  let mode := exitMode? (activeExitMode cfg s.state)
  let strategy := asText (activeStrategy cfg s.state)
  let r := fwApplyAny cfg.kernel cfg.env mode strategy ⟨s.state.host, s.faults⟩
  (true, ⟨{ s.state with host := r.2.state }, r.2.faults⟩)

/-! ## `wz-apply.sh` -/

/-- The end of `do_strategy`, once the state file has the new strategy; `new` is what it had. -/
def activate (new : Str) : Proc Site Gateway Nat := do
  let restarted ← restartNfqws cfg false
  if restarted then
    let applied ← .invoke .firewall (fwStart cfg)
    return if applied then 0 else 3
  else
    writeStrategy new
    let _ ← restartNfqws cfg true
    return 3

/-- `do_strategy` -/
def doStrategy (id : Str) : Proc Site Gateway Nat := do
  let known ← .ask fun g => validStrategyId g.catalog id
  if known then
    let new ← .ask fun g => output (g.strategy.getD [])
    if new = id then
      return 0
    writeStrategy id
    activate cfg new
  else return 2

/-- A call of `wz-svc.sh` for the exit layer, which touches nothing that is modelled; its exit status
is ignored. -/
def exitLayer (site : Site) : Proc Site Gateway Unit := do
  let _ ← .invoke site (Script.cmd some)

/-- The end of `do_exit`, once the state file has the new mode. -/
def changeExit : Proc Site Gateway Nat := do
  exitLayer .render
  exitLayer .redsocks
  exitLayer .ssLocal
  exitLayer .udprelay
  let applied ← .invoke .firewall (fwStart cfg)
  if applied then
    let _ ← restartNfqws cfg false
    return 0
  else return 3

/-- `do_exit`; the traffic counters that it saves are not part of this state. -/
def doExit (mode : Str) : Proc Site Gateway Nat := do
  if validExitMode mode then
    let active ← .ask (activeExitMode cfg)
    if active = mode then
      return 0
    writeExitMode mode
    changeExit cfg
  else return 2

/-- `wz-apply.sh strategy <id>` or `wz-apply.sh exit <mode>` -/
inductive Request
  | strategy (id : Str)
  | exit (mode : Str)

def Request.run : Request → Proc Site Gateway Nat
  | .strategy id => doStrategy cfg id
  | .exit mode => doExit cfg mode

/-- `with_lock` -/
def apply (request : Request) : Proc Site Gateway Nat := do
  let locked ← .invoke .flock (Script.cmd some)
  if locked then request.run cfg else return 1

end WebZapret.Apply
