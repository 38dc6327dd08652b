import WebZapret.Apply.Gateway

/-!
# The service supervisor

`wz-svc.sh` starts and stops the six services by pidfiles. What the commands do that it runs, and
whether they succeed, is an input (`Outcomes`): each call of `start_one` or `stop_svc` has its own.

The state has a journal of what is done to services, so that what was started and died again is seen
too.
-/

namespace WebZapret.Services

open Py Apply

/-- `SERVICES` -/
inductive Service
  | ssServer | sockd | nfqws | redsocks | ssLocal | udprelay
  deriving DecidableEq

/-- What is done to a service. -/
inductive Event
  | started (u : Service)
  | stopped (u : Service)
  /-- its pidfile is written or removed -/
  | pidfile (u : Service)
  deriving DecidableEq

def Event.service : Event → Service
  | .started u | .stopped u | .pidfile u => u

/-- The processes are those that live, each with the service it is of, if any. A pidfile may hold no
pid, when `echo` could not write it. -/
structure Box where
  gateway : Gateway
  processes : List (Nat × Option Service)
  pidfile : Service → Option (Option Nat)
  journal : List Event

/-- The kernel's choice of a pid: one that is not in use. -/
structure Fork where
  pid : List (Nat × Option Service) → Nat
  fresh : ∀ processes, ∀ q ∈ processes, q.1 ≠ pid processes

/-- What `echo "$p" > "$(pidfile "$name")"` leaves. -/
inductive Written
  | pid | nothing | unchanged

/-- What the commands do. -/
structure Outcomes where
  /-- the pidfile cannot be removed by `stop_svc` -/
  stuck : Bool
  fork : Fork
  written : Written
  /-- the new process is there after 0.3 s -/
  survives : Bool
  /-- the pidfile of one that is not cannot be removed -/
  left : Bool
  /-- the dante binary is found -/
  found : Bool
  /-- `mktemp` -/
  tempfile : Bool
  /-- `strategy.py` -/
  rendered : Bool

/-! ## Processes and pidfiles -/

/-- `pid_read` -/
def Box.pidRead (b : Box) (u : Service) : Option Nat := (b.pidfile u).join

/-- `kill -0 "$p"` -/
def Box.alive (b : Box) (p : Nat) : Bool := b.processes.any (·.1 = p)

/-- `kill "$p"`, and `kill -9 "$p"` if it is still there after a second. -/
def Box.kill (b : Box) (p : Nat) : Box :=
  { b with
    processes := b.processes.filter (·.1 ≠ p)
    journal := b.journal ++ (b.processes.filter (·.1 = p)).filterMap fun q => q.2.map .stopped }

/-- A change of a pidfile. -/
def Box.setPidfile (b : Box) (u : Service) (content : Option (Option Nat)) : Box :=
  { b with
    pidfile := Function.update b.pidfile u content
    journal := b.journal ++ [.pidfile u] }

/-- `rm -f` of a pidfile; it succeeds when there is none. -/
def Box.remove (b : Box) (stuck : Bool) (u : Service) : Bool × Box :=
  if b.pidfile u = none then (true, b)
  else if stuck then (false, b)
  else (true, b.setPidfile u none)

/-- `setsid ... &` -/
def Box.launch (b : Box) (u : Service) (p : Nat) : Box :=
  { b with
    processes := (p, some u) :: b.processes
    journal := b.journal ++ [.started u] }

/-- `echo "$p" > "$(pidfile "$name")"` -/
def Box.echo (b : Box) (written : Written) (u : Service) (p : Nat) : Box :=
  match written with
  | .pid => b.setPidfile u (some (some p))
  | .nothing => b.setPidfile u (some none)
  | .unchanged => b

/-- A process ends by itself. -/
def Box.exit (b : Box) (p : Nat) : Box := { b with processes := b.processes.filter (·.1 ≠ p) }

/-- The `if` of `stop_svc`. -/
def Box.halt (b : Box) (u : Service) : Box :=
  match b.pidRead u with
  | some p => if b.alive p then b.kill p else b
  | none => b

/-- `stop_svc` -/
def stopSvc (o : Outcomes) (u : Service) (b : Box) : Bool × Box := (b.halt u).remove o.stuck u

/-- `spawn_svc`, once the service has been stopped. -/
def launchSvc (o : Outcomes) (u : Service) (b : Box) : Bool × Box :=
  let p := o.fork.pid b.processes
  let b := (b.launch u p).echo o.written u p
  if o.survives then (true, b)
  else (false, ((b.exit p).remove o.left u).2)

/-- `spawn_svc` -/
def spawnSvc (o : Outcomes) (u : Service) (b : Box) : Bool × Box :=
  launchSvc o u (stopSvc o u b).2

/-! ## The commands -/

variable (cfg : Setup)

/-- `start_ss_server` -/
def startSsServer (o : Outcomes) (b : Box) : Bool × Box := spawnSvc o .ssServer b

/-- `start_sockd` -/
def startSockd (o : Outcomes) (b : Box) : Bool × Box :=
  if o.found then spawnSvc o .sockd b else (false, b)

/-- `start_redsocks` -/
def startRedsocks (o : Outcomes) (b : Box) : Bool × Box :=
  if activeExitMode cfg b.gateway = lit "direct" then (true, b) else spawnSvc o .redsocks b

/-- `start_ss_local` -/
def startSsLocal (o : Outcomes) (b : Box) : Bool × Box :=
  if activeExitMode cfg b.gateway = lit "ss" then spawnSvc o .ssLocal b else (true, b)

/-- `start_udprelay` -/
def startUdprelay (o : Outcomes) (b : Box) : Bool × Box :=
  if activeExitMode cfg b.gateway = lit "direct" then (true, b)
  else if cfg.env.udpProxy = "relay" then spawnSvc o .udprelay b
  else (true, b)

/-- `echo none > "$WZ_STATE/strategy"` -/
def Box.fallBack (b : Box) : Box :=
  { b with gateway := { b.gateway with strategy := some (line (lit "none")) } }

/-- `start_nfqws` -/
def startNfqws (o : Outcomes) (b : Box) : Bool × Box :=
  let sid := activeStrategy cfg b.gateway
  let known := validStrategyId b.gateway.catalog sid
  let b := if known then b else b.fallBack
  let sid := if known then sid else lit "none"
  if sid = lit "none" then (true, (stopSvc o .nfqws b).2)
  else if ¬o.tempfile then (false, b)
  else if ¬o.rendered then (false, b)
  else spawnSvc o .nfqws b

/-- `start_one` -/
def startOne (o : Outcomes) : Service → Box → Bool × Box
  | .ssServer => startSsServer o
  | .ssLocal => startSsLocal cfg o
  | .sockd => startSockd o
  | .nfqws => startNfqws cfg o
  | .redsocks => startRedsocks cfg o
  | .udprelay => startUdprelay cfg o

/-- The order of `cmd_start`. -/
def startOrder : List Service := [.ssServer, .sockd, .redsocks, .ssLocal, .udprelay, .nfqws]

/-- The order of `cmd_stop`. -/
def stopOrder : List Service := [.nfqws, .udprelay, .ssLocal, .redsocks, .sockd, .ssServer]

/-- `cmd_start` -/
def cmdStart (o : Service → Outcomes) (b : Box) : Box :=
  startOrder.foldl (fun b u => (startOne cfg (o u) u b).2) b

/-- `cmd_stop` -/
def cmdStop (o : Service → Outcomes) (b : Box) : Box :=
  stopOrder.foldl (fun b u => (stopSvc (o u) u b).2) b

inductive Verb
  | start | stop | restart

/-- `wz-svc.sh start|stop|restart <svc>`; `own` is what the command for the service meets, `again` what
the second one of a restart meets, and `all` what the commands for all services meet. -/
def dispatch (own again : Outcomes) (all : Service → Outcomes) (verb : Verb) (u : Service) (b : Box) :
    Box :=
  match verb with
  | .start => if (startOne cfg own u b).1 then (startOne cfg own u b).2
    else cmdStart cfg all (startOne cfg own u b).2
  | .stop => if (stopSvc own u b).1 then (stopSvc own u b).2 else cmdStop all (stopSvc own u b).2
  | .restart => (startOne cfg again u (stopSvc own u b).2).2

/-! ## What is done to others -/

/-- Nothing is done to other services. -/
structure Frame (u : Service) (b b' : Box) : Prop where
  journal : ∃ events, b'.journal = b.journal ++ events ∧ ∀ e ∈ events, e.service = u
  pidfiles : ∀ v ≠ u, b'.pidfile v = b.pidfile v
  processes : ∀ v ≠ u, ∀ p, (p, some v) ∈ b'.processes ↔ (p, some v) ∈ b.processes

/-- The journal goes on, and it has all that is done to services. -/
def Logged (b b' : Box) : Prop :=
  ∃ events, b'.journal = b.journal ++ events ∧
    ∀ u, (∀ e ∈ events, e.service = u) → (∀ v ≠ u, b'.pidfile v = b.pidfile v) ∧
      ∀ v ≠ u, ∀ p, (p, some v) ∈ b'.processes ↔ (p, some v) ∈ b.processes

variable {u v : Service} {b b₁ b₂ : Box} {o : Outcomes} {p : Nat}

theorem Frame.refl (u : Service) (b : Box) : Frame u b b :=
  ⟨⟨[], (List.append_nil _).symm, nofun⟩, fun _ _ => rfl, fun _ _ _ => .rfl⟩

theorem Frame.trans (h₁ : Frame u b b₁) (h₂ : Frame u b₁ b₂) : Frame u b b₂ := by
  obtain ⟨events₁, hjournal₁, hall₁⟩ := h₁.journal
  obtain ⟨events₂, hjournal₂, hall₂⟩ := h₂.journal
  refine ⟨⟨events₁ ++ events₂, ?_, List.forall_mem_append.mpr ⟨hall₁, hall₂⟩⟩, fun v hv => ?_,
    fun v hv p => ?_⟩
  · rw [hjournal₂, hjournal₁, List.append_assoc]
  · rw [h₂.pidfiles v hv, h₁.pidfiles v hv]
  · rw [h₂.processes v hv, h₁.processes v hv]

theorem Logged.refl (b : Box) : Logged b b :=
  ⟨[], (List.append_nil _).symm, fun _ _ => ⟨fun _ _ => rfl, fun _ _ _ => .rfl⟩⟩

theorem Logged.trans (h₁ : Logged b b₁) (h₂ : Logged b₁ b₂) : Logged b b₂ := by
  obtain ⟨events₁, hjournal₁, hquiet₁⟩ := h₁
  obtain ⟨events₂, hjournal₂, hquiet₂⟩ := h₂
  refine ⟨events₁ ++ events₂, ?_, fun u hall => ?_⟩
  · rw [hjournal₂, hjournal₁, List.append_assoc]
  · obtain ⟨hall₁, hall₂⟩ := List.forall_mem_append.mp hall
    obtain ⟨hpidfiles₁, hprocesses₁⟩ := hquiet₁ u hall₁
    obtain ⟨hpidfiles₂, hprocesses₂⟩ := hquiet₂ u hall₂
    refine ⟨fun v hv => ?_, fun v hv p => ?_⟩
    · rw [hpidfiles₂ v hv, hpidfiles₁ v hv]
    · rw [hprocesses₂ v hv, hprocesses₁ v hv]

/-- Where the journal is kept, it tells whether others were left alone. -/
theorem Logged.frame_iff (h : Logged b b₁) :
    Frame u b b₁ ↔ ∀ events, b₁.journal = b.journal ++ events → ∀ e ∈ events, e.service = u := by
  obtain ⟨events, hjournal, hquiet⟩ := h
  constructor
  · rintro ⟨⟨events', hjournal', hall⟩, _⟩ events'' hjournal''
    rw [hjournal', List.append_cancel_left_eq] at hjournal''
    exact hjournal'' ▸ hall
  · intro hall
    have hall := hall events hjournal
    obtain ⟨hpidfiles, hprocesses⟩ := hquiet u hall
    exact ⟨⟨events, hjournal, hall⟩, hpidfiles, hprocesses⟩

/-- **What is done to another service is not undone.** -/
theorem frame_trans_iff (h₁ : Logged b b₁) (h₂ : Logged b₁ b₂) :
    Frame u b b₂ ↔ Frame u b b₁ ∧ Frame u b₁ b₂ := by
  refine ⟨fun h => ?_, fun ⟨h, h'⟩ => h.trans h'⟩
  rw [(h₁.trans h₂).frame_iff] at h
  obtain ⟨events₁, hjournal₁, _⟩ := id h₁
  obtain ⟨events₂, hjournal₂, _⟩ := id h₂
  have hall := h (events₁ ++ events₂) (by rw [hjournal₂, hjournal₁, List.append_assoc])
  obtain ⟨hall₁, hall₂⟩ := List.forall_mem_append.mp hall
  rw [h₁.frame_iff, h₂.frame_iff]
  constructor
  · intro events hjournal
    rw [hjournal₁, List.append_cancel_left_eq] at hjournal
    exact hjournal ▸ hall₁
  · intro events hjournal
    rw [hjournal₂, List.append_cancel_left_eq] at hjournal
    exact hjournal ▸ hall₂

end WebZapret.Services
