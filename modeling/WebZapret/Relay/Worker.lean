import WebZapret.Lib.Machine
import WebZapret.Relay.Registry

/-!
# The session worker

`session_thread` drains the outbound queue, polls its UDP socket for 100 ms, and then receives
until `recv` fails. The socket is a blocking one, so on an empty socket `recv` does not fail but
waits: a payload that is queued meanwhile is not sent before the server sends something.

The reader's enqueueing, the network and the closing of the session are steps of their own; a
step of the worker is one of its system calls or tests, and is not enabled while `recv` waits.

Main result: `sends_promptly_iff`, the runs in which that never happens.
-/

namespace WebZapret.Relay

/-- Where `session_thread` is. -/
inductive Pc where
  /-- `while (!s->closed)` -/
  | outer
  /-- `while (!s->closed && session_dequeue(...))` -/
  | drain
  /-- `poll(&pfd, 1, 100)` -/
  | poll
  /-- `recv` in the inner loop -/
  | recv
  /-- `session_close_fds` and after -/
  | done
  deriving DecidableEq

/-- A session as its worker sees it: the queue, the datagrams that have arrived on the socket
and whether the socket has an error to report. -/
structure Worker where
  pc : Pc
  closed : Bool
  queue : List Bytes
  socket : List Bytes
  error : Bool
  deriving DecidableEq

namespace Worker

/-- `pthread_create` in `session_create` -/
def start : Worker := ⟨.outer, false, [], [], false⟩

inductive Label where
  /-- the reader calls `session_enqueue` -/
  | enqueue (payload : Bytes)
  /-- a datagram arrives on `udp_fd` -/
  | arrive (datagram : Bytes)
  /-- the socket gets an error to report -/
  | fail
  /-- another thread closes the session -/
  | close
  /-- the worker makes a step; `sent` is the outcome of `relay_send`, if it calls it -/
  | work (sent : Bool)

/-- A step of `session_thread`; `none` while `recv` waits, and after the end. -/
def work (s : Worker) (sent : Bool) : Option Worker :=
  match s.pc with
  | .outer => some { s with pc := if s.closed then .done else .drain }
  | .drain =>
    if s.closed then some { s with pc := .done }
    else
      match s.queue with
      | [] => some { s with pc := .poll }
      | _ :: queue =>
        if sent then some { s with queue := queue }
        else some { s with pc := .done, closed := true, queue := queue }
  | .poll =>
    if s.socket ≠ [] ∨ s.error then some { s with pc := .recv } else some { s with pc := .outer }
  | .recv =>
    if s.closed then some { s with pc := .outer }
    else if s.error then some { s with pc := .outer, error := false }
    else
      match s.socket with
      | [] => none
      | d :: socket => some { s with pc := if d.length = 0 then .outer else .recv, socket := socket }
  | .done => none

/-- The session's actors. -/
def machine : Machine Worker Label where
  step s
    | .enqueue payload => some { s with queue := Relay.enqueue s.queue payload }
    | .arrive d => some { s with socket := s.socket ++ [d] }
    | .fail => some { s with error := true }
    | .close => some { s with closed := true }
    | .work sent => s.work sent

/-- The session is open and its worker waits in `recv`. -/
def Waiting (s : Worker) : Prop :=
  s.closed = false ∧ s.pc = .recv ∧ s.socket = [] ∧ s.error = false

/-- The worker does not wait in `recv` while there is something to send. -/
def Prompt (s : Worker) : Prop := s.Waiting → s.queue = []

/-! ## Exact guards -/

/-- What keeps the worker prompt: nothing is queued while it waits, and while something is
queued it does not take the only datagram off an open socket (an empty datagram ends the receive
loop). -/
def Timely (s : Worker) : Label → Prop
  | .enqueue _ => ¬s.Waiting
  | .work _ => ∀ d, s.closed = false → s.pc = .recv → s.error = false → s.socket = [d] →
      s.queue = [] ∨ d.length = 0
  | _ => True

theorem enqueue_ne_nil (queue : List Bytes) (payload : Bytes) : Relay.enqueue queue payload ≠ [] := by
  simp [Relay.enqueue]

theorem prompt_of_pc {s : Worker} (h : s.pc ≠ .recv) : s.Prompt := fun hw => absurd hw.2.1 h

theorem timely_of_pc {s : Worker} {sent : Bool} (h : s.pc ≠ .recv) : s.Timely (.work sent) :=
  fun _ _ hpc => absurd hpc h

/-- Leaving the receive loop is prompt and timely. -/
theorem prompt_work_of_ne {s t : Worker} {sent : Bool} (hs : s.pc ≠ .recv) (ht : t.pc ≠ .recv) :
    t.Prompt ↔ s.Timely (.work sent) :=
  ⟨fun _ => timely_of_pc hs, fun _ => prompt_of_pc ht⟩

/-- Receiving a datagram is prompt unless it empties the socket while something is queued. -/
theorem prompt_recv {s : Worker} {sent : Bool} {d : Bytes} {socket : List Bytes}
    (hopen : s.closed = false) (herror : s.error = false) (hpc : s.pc = .recv)
    (hsocket : s.socket = d :: socket) :
    Prompt { s with pc := if d.length = 0 then .outer else .recv, socket := socket } ↔
      s.Timely (.work sent) := by
  constructor
  · intro hprompt d' _ _ _ hlast
    rw [hsocket] at hlast
    injection hlast with hd hrest
    by_cases hempty : d.length = 0
    · exact .inr (hd ▸ hempty)
    · exact .inl (hprompt ⟨hopen, by simp only [hempty, if_false], hrest, herror⟩)
  · intro htimely hw
    obtain ⟨-, hloop, hrest, -⟩ := hw
    have hrest' : socket = [] := hrest
    subst hrest'
    rcases htimely d hopen hpc herror hsocket with hqueue | hempty
    · exact hqueue
    · simp only [hempty, if_true] at hloop
      cases hloop

/-- A step of the worker keeps it prompt exactly when it is timely. -/
theorem prompt_work {s t : Worker} {sent : Bool} (h : s.work sent = some t) :
    t.Prompt ↔ s.Timely (.work sent) := by
  unfold work at h
  cases hpc : s.pc with
  | outer =>
    simp only [hpc] at h
    cases h
    refine prompt_work_of_ne (by simp [hpc]) ?_
    simp only
    split
    · decide
    · decide
  | drain =>
    simp only [hpc] at h
    refine prompt_work_of_ne (by simp [hpc]) ?_
    split at h
    · cases h
      simp
    · split at h
      · cases h
        simp
      · split at h
        · cases h
          simp
        · cases h
          simp
  | poll =>
    simp only [hpc] at h
    have htimely : s.Timely (.work sent) := timely_of_pc (by simp [hpc])
    split at h
    · -- `poll` has reported a datagram or an error, so that `recv` does not wait
      rename_i hready
      cases h
      refine ⟨fun _ => htimely, fun _ hw => ?_⟩
      rcases hready with hsocket | herror
      · exact absurd hw.2.2.1 hsocket
      · exact absurd hw.2.2.2 (by simp [herror])
    · cases h
      exact ⟨fun _ => htimely, fun _ => prompt_of_pc (by simp)⟩
  | recv =>
    simp only [hpc] at h
    split at h
    · rename_i hclosed
      cases h
      refine ⟨fun _ d hopen => ?_, fun _ => prompt_of_pc (by simp)⟩
      rw [hclosed] at hopen
      cases hopen
    · rename_i hopen
      split at h
      · rename_i herror
        cases h
        refine ⟨fun _ d _ _ hno => ?_, fun _ => prompt_of_pc (by simp)⟩
        rw [herror] at hno
        cases hno
      · rename_i herror
        split at h
        · cases h
        · rename_i d socket hsocket
          cases h
          exact prompt_recv (by simpa using hopen) (by simpa using herror) hpc hsocket
  | done =>
    simp only [hpc] at h
    cases h

theorem prompt_step {s t : Worker} {a : Label} (h : machine.step s a = some t) :
    t.Prompt ↔ s.Timely a := by
  cases a with
  | enqueue payload =>
    injection h with h
    subst h
    exact ⟨fun ht hw => enqueue_ne_nil _ _ (ht hw), fun hw ht => absurd ht hw⟩
  | arrive d =>
    injection h with h
    subst h
    exact ⟨fun _ => trivial, fun _ hw => absurd hw.2.2.1 (by simp)⟩
  | fail =>
    injection h with h
    subst h
    exact ⟨fun _ => trivial, fun _ hw => absurd hw.2.2.2 (by simp)⟩
  | close =>
    injection h with h
    subst h
    exact ⟨fun _ => trivial, fun _ hw => absurd hw.1 (by simp)⟩
  | work sent => exact prompt_work h

/-- **Exactly the timely runs are prompt.** -/
theorem sends_promptly_iff (labels : List Label) :
    machine.Always Prompt start labels ↔ machine.Guarded Timely start labels :=
  machine.always_iff_guarded (I := fun _ => True) (fun _ _ _ _ _ _ _ => trivial)
    (fun _ _ _ _ _ h => prompt_step h) trivial (prompt_of_pc (by decide))

/-- A run in which the worker answers one reply and waits for the next one. -/
def lateEnqueue : List Label :=
  [.arrive [0, 0, 0, 1, 1, 1, 1, 1, 0, 53, 7], .work true, .work true, .work true, .work true,
    .enqueue [1, 2, 3]]

/-- **A queued payload waits for an unrelated reply.** After one reply the worker waits in `recv`;
what is queued then stays queued, and no step of the worker is enabled. -/
theorem late_enqueue_waits :
    (∃ t, machine.run start lateEnqueue = some t ∧ t.Waiting ∧ t.queue = [[1, 2, 3]] ∧
      ∀ sent, machine.step t (.work sent) = none) ∧
    ¬machine.Always Prompt start lateEnqueue := by
  have hrun : machine.run start lateEnqueue = some ⟨.recv, false, [[1, 2, 3]], [], false⟩ := rfl
  have hwaiting : Waiting ⟨.recv, false, [[1, 2, 3]], [], false⟩ := ⟨rfl, rfl, rfl, rfl⟩
  refine ⟨⟨_, hrun, hwaiting, rfl, fun _ => rfl⟩, fun halways => ?_⟩
  cases halways.last hrun hwaiting

end Worker

end WebZapret.Relay
