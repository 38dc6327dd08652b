import WebZapret.Relay.Packet
import Mathlib.Data.List.Basic
import Mathlib.Logic.Function.Basic

/-!
# The session registry and the TUN reader

Sessions are allocated and never freed; the registry links some of them into a list, newest
first, and counts them. `tun_reader` looks a packet's flow up, creates a session when there is
none, and hands the payload to it. Meanwhile workers close their sessions or note a reply, and
the reaper unlinks idle ones: what the other threads do between two steps of the reader is an
input of the step (`Turn`), as are the clock and the outcome of the SOCKS5 handshake.
-/

namespace WebZapret.Relay

def IDLE_TIMEOUT : Int := 90

def SESSION_MAX : Int := 512

def QUEUE_MAX : Nat := 256

/-- The part of `Session` that the registry and the queue use. -/
structure Session where
  flow : Flow
  last : Int
  closed : Bool
  queue : List Bytes

/-- The allocated sessions, the linked ones (`sessions`) and `session_count`. -/
structure Registry where
  store : Nat → Session
  next : Nat
  sessions : List Nat
  count : Int

namespace Registry

/-- No session has been created yet. -/
def empty : Registry where
  store := fun _ => ⟨⟨0, 0, 0, 0⟩, 0, false, []⟩
  next := 0
  sessions := []
  count := 0

/-- Change one session. -/
def modify (r : Registry) (i : Nat) (f : Session → Session) : Registry :=
  { r with store := Function.update r.store i (f (r.store i)) }

/-- Take a session out of the list, count it off and close it. -/
def unlink (r : Registry) (i : Nat) : Registry :=
  { r.modify i fun s => { s with closed := true } with
    sessions := r.sessions.erase i
    count := r.count - 1 }

@[simp] theorem modify_store_self (r : Registry) (i : Nat) (f : Session → Session) :
    (r.modify i f).store i = f (r.store i) := Function.update_self ..

theorem modify_store_ne (r : Registry) {i j : Nat} (h : j ≠ i) (f : Session → Session) :
    (r.modify i f).store j = r.store j := Function.update_of_ne h ..

end Registry

/-! ## Looking up, evicting, creating -/

/-- `!s->closed && s->cip == cip && ...` -/
def Session.serves (s : Session) (flow : Flow) : Bool := !s.closed && s.flow == flow

/-- `session_find` -/
def sessionFind (r : Registry) (now : Int) (flow : Flow) : Option Nat × Registry :=
  match r.sessions.find? fun i => (r.store i).serves flow with
  | some i => (some i, r.modify i fun s => { s with last := now })
  | none => (none, r)

/-- The loop of `session_evict_one`: the last one in the list among the longest idle. -/
def oldest (r : Registry) (first : Nat) : List Nat → Nat
  | [] => first
  | s :: rest => oldest r (if (r.store s).last ≤ (r.store first).last then s else first) rest

/-- `session_evict_one`; the list is not empty when it is called. -/
def sessionEvictOne (r : Registry) : Registry :=
  match r.sessions with
  | [] => r
  | first :: rest => r.unlink (oldest r first (first :: rest))

/-- `session_create` once the handshake has succeeded. -/
def sessionCreate (r : Registry) (now : Int) (flow : Flow) : Registry :=
  let s := r.next
  let r := { r with
    store := Function.update r.store s ⟨flow, now, false, []⟩
    next := s + 1 }
  let r := if r.count ≥ SESSION_MAX then sessionEvictOne r else r
  { r with sessions := s :: r.sessions, count := r.count + 1 }

/-! ## The other threads -/

/-- A step of another thread. -/
inductive Other where
  /-- a worker sets `closed` -/
  | close (i : Nat)
  /-- a worker notes a reply -/
  | reply (i : Nat) (now : Int)
  /-- the reaper makes a pass -/
  | reap (now : Int)

/-- The body of `reaper`'s inner loop. -/
def reapOne (now : Int) (r : Registry) (i : Nat) : Registry :=
  if !(r.store i).closed && now - (r.store i).last > IDLE_TIMEOUT then r.unlink i else r

/-- A pass of `reaper`. -/
def reap (r : Registry) (now : Int) : Registry := r.sessions.foldl (reapOne now) r

def Registry.other (r : Registry) : Other → Registry
  | .close i => r.modify i fun s => { s with closed := true }
  | .reply i now => r.modify i fun s => { s with last := now }
  | .reap now => reap r now

def Registry.others (r : Registry) (steps : List Other) : Registry := steps.foldl Registry.other r

/-! ## The reader -/

/-- What the reader meets while it handles one packet: the clock at the first lookup, when the
new session is created (if it can be), at the second lookup and at `session_enqueue`, and what
the other threads do before the session is linked, before it is looked up again, and before the
reader tests `closed`. -/
structure Turn where
  lookup : Int
  created : Option Int
  again : Int
  enqueue : Int
  beforeLink : List Other
  beforeFind : List Other
  beforeTest : List Other

/-- `session_get` -/
def sessionGet (r : Registry) (t : Turn) (flow : Flow) : Option Nat × Registry :=
  match sessionFind r t.lookup flow with
  | (some i, r) => (some i, r)
  | (none, r) =>
    let r := r.others t.beforeLink
    match t.created with
    | some now => sessionFind ((sessionCreate r now flow).others t.beforeFind) t.again flow
    | none => (none, r)

/-- The queue after `session_enqueue`: a full one loses its head. -/
def enqueue (queue : List Bytes) (payload : Bytes) : List Bytes :=
  (if queue.length ≥ QUEUE_MAX then queue.tail else queue) ++ [payload]

/-- `session_enqueue` -/
def sessionEnqueue (r : Registry) (now : Int) (i : Nat) (payload : Bytes) : Registry :=
  r.modify i fun s => { s with last := now, queue := enqueue s.queue payload }

/-- A payload handed to `session_enqueue`, with the flow of the session it is for. -/
structure Delivery where
  flow : Flow
  payload : Bytes
  deriving DecidableEq

/-- The body of `tun_reader`'s loop. -/
def tunStep (r : Registry) (t : Turn) (buf : Bytes) : Registry × Option Delivery :=
  match tunParse buf with
  | .ok (some (flow, payload)) =>
    match sessionGet r t flow with
    | (some i, r) =>
      let r := r.others t.beforeTest
      if (r.store i).closed then (r, none)
      else (sessionEnqueue r t.enqueue i payload, some ⟨(r.store i).flow, payload⟩)
    | (none, r) => (r, none)
  | _ => (r, none)

/-- `tun_reader`: what it hands to the sessions for a sequence of packets. -/
def tunReader (r : Registry) : List (Turn × Bytes) → List Delivery
  | [] => []
  | (t, buf) :: rest => (tunStep r t buf).2.toList ++ tunReader (tunStep r t buf).1 rest

/-! ## Sessions keep their flow -/

theorem modify_flow {r : Registry} {i : Nat} {f : Session → Session}
    (hf : ∀ s, (f s).flow = s.flow) (j : Nat) :
    ((r.modify i f).store j).flow = (r.store j).flow := by
  by_cases h : j = i
  · rw [h, Registry.modify_store_self, hf]
  · rw [Registry.modify_store_ne r h]

theorem unlink_flow (r : Registry) (i j : Nat) :
    ((r.unlink i).store j).flow = (r.store j).flow :=
  modify_flow (f := fun s => { s with closed := true }) (fun _ => rfl) j

theorem reap_flow (r : Registry) (now : Int) (j : Nat) :
    ((reap r now).store j).flow = (r.store j).flow := by
  unfold reap
  generalize r.sessions = ids
  induction ids generalizing r with
  | nil => rfl
  | cons i ids ih =>
    rw [List.foldl_cons, ih, reapOne]
    split
    · exact unlink_flow r i j
    · rfl

theorem others_flow (r : Registry) (steps : List Other) (j : Nat) :
    ((r.others steps).store j).flow = (r.store j).flow := by
  unfold Registry.others
  induction steps generalizing r with
  | nil => rfl
  | cons o steps ih =>
    rw [List.foldl_cons, ih]
    cases o with
    | close i => exact modify_flow (f := fun s => { s with closed := true }) (fun _ => rfl) j
    | reply i now => exact modify_flow (f := fun s => { s with last := now }) (fun _ => rfl) j
    | reap now => exact reap_flow r now j

/-- A session that is found serves the flow it was looked up for, and is open. -/
theorem sessionFind_eq_some {r r' : Registry} {now : Int} {flow : Flow} {i : Nat}
    (h : sessionFind r now flow = (some i, r')) :
    (r'.store i).flow = flow ∧ (r'.store i).closed = false := by
  unfold sessionFind at h
  split at h
  · rename_i j hj
    have hserves := List.find?_some hj
    injection h with hi hr
    injection hi with hi
    rw [← hr, ← hi, Registry.modify_store_self]
    simpa [Session.serves, and_comm] using hserves
  · injection h with hi
    cases hi

theorem sessionGet_flow {r r' : Registry} {t : Turn} {flow : Flow} {i : Nat}
    (h : sessionGet r t flow = (some i, r')) : (r'.store i).flow = flow := by
  unfold sessionGet at h
  split at h
  · rename_i j r1 hfind
    injection h with hi hr
    injection hi with hi
    rw [← hi, ← hr]
    exact (sessionFind_eq_some hfind).1
  · simp only at h
    split at h
    · exact (sessionFind_eq_some h).1
    · injection h with hi
      cases hi

/-- **Deliveries come from the parser**, whatever the other threads do. -/
theorem tunStep_delivery {r : Registry} {t : Turn} {buf : Bytes} {d : Delivery}
    (h : (tunStep r t buf).2 = some d) : tunParse buf = .ok (some (d.flow, d.payload)) := by
  unfold tunStep at h
  split at h
  · rename_i flow payload hparse
    split at h
    · rename_i i r1 hget
      simp only at h
      split at h
      · cases h
      · injection h with h
        rw [← h, hparse]
        simp only
        rw [others_flow, sessionGet_flow hget]
    · cases h
  · cases h

theorem mem_tunReader {r : Registry} {input : List (Turn × Bytes)} {d : Delivery}
    (h : d ∈ tunReader r input) :
    ∃ x ∈ input, tunParse x.2 = .ok (some (d.flow, d.payload)) := by
  induction input generalizing r with
  | nil => cases h
  | cons x rest ih =>
    rw [tunReader, List.mem_append, Option.mem_toList] at h
    rcases h with h | h
    · exact ⟨x, List.mem_cons_self, tunStep_delivery h⟩
    · obtain ⟨y, hy, hparse⟩ := ih h
      exact ⟨y, List.mem_cons_of_mem _ hy, hparse⟩

/-! ## Linked sessions are allocated -/

/-- Every linked session has been allocated, so that a new one is none of them. -/
def Registry.Allocated (r : Registry) : Prop := ∀ i ∈ r.sessions, i < r.next

theorem allocated_unlink {r : Registry} (h : r.Allocated) (i : Nat) : (r.unlink i).Allocated :=
  fun j hj => h j (List.mem_of_mem_erase hj)

theorem allocated_evict {r : Registry} (h : r.Allocated) : (sessionEvictOne r).Allocated := by
  unfold sessionEvictOne
  split
  · exact h
  · exact allocated_unlink h _

theorem allocated_find {r : Registry} (h : r.Allocated) (now : Int) (flow : Flow) :
    (sessionFind r now flow).2.Allocated := by
  unfold sessionFind
  split
  · exact h
  · exact h

theorem evict_next (r : Registry) : (sessionEvictOne r).next = r.next := by
  unfold sessionEvictOne
  split
  · rfl
  · rfl

/-- The evicted session is a linked one. -/
theorem oldest_mem (r : Registry) (first : Nat) (rest : List Nat) :
    oldest r first rest ∈ first :: rest := by
  induction rest generalizing first with
  | nil => exact List.mem_cons_self
  | cons s rest ih =>
    have hmem := ih (if (r.store s).last ≤ (r.store first).last then s else first)
    rw [oldest]
    split
    · rename_i hle
      rw [if_pos hle] at hmem
      exact List.mem_cons_of_mem _ hmem
    · rename_i hle
      rw [if_neg hle] at hmem
      rcases List.mem_cons.mp hmem with heq | hrest
      · rw [heq]
        exact List.mem_cons_self
      · exact List.mem_cons_of_mem _ (List.mem_cons_of_mem _ hrest)

/-- An eviction leaves the sessions that are not linked as they are. -/
theorem evict_store {r : Registry} {i : Nat} (h : i ∉ r.sessions) :
    (sessionEvictOne r).store i = r.store i := by
  unfold sessionEvictOne
  split
  · rfl
  · rename_i first rest hlist
    have hmem := oldest_mem r first (first :: rest)
    refine Registry.modify_store_ne r (fun heq => h ?_) fun s => { s with closed := true }
    rw [hlist, heq]
    rcases List.mem_cons.mp hmem with hfirst | hrest
    · rw [hfirst]
      exact List.mem_cons_self
    · exact hrest

theorem allocated_create {r : Registry} (h : r.Allocated) (now : Int) (flow : Flow) :
    (sessionCreate r now flow).Allocated := by
  have hstep : ∀ r' : Registry, r'.Allocated → r'.next = r.next + 1 →
      ∀ i ∈ r.next :: r'.sessions, i < r'.next := by
    intro r' h' hnext i hi
    rcases List.mem_cons.mp hi with rfl | hi
    · omega
    · exact h' i hi
  have hnew : Registry.Allocated { r with
      store := Function.update r.store r.next ⟨flow, now, false, []⟩
      next := r.next + 1 } := fun i hi => Nat.lt_succ_of_lt (h i hi)
  unfold sessionCreate
  simp only
  split
  · exact hstep _ (allocated_evict hnew) (evict_next _)
  · exact hstep _ hnew rfl

/-! ## Undisturbed turns -/

/-- A turn in which a session can be created and no other thread moves. -/
def Turn.quiet : Turn := ⟨0, some 0, 0, 0, [], [], []⟩

/-- A new session is found, whether or not another one was evicted for it. -/
theorem sessionFind_create {r : Registry} (h : r.Allocated) (now now' : Int) (flow : Flow) :
    (sessionFind (sessionCreate r now flow) now' flow).1 = some r.next := by
  have hfresh : r.next ∉ r.sessions := fun hmem => Nat.lt_irrefl _ (h _ hmem)
  have hserves : ((sessionCreate r now flow).store r.next).serves flow = true := by
    unfold sessionCreate
    simp only
    split
    · rw [evict_store (r := { r with
        store := Function.update r.store r.next ⟨flow, now, false, []⟩
        next := r.next + 1 }) hfresh]
      simp [Session.serves]
    · simp [Session.serves]
  have hhead : ∃ tail, (sessionCreate r now flow).sessions = r.next :: tail := by
    unfold sessionCreate
    simp only
    split
    · exact ⟨_, rfl⟩
    · exact ⟨_, rfl⟩
  obtain ⟨tail, htail⟩ := hhead
  have hfind : (sessionCreate r now flow).sessions.find?
      (fun i => ((sessionCreate r now flow).store i).serves flow) = some r.next := by
    rw [htail]
    exact List.find?_cons_of_pos hserves
  rw [sessionFind, hfind]

/-- In a quiet turn a session is found or created. -/
theorem sessionGet_quiet {r : Registry} (h : r.Allocated) (flow : Flow) :
    ∃ i r', sessionGet r Turn.quiet flow = (some i, r') ∧ (r'.store i).closed = false ∧
      r'.Allocated := by
  have hfirst := allocated_find h 0 flow
  rcases hfind : sessionFind r 0 flow with ⟨_ | i, r1⟩
  · rw [hfind] at hfirst
    have hget : sessionGet r Turn.quiet flow = sessionFind (sessionCreate r1 0 flow) 0 flow := by
      simp only [sessionGet, Turn.quiet, hfind]
      rfl
    have hsecond := allocated_find (allocated_create hfirst 0 flow) 0 flow
    have hsome := sessionFind_create hfirst 0 0 flow
    rcases hr : sessionFind (sessionCreate r1 0 flow) 0 flow with ⟨_ | i, r2⟩
    · rw [hr] at hsome
      cases hsome
    · rw [hr] at hsecond
      exact ⟨i, r2, by rw [hget, hr], (sessionFind_eq_some hr).2, hsecond⟩
  · rw [hfind] at hfirst
    have hget : sessionGet r Turn.quiet flow = (some i, r1) := by
      simp only [sessionGet, Turn.quiet, hfind]
    exact ⟨i, r1, hget, (sessionFind_eq_some hfind).2, hfirst⟩

/-- In a quiet turn every parsed payload is delivered. -/
theorem tunStep_quiet {r : Registry} (h : r.Allocated) (buf : Bytes) :
    (tunStep r Turn.quiet buf).1.Allocated ∧ ∀ flow payload,
      tunParse buf = .ok (some (flow, payload)) →
        (tunStep r Turn.quiet buf).2 = some ⟨flow, payload⟩ := by
  unfold tunStep
  split
  · rename_i flow payload hparse
    obtain ⟨i, r', hget, hopen, halloc⟩ := sessionGet_quiet h flow
    have hothers : r'.others Turn.quiet.beforeTest = r' := rfl
    simp only [hget, hothers, hopen, Bool.false_eq_true, if_false]
    refine ⟨halloc, fun flow' payload' heq => ?_⟩
    rw [hparse] at heq
    cases heq
    rw [sessionGet_flow hget]
  · rename_i hnone
    exact ⟨h, fun flow payload hparse => absurd hparse (hnone flow payload)⟩

theorem mem_tunReader_quiet {r : Registry} (h : r.Allocated) {bufs : List Bytes} {buf : Bytes}
    {d : Delivery} (hbuf : buf ∈ bufs) (hd : tunParse buf = .ok (some (d.flow, d.payload))) :
    d ∈ tunReader r (bufs.map fun b => (Turn.quiet, b)) := by
  induction bufs generalizing r with
  | nil => cases hbuf
  | cons b bufs ih =>
    obtain ⟨halloc, hstep⟩ := tunStep_quiet h b
    rw [List.map_cons, tunReader, List.mem_append, Option.mem_toList]
    rcases List.mem_cons.mp hbuf with rfl | hmem
    · exact .inl (hstep _ _ hd)
    · exact .inr (ih halloc hmem)

end WebZapret.Relay
