import WebZapret.Relay.Sound
import WebZapret.Lib.Linked
import WebZapret.Lib.Machine
import Mathlib.Data.List.Perm.Subperm

/-!
# The registry in memory

`sessions` is a pointer to the first session and every session has a `next` pointer;
`session_count` is a counter of its own. The functions below follow and change these pointers as
the code does. `Represents` connects such a memory to a registry, whose linked sessions are a
list: one lemma per function says that it does to the memory what its counterpart in
`WebZapret.Relay.Registry` does to the list.

**Theorem (`registry_sound`).** In every state that lookups, creations, closures and reaper passes
can reach, the pointers form a list that ends, with all that `Registry.Sound` says, and what a
step takes out of the list is closed and, when it is evicted, has been idle the longest.
-/

namespace WebZapret.Relay

/-- The allocated sessions, their `next` pointers, `sessions` and `session_count`. -/
structure Memory where
  store : Nat → Session
  link : Nat → Option Nat
  allocated : Nat
  sessions : Option Nat
  count : Int

namespace Memory

/-- No session has been created yet. -/
def empty : Memory := ⟨fun _ => ⟨⟨0, 0, 0, 0⟩, 0, false, []⟩, fun _ => none, 0, none, 0⟩

/-- The sessions that `for (s = sessions; s; s = s->next)` visits. -/
def linked (m : Memory) : List Nat := walk m.link m.allocated m.sessions

def modify (m : Memory) (i : Nat) (f : Session → Session) : Memory :=
  { m with store := Function.update m.store i (f (m.store i)) }

/-! ## The functions -/

/-- `session_find` -/
def find (m : Memory) (now : Int) (flow : Flow) : Option Nat × Memory :=
  match m.linked.find? fun i => (m.store i).serves flow with
  | some i => (some i, m.modify i fun s => { s with last := now })
  | none => (none, m)

/-- The first loop of `session_evict_one`. -/
def oldest (m : Memory) (first : Nat) : Nat :=
  m.linked.foldl (fun o s => if (m.store s).last ≤ (m.store o).last then s else o) first

/-- The pointer to a linked session is redirected to the one after it. -/
def without (m : Memory) (victim : Nat) : Memory :=
  if m.sessions = some victim then { m with sessions := m.link victim }
  else
    match m.linked.find? fun s => m.link s = some victim with
    | some prev => { m with link := Function.update m.link prev (m.link victim) }
    | none => m

/-- `session_count--`, `closed = 1` -/
def drop (m : Memory) (i : Nat) : Memory :=
  { m.modify i fun s => { s with closed := true } with count := m.count - 1 }

/-- `session_evict_one`; the list is not empty when it is called. -/
def evictOne (m : Memory) : Memory :=
  match m.sessions with
  | none => m
  | some first => (m.without (m.oldest first)).drop (m.oldest first)

/-- `calloc` and the fields of a new session. -/
def alloc (m : Memory) (now : Int) (flow : Flow) : Memory :=
  { m with
    store := Function.update m.store m.allocated ⟨flow, now, false, []⟩
    allocated := m.allocated + 1 }

/-- The critical section of `session_create`. -/
def push (m : Memory) (i : Nat) : Memory :=
  let m := if m.count ≥ SESSION_MAX then m.evictOne else m
  { m with link := Function.update m.link i m.sessions, sessions := some i, count := m.count + 1 }

/-- `if (prev) prev->next = next; else sessions = next;` -/
def redirect (m : Memory) (next : Option Nat) : Option Nat → Memory
  | some prev => { m with link := Function.update m.link prev next }
  | none => { m with sessions := next }

/-- The inner loop of `reaper`, from `s` with the kept session `prev` before it. -/
def reapFrom (now : Int) : Nat → Option Nat → Option Nat → Memory → Memory
  | 0, _, _, m => m
  | _ + 1, _, none, m => m
  | n + 1, prev, some s, m =>
    if !(m.store s).closed && now - (m.store s).last > IDLE_TIMEOUT then
      reapFrom now n prev (m.link s) ((m.redirect (m.link s) prev).drop s)
    else reapFrom now n (some s) (m.link s) m

/-- A pass of `reaper`. -/
def reap (m : Memory) (now : Int) : Memory := reapFrom now m.allocated none m.sessions m

/-! ## The pointers represent a list -/

/-- The memory of a registry. -/
structure Represents (m : Memory) (r : Registry) : Prop where
  store : m.store = r.store
  allocated : m.allocated = r.next
  count : m.count = r.count
  chain : Linked m.link m.sessions r.sessions

variable {m : Memory} {r : Registry} {fresh : Option Nat} {i : Nat}

theorem represents_empty : Represents empty Registry.empty := ⟨rfl, rfl, rfl, rfl⟩

/-- Following the pointers takes no more steps than there are sessions. -/
theorem Represents.linked_eq (h : Represents m r) (hs : r.Sound fresh) :
    m.linked = r.sessions := by
  apply h.chain.walk_eq
  have hsub : r.sessions ⊆ List.range r.next := fun i hi => List.mem_range.mpr (hs.allocated i hi)
  have hle := (hs.nodup.subperm hsub).length_le
  rwa [List.length_range, ← h.allocated] at hle

theorem Represents.modify (h : Represents m r) (i : Nat) (f : Session → Session) :
    Represents (m.modify i f) (r.modify i f) where
  store := by
    show Function.update m.store i (f (m.store i)) = Function.update r.store i (f (r.store i))
    rw [h.store]
  allocated := h.allocated
  count := h.count
  chain := h.chain

theorem Represents.alloc (h : Represents m r) (now : Int) (flow : Flow) :
    Represents (m.alloc now flow) (r.alloc now flow) where
  store := by
    show Function.update m.store m.allocated _ = Function.update r.store r.next _
    rw [h.store, h.allocated]
  allocated := congrArg (· + 1) h.allocated
  count := h.count
  chain := h.chain

theorem Represents.find (h : Represents m r) (hs : r.Sound fresh) (now : Int) (flow : Flow) :
    (m.find now flow).1 = (sessionFind r now flow).1 ∧
      Represents (m.find now flow).2 (sessionFind r now flow).2 := by
  unfold Memory.find sessionFind
  rw [h.linked_eq hs, h.store]
  cases r.sessions.find? fun i => (r.store i).serves flow with
  | none => exact ⟨rfl, h⟩
  | some i => exact ⟨rfl, h.modify i fun s => { s with last := now }⟩

/-! ### Eviction -/

theorem Represents.oldest (h : Represents m r) (hs : r.Sound fresh) (first : Nat) :
    m.oldest first = Relay.oldest r first r.sessions := by
  unfold Memory.oldest
  rw [h.linked_eq hs, h.store]
  generalize r.sessions = l
  induction l generalizing first with
  | nil => rfl
  | cons s l ih => exact ih _

/-- A linked session that is not the first one has one before it. -/
theorem exists_prev {l : List Nat} (hi : i ∈ l) (hhead : l.head? ≠ some i) :
    ∃ xs y ys, l = xs ++ y :: i :: ys := by
  obtain ⟨s, ys, rfl⟩ := List.append_of_mem hi
  rcases List.eq_nil_or_concat s with rfl | ⟨xs, y, rfl⟩
  · exact absurd rfl hhead
  · exact ⟨xs, y, ys, by simp⟩

theorem erase_after {xs ys : List Nat} {y : Nat} (hnodup : (xs ++ y :: i :: ys).Nodup) :
    (xs ++ y :: i :: ys).erase i = xs ++ y :: ys := by
  have hdisjoint := List.nodup_append.mp hnodup
  have hxs : i ∉ xs := fun hi =>
    hdisjoint.2.2 i hi i (List.mem_cons_of_mem y List.mem_cons_self) rfl
  have hy : y ≠ i := fun heq => (List.nodup_cons.mp hdisjoint.2.1).1 (heq ▸ List.mem_cons_self)
  rw [List.erase_append_right _ hxs, List.erase_cons_tail (by simpa using hy),
    List.erase_cons_head]

/-- The pointers of the list without a session. -/
theorem without_chain (h : Represents m r) (hs : r.Sound fresh) (hi : i ∈ r.sessions) :
    Linked (m.without i).link (m.without i).sessions (r.sessions.erase i) := by
  unfold without
  by_cases hfirst : m.sessions = some i
  · rw [if_pos hfirst]
    have hhead := h.chain.head_eq
    rw [hfirst] at hhead
    obtain ⟨rest, hlist⟩ := List.head?_eq_some_iff.mp hhead.symm
    have hchain := h.chain
    rw [hlist] at hchain ⊢
    rw [List.erase_cons_head]
    exact hchain.2
  · rw [if_neg hfirst, h.linked_eq hs]
    have hhead : r.sessions.head? ≠ some i := by
      rwa [← h.chain.head_eq]
    obtain ⟨xs, y, ys, hlist⟩ := exists_prev hi hhead
    have hchain := h.chain
    have hnodup := hs.nodup
    rw [hlist] at hchain hnodup ⊢
    rw [hchain.find_prev hnodup, erase_after hnodup]
    exact hchain.skip hnodup

theorem without_rest (m : Memory) (i : Nat) :
    (m.without i).store = m.store ∧ (m.without i).allocated = m.allocated ∧
      (m.without i).count = m.count := by
  unfold without
  split
  · exact ⟨rfl, rfl, rfl⟩
  · split <;> exact ⟨rfl, rfl, rfl⟩

theorem Represents.evictOne (h : Represents m r) (hs : r.Sound fresh) :
    Represents m.evictOne (sessionEvictOne r) := by
  unfold Memory.evictOne sessionEvictOne
  have hhead := h.chain.head_eq
  cases hlist : r.sessions with
  | nil =>
    rw [hlist] at hhead
    simp only [show m.sessions = none from hhead]
    exact h
  | cons first rest =>
    rw [hlist] at hhead
    simp only [show m.sessions = some first from hhead]
    have hvictim := h.oldest hs first
    have hmem := Registry.oldest_mem_sessions hlist
    rw [← hlist, hvictim]
    obtain ⟨hstore, hallocated, hcount⟩ := without_rest m (Relay.oldest r first r.sessions)
    refine ⟨?_, hallocated.trans h.allocated, ?_, without_chain h hs hmem⟩
    · show Function.update _ _ _ = Function.update _ _ _
      rw [hstore, h.store]
    · show (m.without _).count - 1 = r.count - 1
      rw [hcount, h.count]

theorem Represents.push (h : Represents m r) (hs : r.Sound fresh) (hi : i ∉ r.sessions) :
    Represents (m.push i) (r.link i) := by
  unfold Memory.push Registry.link
  have hpush : ∀ (m : Memory) (r : Registry), Represents m r → i ∉ r.sessions →
      Represents { m with
          link := Function.update m.link i m.sessions, sessions := some i, count := m.count + 1 }
        { r with sessions := i :: r.sessions, count := r.count + 1 } := fun m r h hi =>
    ⟨h.store, h.allocated, congrArg (· + 1) h.count, h.chain.push hi⟩
  by_cases hfull : r.count ≥ SESSION_MAX
  · simp only [if_pos hfull, if_pos (h.count ▸ hfull : m.count ≥ SESSION_MAX)]
    exact hpush _ _ (h.evictOne hs) fun hmem => hi (Registry.evict_sublist r hmem)
  · simp only [if_neg hfull, if_neg (h.count ▸ hfull : ¬m.count ≥ SESSION_MAX)]
    exact hpush m r h hi

/-! ### The reaper -/

/-- Taking out the session that follows the kept ones. -/
theorem redirect_chain {kept rest : List Nat} {s : Nat} (hnodup : (kept ++ s :: rest).Nodup)
    (h : Linked m.link m.sessions (kept ++ s :: rest)) :
    Linked (m.redirect (m.link s) kept.getLast?).link (m.redirect (m.link s) kept.getLast?).sessions
      (kept ++ rest) := by
  rcases List.eq_nil_or_concat kept with rfl | ⟨xs, y, rfl⟩
  · exact h.2
  · rw [List.concat_eq_append, List.append_assoc, List.singleton_append] at h hnodup
    rw [List.concat_eq_append, List.getLast?_append, List.append_assoc]
    exact h.skip hnodup

theorem redirect_rest (m : Memory) (next prev : Option Nat) :
    (m.redirect next prev).store = m.store ∧ (m.redirect next prev).allocated = m.allocated ∧
      (m.redirect next prev).count = m.count := by
  cases prev <;> exact ⟨rfl, rfl, rfl⟩

/-- The link of the first session that has not been visited leads to the next one. -/
theorem link_eq {kept rest : List Nat} {s : Nat} {p : Option Nat}
    (h : Linked m.link p (kept ++ s :: rest)) : m.link s = rest.head? := by
  induction kept generalizing p with
  | nil => exact h.2.head_eq
  | cons x kept ih => exact ih h.2

/-- The loop goes over the rest of the list as the pass goes over its sessions. -/
theorem reapFrom_represents (now : Int) (n : Nat) {kept rest : List Nat} (m : Memory)
    (r : Registry) (h : Represents m r) (hlist : r.sessions = kept ++ rest)
    (hnodup : r.sessions.Nodup) (hn : rest.length ≤ n) :
    Represents (reapFrom now n kept.getLast? rest.head? m) (rest.foldl (reapOne now) r) := by
  induction n generalizing kept rest m r with
  | zero =>
    rw [List.length_eq_zero_iff.mp (Nat.le_zero.mp hn)]
    exact h
  | succ n ih =>
    cases rest with
    | nil => exact h
    | cons s rest =>
      have hchain := h.chain
      rw [hlist] at hchain hnodup
      have hlink := link_eq hchain
      rw [List.head?_cons, reapFrom, List.foldl_cons, reapOne, h.store, hlink]
      by_cases hidle : (!(r.store s).closed && now - (r.store s).last > IDLE_TIMEOUT) = true
      · rw [if_pos hidle, if_pos hidle]
        have hmem : (r.unlink s).sessions = kept ++ rest := by
          show r.sessions.erase s = kept ++ rest
          have hs : s ∉ kept := fun hs =>
            (List.nodup_append.mp hnodup).2.2 s hs s List.mem_cons_self rfl
          rw [hlist, List.erase_append_right _ hs, List.erase_cons_head]
        obtain ⟨hstore, hallocated, hcount⟩ := redirect_rest m rest.head? kept.getLast?
        have hunlink : Represents ((m.redirect rest.head? kept.getLast?).drop s) (r.unlink s) := by
          refine ⟨?_, hallocated.trans h.allocated, ?_, ?_⟩
          · show Function.update _ _ _ = Function.update _ _ _
            rw [hstore, h.store]
          · show (m.redirect _ _).count - 1 = r.count - 1
            rw [hcount, h.count]
          · rw [hmem, ← hlink]
            exact redirect_chain hnodup hchain
        refine ih _ _ hunlink hmem ?_ (Nat.le_of_succ_le_succ hn)
        rw [hmem]
        exact hnodup.sublist ((List.sublist_cons_self s rest).append_left kept)
      · rw [if_neg hidle, if_neg hidle]
        have hstep : Represents (reapFrom now n (kept ++ [s]).getLast? rest.head? m)
            (rest.foldl (reapOne now) r) :=
          ih m r h (by rw [hlist, List.append_assoc, List.singleton_append])
            (by rw [hlist]; exact hnodup) (Nat.le_of_succ_le_succ hn)
        rwa [List.getLast?_concat] at hstep

theorem Represents.reap (h : Represents m r) (hs : r.Sound fresh) (now : Int) :
    Represents (m.reap now) (Relay.reap r now) := by
  unfold Memory.reap Relay.reap
  rw [h.chain.head_eq]
  have hpass := fun hn => reapFrom_represents now m.allocated m r h
    (List.nil_append r.sessions).symm hs.nodup hn
  apply hpass
  have hsub : r.sessions ⊆ List.range r.next := fun i hi => List.mem_range.mpr (hs.allocated i hi)
  have hle := (hs.nodup.subperm hsub).length_le
  rwa [List.length_range, ← h.allocated] at hle

end Memory

/-! ## The threads -/

/-- Where the reader is in `session_get`. -/
inductive Reader
  | idle
  /-- the flow has no session: `session_create` connects to the upstream server -/
  | creating (flow : Flow)
  /-- the session is allocated, and its worker runs -/
  | linking (flow : Flow) (i : Nat)
  /-- about to look the flow up again -/
  | again (flow : Flow)

inductive Act
  /-- `session_get` looks the flow up -/
  | get (flow : Flow) (now : Int)
  /-- `session_create` fails -/
  | fail
  | create (now : Int)
  | push
  | again (now : Int)
  /-- a worker closes its session -/
  | close (i : Nat)
  /-- a worker or the reader notes a packet -/
  | touch (i : Nat) (now : Int)
  | reap (now : Int)

structure Threads where
  memory : Memory
  reader : Reader

namespace Threads

def start : Threads := ⟨Memory.empty, .idle⟩

/-- Each critical section of the list's mutex is one step. -/
def step (s : Threads) : Act → Option Threads
  | .get flow now =>
    match s.reader with
    | .idle =>
      match s.memory.find now flow with
      | (some _, m) => some ⟨m, .idle⟩
      | (none, m) => some ⟨m, .creating flow⟩
    | _ => none
  | .fail =>
    match s.reader with
    | .creating _ => some ⟨s.memory, .idle⟩
    | _ => none
  | .create now =>
    match s.reader with
    | .creating flow => some ⟨s.memory.alloc now flow, .linking flow s.memory.allocated⟩
    | _ => none
  | .push =>
    match s.reader with
    | .linking flow i => some ⟨s.memory.push i, .again flow⟩
    | _ => none
  | .again now =>
    match s.reader with
    | .again flow => some ⟨(s.memory.find now flow).2, .idle⟩
    | _ => none
  | .close i =>
    if i < s.memory.allocated then
      some ⟨s.memory.modify i fun s => { s with closed := true }, s.reader⟩
    else none
  | .touch i now =>
    if i < s.memory.allocated then
      some ⟨s.memory.modify i fun s => { s with last := now }, s.reader⟩
    else none
  | .reap now => some ⟨s.memory.reap now, s.reader⟩

def machine : Machine Threads Act := ⟨step⟩

/-- What a step can do, branch by branch. -/
inductive Steps (s : Threads) : Act → Threads → Prop
  | found {flow : Flow} {now : Int} {i : Nat} {m : Memory} (hreader : s.reader = .idle)
      (hfind : s.memory.find now flow = (some i, m)) : Steps s (.get flow now) ⟨m, .idle⟩
  | missing {flow : Flow} {now : Int} {m : Memory} (hreader : s.reader = .idle)
      (hfind : s.memory.find now flow = (none, m)) : Steps s (.get flow now) ⟨m, .creating flow⟩
  | fail {flow : Flow} (hreader : s.reader = .creating flow) : Steps s .fail ⟨s.memory, .idle⟩
  | create {now : Int} {flow : Flow} (hreader : s.reader = .creating flow) :
      Steps s (.create now) ⟨s.memory.alloc now flow, .linking flow s.memory.allocated⟩
  | push {flow : Flow} {i : Nat} (hreader : s.reader = .linking flow i) :
      Steps s .push ⟨s.memory.push i, .again flow⟩
  | again {now : Int} {flow : Flow} (hreader : s.reader = .again flow) :
      Steps s (.again now) ⟨(s.memory.find now flow).2, .idle⟩
  | close {i : Nat} (hi : i < s.memory.allocated) :
      Steps s (.close i) ⟨s.memory.modify i fun s => { s with closed := true }, s.reader⟩
  | touch {i : Nat} {now : Int} (hi : i < s.memory.allocated) :
      Steps s (.touch i now) ⟨s.memory.modify i fun s => { s with last := now }, s.reader⟩
  | reap {now : Int} : Steps s (.reap now) ⟨s.memory.reap now, s.reader⟩

/-- **The branches of a step.** -/
theorem steps_of_step {s t : Threads} {a : Act} (h : s.step a = some t) : s.Steps a t := by
  cases a with
  | get flow now =>
    simp only [step] at h
    split at h
    · rename_i hreader
      split at h
      · rename_i i m hfind
        cases h
        exact .found hreader hfind
      · rename_i m hfind
        cases h
        exact .missing hreader hfind
    · cases h
  | reap now =>
    cases h
    exact .reap
  | _ =>
    simp only [step] at h
    split at h
    · rename_i hguard
      cases h
      constructor
      exact hguard
    · cases h

/-- The session that has been created and not linked yet. -/
def fresh (s : Threads) : Option Nat :=
  match s.reader with
  | .linking _ i => some i
  | _ => none

/-- The registry that the memory represents. -/
def registry (s : Threads) : Registry :=
  ⟨s.memory.store, s.memory.allocated, s.memory.linked, s.memory.count⟩

/-- The pointers form a list that ends, and it is sound; what a step takes out of it is closed,
and has been idle the longest when it is evicted. -/
structure RegistrySound (s : Threads) : Prop where
  ends : Linked s.memory.link s.memory.sessions s.memory.linked
  sound : s.registry.Sound s.fresh
  unlinks : ∀ a t, s.step a = some t → ∀ i ∈ s.memory.linked, i ∉ t.memory.linked →
    (t.memory.store i).closed = true ∧ (a = .push →
      ∀ j ∈ s.memory.linked, (s.memory.store i).last ≤ (s.memory.store j).last)

/-- What the reader relies on while it creates a session. -/
def Holds (r : Registry) : Reader → Prop
  | .idle => True
  | .creating flow => r.Absent flow
  | .linking flow i => i < r.next ∧ i ∉ r.sessions ∧ (r.store i).flow = flow ∧ r.Absent flow
  | .again _ => True

/-- The memory represents a sound registry. -/
def Inv (s : Threads) (r : Registry) : Prop :=
  s.memory.Represents r ∧ r.Sound s.fresh ∧ Holds r s.reader

variable {s t : Threads} {r : Registry}

theorem inv_start : start.Inv Registry.empty :=
  ⟨Memory.represents_empty, Registry.sound_empty, trivial⟩

/-- The other threads take nothing from the reader. -/
theorem holds_modify {f : Session → Session} (hf : Registry.Ages f) {reader : Reader}
    (h : Holds r reader) (i : Nat) : Holds (r.modify i f) reader := by
  cases reader with
  | idle => trivial
  | creating flow => exact Registry.absent_modify hf h i
  | linking flow j =>
    obtain ⟨hj, hmem, hflow, habsent⟩ := h
    exact ⟨hj, hmem, (Registry.modify_ages hf i j).1.trans hflow,
      Registry.absent_modify hf habsent i⟩
  | again flow => trivial

theorem holds_reap {reader : Reader} (h : Holds r reader) (now : Int) :
    Holds (reap r now) reader := by
  cases reader with
  | idle => trivial
  | creating flow => exact Registry.absent_reap h now
  | linking flow j =>
    obtain ⟨hj, hmem, hflow, habsent⟩ := h
    refine ⟨?_, fun hj' => hmem (Registry.reap_sublist r now hj'), ?_,
      Registry.absent_reap habsent now⟩
    · rwa [Registry.reap_next]
    · rwa [reap_flow]
  | again flow => trivial

/-- **A step keeps the invariant**, and only a push evicts. -/
theorem inv_step {a : Act} (h : s.Inv r) (hstep : s.step a = some t) :
    ∃ r', t.Inv r' ∧ r.next ≤ r'.next ∧ (a = .push → ∃ i, r' = r.link i) := by
  obtain ⟨hrep, hsound, hholds⟩ := h
  cases steps_of_step hstep with
  | @found flow now i m hreader hm =>
    rw [fresh, hreader] at hsound
    obtain ⟨_, hsnd⟩ := hrep.find hsound now flow
    rw [hm] at hsnd
    refine ⟨_, ⟨hsnd, Registry.sound_find hsound now flow, trivial⟩, ?_, nofun⟩
    unfold sessionFind
    split <;> exact Nat.le_refl _
  | @missing flow now m hreader hm =>
    rw [fresh, hreader] at hsound
    obtain ⟨hfst, hsnd⟩ := hrep.find hsound now flow
    rw [hm] at hfst hsnd
    rcases hr : sessionFind r now flow with ⟨o, r'⟩
    rw [hr] at hfst hsnd
    cases hfst
    obtain ⟨rfl, habsent⟩ := Registry.absent_of_find hr
    exact ⟨r', ⟨hsnd, hsound, habsent⟩, Nat.le_refl _, nofun⟩
  | fail hreader =>
    rw [fresh, hreader] at hsound
    exact ⟨r, ⟨hrep, hsound, trivial⟩, Nat.le_refl _, nofun⟩
  | @create now flow hreader =>
    rw [fresh, hreader] at hsound
    rw [hreader] at hholds
    have hnew : r.next ∉ r.sessions := fun hmem =>
      Nat.lt_irrefl _ (hsound.allocated r.next hmem)
    have hflow : ((r.alloc now flow).store r.next).flow = flow := by
      simp [Registry.alloc]
    refine ⟨r.alloc now flow, ⟨hrep.alloc now flow, ?_, ?_⟩, Nat.le_succ _, nofun⟩
    · rw [fresh, hrep.allocated]
      exact Registry.sound_alloc hsound now flow
    · rw [hrep.allocated]
      exact ⟨Nat.lt_succ_self _, hnew, hflow,
        Registry.absent_alloc hsound.allocated hholds now flow⟩
  | @push flow i hreader =>
    rw [fresh, hreader] at hsound
    rw [hreader] at hholds
    obtain ⟨hi, hmem, hflow, habsent⟩ := hholds
    refine ⟨r.link i, ⟨hrep.push hsound hmem, ?_, trivial⟩, ?_, fun _ => ⟨i, rfl⟩⟩
    · exact Registry.sound_link hsound hi hmem (by rwa [hflow])
    · unfold Registry.link
      dsimp only
      split
      · exact Nat.le_of_eq (evict_next r).symm
      · exact Nat.le_refl _
  | @again now flow hreader =>
    rw [fresh, hreader] at hsound
    refine ⟨_, ⟨(hrep.find hsound now flow).2, Registry.sound_find hsound now flow, trivial⟩,
      ?_, nofun⟩
    unfold sessionFind
    split <;> exact Nat.le_refl _
  | @close i =>
    exact ⟨_, ⟨hrep.modify i fun s => { s with closed := true },
      Registry.sound_modify Registry.ages_close hsound i,
      holds_modify Registry.ages_close hholds i⟩, Nat.le_refl _, nofun⟩
  | @touch i now =>
    exact ⟨_, ⟨hrep.modify i fun s => { s with last := now },
      Registry.sound_modify (Registry.ages_touch now) hsound i,
      holds_modify (Registry.ages_touch now) hholds i⟩, Nat.le_refl _, nofun⟩
  | @reap now =>
    exact ⟨_, ⟨hrep.reap hsound now, Registry.sound_reap hsound now, holds_reap hholds now⟩,
      Nat.le_of_eq (Registry.reap_next r now).symm, nofun⟩

/-- A session that is fresh after a step was fresh before it, or has just been allocated. -/
theorem fresh_step {a : Act} {i : Nat} (hstep : s.step a = some t) (hi : t.fresh = some i) :
    s.fresh = some i ∨ i = s.memory.allocated := by
  cases steps_of_step hstep with
  | create => exact .inr (Option.some.inj hi).symm
  | close | touch | reap => exact .inl hi
  | _ => cases hi

theorem registrySound_of_inv (h : s.Inv r) : s.RegistrySound := by
  obtain ⟨hrep, hsound, hholds⟩ := h
  have hlinked := hrep.linked_eq hsound
  refine ⟨hlinked ▸ hrep.chain, ?_, fun a t hstep i hi hgone => ?_⟩
  · have hregistry : s.registry = r := by
      unfold registry
      rw [hlinked, hrep.store, hrep.allocated, hrep.count]
    rw [hregistry]
    exact hsound
  · obtain ⟨r', ⟨hrep', hsound', _⟩, hnext, hpush⟩ := inv_step ⟨hrep, hsound, hholds⟩ hstep
    rw [hlinked] at hi ⊢
    rw [hrep'.linked_eq hsound'] at hgone
    have hlt : i < r.next := hsound.allocated i hi
    have hfresh : t.fresh ≠ some i := by
      intro heq
      rcases fresh_step hstep heq with hold | hnew
      · cases hreader : s.reader with
        | linking flow j =>
          rw [hreader] at hholds
          rw [fresh, hreader] at hold
          cases hold
          exact hholds.2.1 hi
        | _ =>
          rw [fresh, hreader] at hold
          cases hold
      · rw [hrep.allocated] at hnew
        omega
    rw [hrep'.store, hrep.store]
    refine ⟨hsound'.unlinked_closed i (by omega) hgone hfresh, fun ha => ?_⟩
    obtain ⟨j, rfl⟩ := hpush ha
    exact Registry.evicted_least hi hgone

/-- The invariant holds in every state of a run. -/
theorem always_inv (acts : List Act) : machine.Always (fun s => ∃ r, s.Inv r) start acts := by
  apply machine.always_of_step
  · rintro s a t ⟨r, h⟩ hstep
    obtain ⟨r', h', _⟩ := inv_step h hstep
    exact ⟨r', h'⟩
  · exact ⟨_, inv_start⟩

/-- **The registry is sound** in every state that lookups, creations, closures and reaper passes
can reach. -/
theorem registry_sound (acts : List Act) : machine.Always RegistrySound start acts :=
  (always_inv acts).mono fun _ ⟨_, h⟩ => registrySound_of_inv h

end Threads

end WebZapret.Relay
