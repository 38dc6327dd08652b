import WebZapret.Relay.Registry
import WebZapret.Lib.Fifo
import WebZapret.Lib.Linked
import WebZapret.Lib.Machine

/-!
# The outbound queue in memory

The payloads of a session that wait for its worker are a list of nodes, with `qhead`, `qtail` and a
counter. The functions below follow and change the pointers as `session_enqueue` and
`session_dequeue` do; what they read through a pointer must be allocated, or they have no result.
`Represents` connects such a memory to the list of its cells, with one lemma for each operation.

**Theorem (`queue_refines`).** Whatever addresses the allocator gives, the payloads that are dequeued
are those of a bounded FIFO, and the pointers and the counter stay consistent.
-/

namespace WebZapret.Relay

/-- `Payload`; `data` points to a block of its own. -/
structure Payload where
  data : Nat
  len : Nat
  next : Option Nat

/-- The allocated nodes and blocks, and the queue of a session. -/
structure Outbound where
  nodes : Nat → Option Payload
  blocks : Nat → Option Bytes
  qhead : Option Nat
  qtail : Option Nat
  qlen : Int

namespace Outbound

/-- `p->next` -/
def link (q : Outbound) (p : Nat) : Option Nat := (q.nodes p).bind Payload.next

/-- `s->qhead = p->next; if (!s->qhead) s->qtail = NULL; s->qlen--` -/
def advance (q : Outbound) (p : Payload) : Outbound :=
  { q with
    qhead := p.next
    qtail := if p.next = none then none else q.qtail
    qlen := q.qlen - 1 }

/-- The first part of `session_enqueue`. The payload of the oldest node is freed; its node is not. -/
def dropOldest (q : Outbound) : Option Outbound :=
  if q.qlen ≥ QUEUE_MAX then
    match q.qhead with
    | none => some q
    | some old => do
      let p ← q.nodes old
      let _ ← q.blocks p.data
      some { q.advance p with blocks := Function.update q.blocks p.data none }
  else some q

/-- The rest of `session_enqueue`, where `calloc` gives `p` and `malloc` gives `data`. -/
def append (q : Outbound) (pkt : Bytes) (p data : Nat) : Option Outbound := do
  let nodes := Function.update q.nodes p (some ⟨data, pkt.length, none⟩)
  let blocks := Function.update q.blocks data (some pkt)
  match q.qtail with
  | some tail =>
    let last ← nodes tail
    some { q with
      nodes := Function.update nodes tail (some { last with next := some p })
      blocks := blocks, qtail := some p, qlen := q.qlen + 1 }
  | none =>
    some { q with
      nodes := nodes, blocks := blocks, qhead := some p, qtail := some p, qlen := q.qlen + 1 }

/-- `session_enqueue` -/
def sessionEnqueue (q : Outbound) (pkt : Bytes) (p data : Nat) : Option Outbound :=
  q.dropOldest.bind fun q => q.append pkt p data

/-- `session_dequeue`: `*pkt` and `*n` when it returns 1. -/
def sessionDequeue (q : Outbound) : Option (Option (Nat × Nat) × Outbound) :=
  match q.qhead with
  | none => some (none, q)
  | some head => do
    let p ← q.nodes head
    some (some (p.data, p.len), { q.advance p with nodes := Function.update q.nodes head none })

/-- The bytes that a caller of `session_dequeue` finds. -/
def payloadAt (q : Outbound) (data len : Nat) : Option Bytes := do
  let block ← q.blocks data
  if len ≤ block.length then some (block.take len) else none

/-- Nothing is allocated at these addresses when `session_enqueue` asks for them. -/
def unused (q : Outbound) (p data : Nat) : Bool :=
  q.dropOldest.all fun q => (q.nodes p).isNone && (q.blocks data).isNone

/-! ## The memory represents a list -/

/-- A node of the queue with its block. -/
structure Cell where
  node : Nat
  data : Nat
  payload : Bytes

/-- The queue has these cells; the blocks in `held` have been dequeued and not freed. -/
structure Represents (q : Outbound) (held : List Nat) (cells : List Cell) : Prop where
  chain : Linked q.link q.qhead (cells.map Cell.node)
  nodes : ∀ c ∈ cells, ∃ next, q.nodes c.node = some ⟨c.data, c.payload.length, next⟩
  blocks : ∀ c ∈ cells, q.blocks c.data = some c.payload
  live : ∀ d ∈ held, q.blocks d ≠ none
  nodup_node : (cells.map Cell.node).Nodup
  nodup_data : (cells.map Cell.data ++ held).Nodup
  tail : q.qtail = (cells.map Cell.node).getLast?
  count : q.qlen = cells.length
  bound : cells.length ≤ QUEUE_MAX

variable {q q' : Outbound} {held held' : List Nat} {cells rest : List Cell} {c : Cell} {p : Payload}

theorem represents_empty (nodes : Nat → Option Payload) (blocks : Nat → Option Bytes) :
    Represents ⟨nodes, blocks, none, none, 0⟩ [] [] where
  chain := rfl
  nodes := nofun
  blocks := nofun
  live := nofun
  nodup_node := List.nodup_nil
  nodup_data := List.nodup_nil
  tail := rfl
  count := rfl
  bound := Nat.zero_le _

/-- Only the queue's own nodes and blocks matter. -/
theorem Represents.frame (h : Represents q held cells)
    (hqueue : q'.qhead = q.qhead ∧ q'.qtail = q.qtail ∧ q'.qlen = q.qlen)
    (hnodes : ∀ c ∈ cells, q'.nodes c.node = q.nodes c.node)
    (hblocks : ∀ c ∈ cells, q'.blocks c.data = q.blocks c.data)
    (hlive : ∀ d ∈ held', q'.blocks d ≠ none) (hnodup : (cells.map Cell.data ++ held').Nodup) :
    Represents q' held' cells where
  chain := by
    rw [hqueue.1]
    refine Linked.congr (fun i hi => ?_) h.chain
    obtain ⟨c, hc, rfl⟩ := List.mem_map.mp hi
    rw [link, link, hnodes c hc]
  nodes c hc := by
    rw [hnodes c hc]
    exact h.nodes c hc
  blocks c hc := by
    rw [hblocks c hc]
    exact h.blocks c hc
  live := hlive
  nodup_node := h.nodup_node
  nodup_data := hnodup
  tail := hqueue.2.1.trans h.tail
  count := hqueue.2.2.trans h.count
  bound := h.bound

/-! ### Taking out the head -/

theorem Represents.advance (h : Represents q held (c :: rest)) (hp : q.nodes c.node = some p) :
    Represents (q.advance p) held rest where
  chain := by
    have hlink : q.link c.node = p.next := by rw [link, hp]; rfl
    have hchain := h.chain.2
    rwa [hlink] at hchain
  nodes c' hc' := h.nodes c' (List.mem_cons_of_mem c hc')
  blocks c' hc' := h.blocks c' (List.mem_cons_of_mem c hc')
  live := h.live
  nodup_node := (List.nodup_cons.mp h.nodup_node).2
  nodup_data := (List.nodup_cons.mp h.nodup_data).2
  tail := by
    have hnext : p.next = (rest.map Cell.node).head? := by
      have hlink : q.link c.node = p.next := by rw [link, hp]; rfl
      rw [← hlink]
      exact h.chain.2.head_eq
    have htail := h.tail
    show (if p.next = none then none else q.qtail) = _
    rw [hnext, htail]
    cases rest with
    | nil => rfl
    | cons c' rest => rw [List.map_cons, List.map_cons, List.map_cons, List.head?_cons,
        if_neg (Option.some_ne_none _), List.getLast?_cons_cons]
  count := by
    show q.qlen - 1 = _
    rw [h.count, List.length_cons]
    omega
  bound := Nat.le_of_succ_le h.bound

/-- The other cells have other nodes and blocks. -/
theorem Represents.head_ne (h : Represents q held (c :: rest)) :
    (∀ c' ∈ rest, c'.node ≠ c.node) ∧ (∀ c' ∈ rest, c'.data ≠ c.data) ∧ c.data ∉ held := by
  have hnode := (List.nodup_cons.mp h.nodup_node).1
  obtain ⟨hdata, hheld⟩ := not_or.mp (mt List.mem_append.mpr (List.nodup_cons.mp h.nodup_data).1)
  refine ⟨fun c' hc' heq => hnode ?_, fun c' hc' heq => hdata ?_, hheld⟩
  · rw [← heq]
    exact List.mem_map_of_mem hc'
  · rw [← heq]
    exact List.mem_map_of_mem hc'

/-- A full queue loses its head. -/
theorem Represents.dropOldest (h : Represents q held cells) :
    ∃ q', q.dropOldest = some q' ∧
      Represents q' held (if cells.length ≥ QUEUE_MAX then cells.tail else cells) := by
  unfold Outbound.dropOldest
  by_cases hfull : cells.length ≥ QUEUE_MAX
  · have hqlen : q.qlen ≥ QUEUE_MAX := by
      rw [h.count]
      exact Int.ofNat_le.mpr hfull
    rw [if_pos hqlen, if_pos hfull]
    cases cells with
    | nil => exact absurd hfull (by decide)
    | cons c rest =>
      obtain ⟨next, hnode⟩ := h.nodes c List.mem_cons_self
      have hblock := h.blocks c List.mem_cons_self
      obtain ⟨_, hdata, hheld⟩ := h.head_ne
      rw [show q.qhead = some c.node from h.chain.1]
      simp only [hnode, hblock, Option.bind_eq_bind, Option.bind_some]
      refine ⟨_, rfl, (h.advance hnode).frame ⟨rfl, rfl, rfl⟩ (fun _ _ => rfl) ?_ ?_ ?_⟩
      · exact fun c' hc' => Function.update_of_ne (hdata c' hc') ..
      · intro d hd
        show Function.update q.blocks c.data none d ≠ none
        rw [Function.update_of_ne (ne_of_mem_of_not_mem hd hheld)]
        exact h.live d hd
      · exact (List.nodup_cons.mp h.nodup_data).2
  · have hqlen : ¬q.qlen ≥ QUEUE_MAX := by
      rw [h.count]
      exact fun hle => hfull (Int.ofNat_le.mp hle)
    rw [if_neg hqlen, if_neg hfull]
    exact ⟨q, rfl, h⟩

/-- `session_dequeue` gives the head's payload, whose block the caller then holds. -/
theorem Represents.dequeue (h : Represents q held (c :: rest)) :
    ∃ q', q.sessionDequeue = some (some (c.data, c.payload.length), q') ∧
      Represents q' (c.data :: held) rest ∧ q'.payloadAt c.data c.payload.length = some c.payload := by
  obtain ⟨next, hnode⟩ := h.nodes c List.mem_cons_self
  have hblock := h.blocks c List.mem_cons_self
  obtain ⟨hne, _, _⟩ := h.head_ne
  rw [sessionDequeue, show q.qhead = some c.node from h.chain.1]
  simp only [hnode, Option.bind_eq_bind, Option.bind_some]
  refine ⟨_, rfl, (h.advance hnode).frame ⟨rfl, rfl, rfl⟩ ?_ (fun _ _ => rfl) ?_ ?_, ?_⟩
  · exact fun c' hc' => Function.update_of_ne (hne c' hc') ..
  · refine List.forall_mem_cons.mpr ⟨?_, h.live⟩
    show q.blocks c.data ≠ none
    rw [hblock]
    exact Option.some_ne_none _
  · exact List.perm_middle.nodup_iff.mpr h.nodup_data
  · show (q.blocks c.data).bind _ = _
    rw [hblock, Option.bind_some, if_pos le_rfl, List.take_length]

theorem Represents.dequeue_nil (h : Represents q held []) : q.sessionDequeue = some (none, q) := by
  rw [sessionDequeue, show q.qhead = none from h.chain]

/-! ### Appending -/

/-- What is allocated is not the queue's. -/
theorem Represents.fresh (h : Represents q held cells) {i d : Nat} (hi : q.nodes i = none)
    (hd : q.blocks d = none) :
    (∀ c ∈ cells, c.node ≠ i) ∧ (∀ c ∈ cells, c.data ≠ d) ∧ d ∉ held := by
  refine ⟨?_, ?_, fun hmem => h.live d hmem hd⟩
  · rintro c hc rfl
    obtain ⟨next, hnode⟩ := h.nodes c hc
    rw [hi] at hnode
    cases hnode
  · rintro c hc rfl
    have hblock := h.blocks c hc
    rw [hd] at hblock
    cases hblock

/-- The queue with one more cell, however it has been linked. -/
theorem appended (h : Represents q held cells) (hroom : cells.length < QUEUE_MAX)
    (hnode : ∀ c' ∈ cells, c'.node ≠ c.node) (hdata : ∀ c' ∈ cells, c'.data ≠ c.data)
    (hheld : c.data ∉ held) (hblocks : q'.blocks = Function.update q.blocks c.data (some c.payload))
    (hqtail : q'.qtail = some c.node) (hqlen : q'.qlen = q.qlen + 1)
    (hchain : Linked q'.link q'.qhead ((cells ++ [c]).map Cell.node))
    (hnodes : ∀ c' ∈ cells ++ [c],
      ∃ next, q'.nodes c'.node = some ⟨c'.data, c'.payload.length, next⟩) :
    Represents q' held (cells ++ [c]) where
  chain := hchain
  nodes := hnodes
  blocks c' hc' := by
    rw [hblocks]
    rcases List.mem_append.mp hc' with hc' | hc'
    · rw [Function.update_of_ne (hdata c' hc'), h.blocks c' hc']
    · rw [List.mem_singleton.mp hc', Function.update_self]
  live d hd := by
    rw [hblocks, Function.update_of_ne (ne_of_mem_of_not_mem hd hheld)]
    exact h.live d hd
  nodup_node := by
    rw [List.map_append, List.map_singleton, ← List.concat_eq_append]
    refine h.nodup_node.concat fun hmem => ?_
    obtain ⟨c', hc', heq⟩ := List.mem_map.mp hmem
    exact hnode c' hc' heq
  nodup_data := by
    rw [List.map_append, List.map_singleton, List.append_assoc, List.singleton_append]
    refine List.perm_middle.nodup_iff.mpr (List.nodup_cons.mpr ⟨fun hmem => ?_, h.nodup_data⟩)
    rcases List.mem_append.mp hmem with hmem | hmem
    · obtain ⟨c', hc', heq⟩ := List.mem_map.mp hmem
      exact hdata c' hc' heq
    · exact hheld hmem
  tail := by rw [hqtail, List.map_append, List.map_singleton, List.getLast?_concat]
  count := by
    rw [hqlen, h.count, List.length_append, List.length_singleton, Int.natCast_add]
    rfl
  bound := by
    rw [List.length_append]
    exact hroom

/-- The first cell: there is no tail to link it to. -/
theorem Represents.append_nil (h : Represents q held []) {i d : Nat} (pkt : Bytes)
    (hi : q.nodes i = none) (hd : q.blocks d = none) :
    ∃ q', q.append pkt i d = some q' ∧ Represents q' held [⟨i, d, pkt⟩] := by
  obtain ⟨hnode, hdata, hheld⟩ := h.fresh hi hd
  have htail : q.qtail = none := h.tail
  unfold Outbound.append
  simp only [htail]
  refine ⟨_, rfl, @appended q _ held [] ⟨i, d, pkt⟩ h (by decide) hnode hdata hheld rfl rfl rfl
    ⟨rfl, ?_⟩ ?_⟩
  · show (Function.update q.nodes i _ i).bind _ = none
    rw [Function.update_self]
    rfl
  · intro c hc
    rw [List.nil_append, List.mem_singleton] at hc
    rw [hc]
    exact ⟨none, Function.update_self ..⟩

/-- A further cell: the last one is linked to it. -/
theorem Represents.append_concat {init : List Cell} {last : Cell}
    (h : Represents q held (init ++ [last])) (hroom : (init ++ [last]).length < QUEUE_MAX)
    {i d : Nat} (pkt : Bytes) (hi : q.nodes i = none) (hd : q.blocks d = none) :
    ∃ q', q.append pkt i d = some q' ∧ Represents q' held (init ++ [last] ++ [⟨i, d, pkt⟩]) := by
  obtain ⟨hnode, hdata, hheld⟩ := h.fresh hi hd
  have hmem : ∀ c ∈ init, c ∈ init ++ [last] := fun c hc => List.mem_append_left _ hc
  have hlast : last ∈ init ++ [last] := List.mem_append_right _ List.mem_cons_self
  have htail : q.qtail = some last.node := by
    rw [h.tail, List.map_append, List.map_singleton, List.getLast?_concat]
  obtain ⟨next, hlastNode⟩ := h.nodes last hlast
  have hne : last.node ≠ i := hnode last hlast
  have hinit : ∀ c ∈ init, c.node ≠ last.node := by
    have hnodup := h.nodup_node
    rw [List.map_append, List.map_singleton, List.nodup_append] at hnodup
    exact fun c hc => hnodup.2.2 _ (List.mem_map_of_mem hc) _ (List.mem_singleton_self _)
  let nodes := Function.update (Function.update q.nodes i (some ⟨d, pkt.length, none⟩)) last.node
    (some ⟨last.data, last.payload.length, some i⟩)
  have hnodesInit : ∀ c ∈ init, nodes c.node = q.nodes c.node := fun c hc =>
    (Function.update_of_ne (hinit c hc) ..).trans (Function.update_of_ne (hnode c (hmem c hc)) ..)
  have hnodesLast : nodes last.node = some ⟨last.data, last.payload.length, some i⟩ :=
    Function.update_self ..
  have hnodesNew : nodes i = some ⟨d, pkt.length, none⟩ :=
    (Function.update_of_ne hne.symm ..).trans (Function.update_self ..)
  let q' : Outbound := ⟨nodes, Function.update q.blocks d (some pkt), q.qhead, some i, q.qlen + 1⟩
  refine ⟨q', ?_, @appended q q' held (init ++ [last]) ⟨i, d, pkt⟩ h hroom hnode hdata hheld rfl rfl
    rfl ?_ ?_⟩
  · unfold Outbound.append
    simp only [htail, Function.update_of_ne hne, hlastNode, Option.bind_eq_bind, Option.bind_some]
    rfl
  · have hchain := h.chain
    rw [List.map_append, List.map_singleton] at hchain
    rw [List.map_append, List.map_append, List.append_assoc]
    refine hchain.concat ?_ ?_ ?_
    · intro z hz
      obtain ⟨c, hc, rfl⟩ := List.mem_map.mp hz
      show (nodes c.node).bind _ = (q.nodes c.node).bind _
      rw [hnodesInit c hc]
    · show (nodes last.node).bind _ = _
      rw [hnodesLast]
      rfl
    · show (nodes i).bind _ = _
      rw [hnodesNew]
      rfl
  · intro c hc
    rcases List.mem_append.mp hc with hc | hc
    · rcases List.mem_append.mp hc with hc | hc
      · obtain ⟨next, hnext⟩ := h.nodes c (hmem c hc)
        exact ⟨next, (hnodesInit c hc).trans hnext⟩
      · rw [List.mem_singleton.mp hc]
        exact ⟨some i, hnodesLast⟩
    · rw [List.mem_singleton.mp hc]
      exact ⟨none, hnodesNew⟩

theorem Represents.append (h : Represents q held cells) (hroom : cells.length < QUEUE_MAX)
    {i d : Nat} (pkt : Bytes) (hi : q.nodes i = none) (hd : q.blocks d = none) :
    ∃ q', q.append pkt i d = some q' ∧ Represents q' held (cells ++ [⟨i, d, pkt⟩]) := by
  rcases List.eq_nil_or_concat cells with rfl | ⟨init, last, rfl⟩
  · exact h.append_nil pkt hi hd
  · rw [List.concat_eq_append] at h hroom ⊢
    exact h.append_concat hroom pkt hi hd

/-- **`session_enqueue` pushes onto the bounded FIFO.** -/
theorem Represents.enqueue (h : Represents q held cells) (pkt : Bytes) {i d : Nat}
    (hunused : q.unused i d = true) :
    ∃ q' cells', q.sessionEnqueue pkt i d = some q' ∧ Represents q' held cells' ∧
      cells'.map Cell.payload = Fifo.push QUEUE_MAX (cells.map Cell.payload) pkt := by
  obtain ⟨q₁, hdrop, h₁⟩ := h.dropOldest
  have hfree : q₁.nodes i = none ∧ q₁.blocks d = none := by
    rw [unused, hdrop] at hunused
    simpa using hunused
  have hroom : (if cells.length ≥ QUEUE_MAX then cells.tail else cells).length < QUEUE_MAX := by
    have hbound := h.bound
    have hpos : 0 < QUEUE_MAX := by decide
    split
    · rw [List.length_tail]
      omega
    · omega
  obtain ⟨q₂, happend, h₂⟩ := h₁.append hroom pkt hfree.1 hfree.2
  refine ⟨q₂, _, ?_, h₂, ?_⟩
  · rw [sessionEnqueue, hdrop, Option.bind_some, happend]
  · rw [Fifo.push, List.length_map, List.map_append]
    split
    · rw [List.map_tail]
      rfl
    · rfl

/-- A block that the queue does not own is freed. -/
theorem Represents.free (h : Represents q held cells) {d : Nat} (hd : d ∈ held) :
    Represents { q with blocks := Function.update q.blocks d none } (held.erase d) cells := by
  obtain ⟨-, hheld, hdisjoint⟩ := List.nodup_append.mp h.nodup_data
  refine h.frame ⟨rfl, rfl, rfl⟩ (fun _ _ => rfl) ?_ ?_ ?_
  · exact fun c hc => Function.update_of_ne (hdisjoint _ (List.mem_map_of_mem hc) d hd) ..
  · intro d' hd'
    obtain ⟨hne, hmem⟩ := (hheld.mem_erase_iff).mp hd'
    show Function.update q.blocks d none d' ≠ none
    rw [Function.update_of_ne hne]
    exact h.live d' hmem
  · exact h.nodup_data.sublist (List.erase_sublist.append_left _)

end Outbound

/-! ## Sequences of calls -/

/-- The queue, the blocks that have been dequeued and not freed, and what `session_dequeue` has
given. -/
structure Outflow where
  q : Outbound
  held : List Nat
  got : List (Option Bytes)

/-- The calls; those of `session_enqueue` with the addresses that the allocator gives. -/
inductive QueueCall
  | enqueue (pkt : Bytes) (p data : Nat)
  | dequeue
  /-- the worker frees a payload that it has been given -/
  | free (data : Nat)

/-- What a call does to the FIFO. -/
def QueueCall.fifo : QueueCall → Option (Fifo.Op Bytes)
  | .enqueue pkt _ _ => some (.push pkt)
  | .dequeue => some .pop
  | .free _ => none

/-- The payloads that the calls enqueue. -/
def enqueued (calls : List QueueCall) : List Bytes :=
  (calls.filterMap QueueCall.fifo).filterMap Fifo.Op.pushed

namespace Outflow

/-- A new session, whatever else is allocated. -/
def start (nodes : Nat → Option Payload) (blocks : Nat → Option Bytes) : Outflow :=
  ⟨⟨nodes, blocks, none, none, 0⟩, [], []⟩

def step (s : Outflow) : QueueCall → Option Outflow
  | .enqueue pkt p data =>
    if s.q.unused p data then
      (s.q.sessionEnqueue pkt p data).map fun q => { s with q := q }
    else none
  | .dequeue =>
    match s.q.sessionDequeue with
    | some (some (data, len), q) =>
      (q.payloadAt data len).map fun payload => ⟨q, data :: s.held, s.got ++ [some payload]⟩
    | some (none, q) => some { s with q := q, got := s.got ++ [none] }
    | none => none
  | .free data =>
    if data ∈ s.held then
      some { s with
        q := { s.q with blocks := Function.update s.q.blocks data none }
        held := s.held.erase data }
    else none

def machine : Machine Outflow QueueCall := ⟨step⟩

/-- The pointers and the counter are those of a list, and no call follows a dangling pointer. -/
structure Consistent (s : Outflow) : Prop where
  nodes : ∃ xs, Linked s.q.link s.q.qhead xs ∧ s.q.qlen = xs.length ∧ s.q.qtail = xs.getLast?
  bound : s.q.qlen ≤ QUEUE_MAX
  ends : s.q.qhead = none ↔ s.q.qtail = none
  enqueues : ∀ pkt p data, s.q.unused p data = true →
    ∃ q, s.q.sessionEnqueue pkt p data = some q
  dequeues : ∃ t, s.step .dequeue = some t

/-- The queue has these cells. -/
abbrev Holds (s : Outflow) (cells : List Outbound.Cell) : Prop :=
  s.q.Represents s.held cells

/-- What the FIFO has, with the answers. -/
def fifo (s : Outflow) (cells : List Outbound.Cell) : List Bytes × List (Option Bytes) :=
  (cells.map Outbound.Cell.payload, s.got)

variable {s t : Outflow} {cells : List Outbound.Cell}

theorem step_dequeue (h : s.Holds cells) :
    ∃ t cells', s.step .dequeue = some t ∧ t.Holds cells' ∧
      t.fifo cells' = Fifo.step QUEUE_MAX (s.fifo cells) .pop := by
  cases cells with
  | nil =>
    refine ⟨{ s with got := s.got ++ [none] }, [], ?_, h, rfl⟩
    simp only [step, h.dequeue_nil]
  | cons c rest =>
    obtain ⟨q, hdequeue, hq, hpayload⟩ := h.dequeue
    refine ⟨⟨q, c.data :: s.held, s.got ++ [some c.payload]⟩, rest, ?_, hq, rfl⟩
    simp only [step, hdequeue, hpayload, Option.map_some]

/-- **Each call does to the cells what it does to the FIFO.** -/
theorem sim_step {call : QueueCall} (h : s.Holds cells) (hstep : s.step call = some t) :
    ∃ cells', t.Holds cells' ∧ t.fifo cells' = Fifo.run QUEUE_MAX (s.fifo cells) call.fifo.toList := by
  cases call with
  | enqueue pkt p data =>
    simp only [step] at hstep
    split at hstep
    · rename_i hunused
      obtain ⟨q, cells', hq, hcells', hpush⟩ := h.enqueue pkt hunused
      rw [hq] at hstep
      cases hstep
      exact ⟨cells', hcells', congrArg (·, s.got) hpush⟩
    · cases hstep
  | dequeue =>
    obtain ⟨t', cells', hdequeue, hcells', hpop⟩ := step_dequeue h
    rw [hdequeue] at hstep
    cases hstep
    exact ⟨cells', hcells', hpop⟩
  | free data =>
    simp only [step] at hstep
    split at hstep
    · rename_i hdata
      cases hstep
      exact ⟨cells, h.free hdata, rfl⟩
    · cases hstep

theorem sim_run {calls : List QueueCall} (h : s.Holds cells)
    (hrun : machine.run s calls = some t) :
    ∃ cells', t.Holds cells' ∧
      t.fifo cells' = Fifo.run QUEUE_MAX (s.fifo cells) (calls.filterMap QueueCall.fifo) := by
  induction calls generalizing s cells with
  | nil =>
    cases hrun
    exact ⟨cells, h, rfl⟩
  | cons call calls ih =>
    obtain ⟨u, hstep, hrun⟩ := machine.run_cons_eq_some.mp hrun
    obtain ⟨mid, hmid, hfirst⟩ := sim_step h hstep
    obtain ⟨cells', hcells', hrest⟩ := ih hmid hrun
    refine ⟨cells', hcells', ?_⟩
    have hcalls : (call :: calls).filterMap QueueCall.fifo =
        call.fifo.toList ++ calls.filterMap QueueCall.fifo := by
      cases call <;> rfl
    rw [hrest, hfirst, hcalls, Fifo.run, Fifo.run, Fifo.run, List.foldl_append]

theorem consistent_of_holds (h : s.Holds cells) : s.Consistent where
  nodes := ⟨_, h.chain, by rw [h.count, List.length_map], h.tail⟩
  bound := by
    rw [h.count]
    exact Int.ofNat_le.mpr h.bound
  ends := by
    rw [h.chain.head_eq, h.tail, List.head?_eq_none_iff, List.getLast?_eq_none_iff]
  enqueues pkt p data hunused := by
    obtain ⟨q, cells', hq, _⟩ := h.enqueue pkt hunused
    exact ⟨q, hq⟩
  dequeues := by
    obtain ⟨t, cells', ht, _⟩ := step_dequeue h
    exact ⟨t, ht⟩

/-- **The outbound queue is a bounded FIFO.** Whatever is allocated when the session is created and
whatever addresses the allocator gives, the payloads that are dequeued are those of the FIFO, in the
order of the calls that enqueued them and each at most once. -/
theorem queue_refines (nodes : Nat → Option Payload) (blocks : Nat → Option Bytes)
    (calls : List QueueCall) :
    machine.Always Consistent (start nodes blocks) calls ∧
      ∀ t, machine.run (start nodes blocks) calls = some t →
        t.got = (Fifo.run QUEUE_MAX ([], []) (calls.filterMap QueueCall.fifo)).2 ∧
        t.got.reduceOption.Sublist (enqueued calls) := by
  have hstart : (start nodes blocks).Holds [] := Outbound.represents_empty nodes blocks
  constructor
  · have hinv : machine.Always (fun s => ∃ cells, s.Holds cells) (start nodes blocks) calls := by
      apply machine.always_of_step
      · rintro s call t ⟨cells, h⟩ hstep
        obtain ⟨cells', h', _⟩ := sim_step h hstep
        exact ⟨cells', h'⟩
      · exact ⟨[], hstart⟩
    exact hinv.mono fun s ⟨cells, h⟩ => consistent_of_holds h
  · intro t hrun
    obtain ⟨cells, _, hfifo⟩ := sim_run hstart hrun
    have hgot : t.got = (Fifo.run QUEUE_MAX ([], []) (calls.filterMap QueueCall.fifo)).2 :=
      congrArg Prod.snd hfifo
    refine ⟨hgot, ?_⟩
    have hsublist := @Fifo.run_sublist Bytes QUEUE_MAX ([], []) (calls.filterMap QueueCall.fifo)
    rw [hgot]
    exact (List.sublist_append_left _ _).trans hsublist

end Outflow

end WebZapret.Relay
