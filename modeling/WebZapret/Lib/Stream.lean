import WebZapret.Lib.Bytes
import WebZapret.Lib.Failing

/-!
# Stream sockets

A connected stream socket as a program sees it: `recv` finds the peer's bytes in portions that
the program cannot predict, and `send` takes as many of its bytes as there is room for.

A program that loops until it has the bytes it asked for does not depend on the portions
(`recvAll_eq_ok_iff`), and one that loops until its bytes are taken sends them all
(`sendAll_eq_ok`).
-/

namespace WebZapret

/-- What `recv` gives when everything that was sent has been read. -/
inductive Ending where
  /-- 0: the peer has closed the connection -/
  | closed
  /-- -1 -/
  | error
  /-- it does not return: the peer keeps the connection open -/
  | silent
  deriving DecidableEq

/-- Why a program does not go on. -/
inductive Stop where
  | failed
  | waits
  deriving DecidableEq

/-- A stream socket: the portions in which the peer's bytes are found, what follows them, how
many bytes the calls of `send` have room for, and what was sent. -/
structure Conn where
  portions : List Bytes
  ending : Ending
  room : List Nat
  sent : Bytes
  deriving DecidableEq

namespace Conn

/-- Everything the peer sends. -/
def stream (c : Conn) : Bytes := c.portions.flatten

/-- What a `recv` of at most `n` bytes gives, and the portions left: none at the end. -/
def take (n : Nat) : List Bytes → Option (Bytes × List Bytes)
  | [] => none
  | [] :: portions => take n portions
  | (b :: bs) :: portions => some ((b :: bs).take n, (b :: bs).drop n :: portions)

/-- `recv(fd, buf, n, 0)`: the bytes received, or none for a result below 0. -/
def recv (n : Nat) (c : Conn) : Except Stop (Option Bytes × Conn) :=
  match take n c.portions with
  | some (bytes, portions) => .ok (some bytes, { c with portions := portions })
  | none =>
    match c.ending with
    | .closed => .ok (some [], c)
    | .error => .ok (none, c)
    | .silent => .error .waits

/-- `send(fd, bytes, length, 0)`: the number of bytes taken, which is 0 also for an error. -/
def send (bytes : Bytes) (c : Conn) : Except Stop (Nat × Conn) :=
  match c.room with
  | [] => .error .waits
  | k :: room => .ok (min k bytes.length, { c with room := room, sent := c.sent ++ bytes.take k })

theorem take_eq_some {n : Nat} {portions rest : List Bytes} {bytes : Bytes}
    (h : take n portions = some (bytes, rest)) :
    bytes ++ rest.flatten = portions.flatten ∧ bytes.length ≤ n ∧ (0 < n → bytes ≠ []) := by
  induction portions with
  | nil => cases h
  | cons portion portions ih =>
    cases portion with
    | nil => exact ih h
    | cons b bs =>
      rw [take, Option.some.injEq, Prod.mk.injEq] at h
      obtain ⟨rfl, rfl⟩ := h
      refine ⟨?_, List.length_take_le n _, fun hn => ?_⟩
      · rw [List.flatten_cons, ← List.append_assoc, List.take_append_drop, List.flatten_cons]
      · obtain ⟨n, rfl⟩ := Nat.exists_eq_succ_of_ne_zero hn.ne'
        exact List.cons_ne_nil b _

theorem take_eq_none {n : Nat} {portions : List Bytes} (h : take n portions = none) :
    portions.flatten = [] := by
  induction portions with
  | nil => rfl
  | cons portion portions ih =>
    cases portion with
    | nil => exact ih h
    | cons b bs => cases h

/-- **Bytes that are received are the next of the stream.** -/
theorem recv_bytes {n : Nat} {c c' : Conn} {bytes : Bytes} (hne : bytes ≠ [])
    (h : c.recv n = .ok (some bytes, c')) :
    bytes ++ c'.stream = c.stream ∧ bytes.length ≤ n := by
  unfold recv at h
  cases htake : take n c.portions with
  | none =>
    rw [htake] at h
    cases hending : c.ending <;> simp [hending] at h
    exact absurd h.1 hne
  | some taken =>
    obtain ⟨taken, rest⟩ := taken
    simp only [htake, Except.ok.injEq, Prod.mk.injEq, Option.some.injEq] at h
    obtain ⟨rfl, rfl⟩ := h
    obtain ⟨hstream, hle, -⟩ := take_eq_some htake
    exact ⟨hstream, hle⟩

/-- Any other result of `recv` is the end of the stream. -/
theorem recv_end {n : Nat} {c : Conn} (hn : 0 < n)
    (h : ∀ bytes c', bytes ≠ [] → c.recv n ≠ .ok (some bytes, c')) : c.stream = [] := by
  cases htake : take n c.portions with
  | none => exact take_eq_none htake
  | some taken =>
    obtain ⟨taken, rest⟩ := taken
    have hne := (take_eq_some htake).2.2 hn
    exact absurd (by rw [recv, htake]) (h taken { c with portions := rest } hne)

/-! ## Loops -/

/-- `while (got < n) { r = recv(...); if (r <= 0) return -1; got += r; }`, from the bytes got. -/
def recvAll (n : Nat) (got : Bytes) (c : Conn) : Except Stop (Bytes × Conn) :=
  if got.length < n then
    match c.recv (n - got.length) with
    | .ok (some (b :: bs), c) => recvAll n (got ++ b :: bs) c
    | .ok _ => .error .failed
    | .error e => .error e
  else .ok (got, c)
termination_by n - got.length
decreasing_by
  rw [List.length_append, List.length_cons]
  omega

/-- `while (sent < n) { r = send(...); if (r <= 0) return -1; sent += r; }`, from the bytes
left. -/
def sendAll (bytes : Bytes) (c : Conn) : Except Stop Conn :=
  if 0 < bytes.length then
    match c.send bytes with
    | .ok (r + 1, c) => sendAll (bytes.drop (r + 1)) c
    | .ok (0, _) => .error .failed
    | .error e => .error e
  else .ok c
termination_by bytes.length
decreasing_by
  rw [List.length_drop]
  omega

/-- The receiving loop ends with the stream's bytes up to the number asked for. -/
theorem recvAll_eq_ok {n : Nat} {got bytes : Bytes} {c c' : Conn} (hgot : got.length ≤ n)
    (h : c.recvAll n got = .ok (bytes, c')) :
    bytes.length = n ∧ got ++ c.stream = bytes ++ c'.stream := by
  induction got, c using recvAll.induct n with
  | case1 got c hlt b bs c₁ hrecv ih =>
    obtain ⟨hstream, hle⟩ := recv_bytes (List.cons_ne_nil b bs) hrecv
    rw [recvAll, if_pos hlt, hrecv] at h
    obtain ⟨hlength, hbytes⟩ := ih (by rw [List.length_append]; omega) h
    refine ⟨hlength, ?_⟩
    rw [← hbytes, List.append_assoc, hstream]
  | case2 got c hlt r hne hrecv =>
    rw [recvAll, if_pos hlt, hrecv] at h
    obtain ⟨_ | _ | ⟨b, bs⟩, c₁⟩ := r
    · cases h
    · cases h
    · exact (hne b bs c₁ rfl).elim
  | case3 got c hlt e hrecv =>
    rw [recvAll, if_pos hlt, hrecv] at h
    cases h
  | case4 got c hlt =>
    rw [recvAll, if_neg hlt] at h
    cases h
    exact ⟨by omega, rfl⟩

/-- The receiving loop ends if the stream is long enough. -/
theorem exists_recvAll {n : Nat} {got : Bytes} {c : Conn} (h : n ≤ got.length + c.stream.length) :
    ∃ bytes c', c.recvAll n got = .ok (bytes, c') := by
  induction got, c using recvAll.induct n with
  | case1 got c hlt b bs c₁ hrecv ih =>
    obtain ⟨hstream, -⟩ := recv_bytes (List.cons_ne_nil b bs) hrecv
    rw [recvAll, if_pos hlt, hrecv]
    apply ih
    rwa [List.length_append, Nat.add_assoc, ← List.length_append, hstream]
  | case2 got c hlt r hne hrecv =>
    have hend : c.stream = [] := by
      apply recv_end (n := n - got.length) (by omega)
      intro bytes c' hbytes heq
      obtain ⟨b, bs, rfl⟩ := List.exists_cons_of_ne_nil hbytes
      rw [hrecv] at heq
      exact hne b bs c' (Except.ok.inj heq)
    rw [hend, List.length_nil] at h
    omega
  | case3 got c hlt e hrecv =>
    have hend : c.stream = [] := by
      apply recv_end (n := n - got.length) (by omega)
      intro bytes c' _ heq
      rw [hrecv] at heq
      cases heq
    rw [hend, List.length_nil] at h
    omega
  | case4 got c hlt => exact ⟨got, c, by rw [recvAll, if_neg hlt]⟩

/-- **Receiving does not depend on the portions.** The loop from nothing got ends with the first
`n` bytes of the stream, whenever it has so many. -/
theorem recvAll_eq_ok_iff {n : Nat} {c : Conn} {bytes rest : Bytes} :
    (∃ c', c.recvAll n [] = .ok (bytes, c') ∧ c'.stream = rest) ↔
      bytes.length = n ∧ c.stream = bytes ++ rest := by
  constructor
  · intro h
    obtain ⟨c', h, rfl⟩ := h
    exact recvAll_eq_ok (Nat.zero_le n) h
  · intro h
    obtain ⟨hlength, hstream⟩ := h
    obtain ⟨bytes', c', hrecv⟩ : ∃ bytes c', c.recvAll n [] = .ok (bytes, c') := by
      apply exists_recvAll
      rw [hstream, List.length_append]
      omega
    obtain ⟨hlength', hstream'⟩ := recvAll_eq_ok (Nat.zero_le n) hrecv
    rw [List.nil_append, hstream] at hstream'
    obtain ⟨rfl, rfl⟩ := List.append_inj hstream' (hlength.trans hlength'.symm)
    exact ⟨c', hrecv, rfl⟩

/-- What the sending loop takes for sent is sent, and nothing is received meanwhile. -/
theorem sendAll_eq_ok {bytes : Bytes} {c c' : Conn} (h : c.sendAll bytes = .ok c') :
    c'.sent = c.sent ++ bytes ∧ c'.stream = c.stream := by
  induction bytes, c using sendAll.induct with
  | case1 bytes c hlt r c₁ hsend ih =>
    rw [sendAll, if_pos hlt, hsend] at h
    obtain ⟨hsent, hstream⟩ := ih h
    cases hroom : c.room with
    | nil =>
      rw [send, hroom] at hsend
      cases hsend
    | cons k room =>
      rw [send, hroom, Except.ok.injEq, Prod.mk.injEq] at hsend
      obtain ⟨hr, rfl⟩ := hsend
      have htake : bytes.take k = bytes.take (r + 1) :=
        List.take_eq_take_min.trans (congrArg (List.take · bytes) hr)
      refine ⟨?_, hstream⟩
      rw [hsent, htake, List.append_assoc, List.take_append_drop]
  | case2 bytes c hlt c₁ hsend =>
    rw [sendAll, if_pos hlt, hsend] at h
    cases h
  | case3 bytes c hlt e hsend =>
    rw [sendAll, if_pos hlt, hsend] at h
    cases h
  | case4 bytes c hlt =>
    rw [sendAll, if_neg hlt] at h
    cases h
    have hnil : bytes = [] := List.length_eq_zero_iff.mp (by omega)
    exact ⟨by rw [hnil, List.append_nil], rfl⟩

/-! ## What a loop leaves -/

/-- `recvAll` with the connection that it leaves, also when it fails. -/
def recvLoop (n : Nat) (got : Bytes) (c : Conn) : Except Stop Bytes × Conn :=
  if got.length < n then
    match c.recv (n - got.length) with
    | .ok (some (b :: bs), c) => recvLoop n (got ++ b :: bs) c
    | .ok (_, c) => (.error .failed, c)
    | .error e => (.error e, c)
  else (.ok got, c)
termination_by n - got.length
decreasing_by
  rw [List.length_append, List.length_cons]
  omega

/-- `sendAll` with the connection that it leaves, also when it fails. -/
def sendLoop (bytes : Bytes) (c : Conn) : Except Stop Unit × Conn :=
  if 0 < bytes.length then
    match c.send bytes with
    | .ok (r + 1, c) => sendLoop (bytes.drop (r + 1)) c
    | .ok (0, c) => (.error .failed, c)
    | .error e => (.error e, c)
  else (.ok (), c)
termination_by bytes.length
decreasing_by
  rw [List.length_drop]
  omega

theorem recvAll_eq (n : Nat) (got : Bytes) (c : Conn) :
    c.recvAll n got = (c.recvLoop n got).1.map fun bytes => (bytes, (c.recvLoop n got).2) := by
  induction got, c using recvAll.induct n with
  | case1 got c hlt b bs c₁ hrecv ih =>
    rw [recvAll, recvLoop, if_pos hlt, if_pos hlt, hrecv]
    exact ih
  | case2 got c hlt r hne hrecv =>
    rw [recvAll, recvLoop, if_pos hlt, if_pos hlt, hrecv]
    obtain ⟨_ | _ | ⟨b, bs⟩, c₁⟩ := r
    · rfl
    · rfl
    · exact (hne b bs c₁ rfl).elim
  | case3 got c hlt e hrecv =>
    rw [recvAll, recvLoop, if_pos hlt, if_pos hlt, hrecv]
    rfl
  | case4 got c hlt =>
    rw [recvAll, recvLoop, if_neg hlt, if_neg hlt]
    rfl

theorem sendAll_eq (bytes : Bytes) (c : Conn) :
    c.sendAll bytes = (c.sendLoop bytes).1.map fun _ => (c.sendLoop bytes).2 := by
  induction bytes, c using sendAll.induct with
  | case1 bytes c hlt r c₁ hsend ih =>
    rw [sendAll, sendLoop, if_pos hlt, if_pos hlt, hsend]
    exact ih
  | case2 bytes c hlt c₁ hsend =>
    rw [sendAll, sendLoop, if_pos hlt, if_pos hlt, hsend]
    rfl
  | case3 bytes c hlt e hsend =>
    rw [sendAll, sendLoop, if_pos hlt, if_pos hlt, hsend]
    rfl
  | case4 bytes c hlt =>
    rw [sendAll, sendLoop, if_neg hlt, if_neg hlt]
    rfl

/-- What a call that waits waits for: the peer's bytes, or room for one's own. -/
def Waiting (c : Conn) : Prop := (c.ending = .silent ∧ c.stream = []) ∨ c.room = []

/-- `recv` sends nothing, and waits only for a silent peer. -/
theorem recv_rest {n : Nat} {c c' : Conn} {r : Option Bytes} (h : c.recv n = .ok (r, c')) :
    c'.sent = c.sent ∧ c'.room = c.room := by
  unfold recv at h
  split at h
  · cases h
    exact ⟨rfl, rfl⟩
  · split at h
    · cases h
      exact ⟨rfl, rfl⟩
    · cases h
      exact ⟨rfl, rfl⟩
    · cases h

theorem recv_waits {n : Nat} {c : Conn} {e : Stop} (h : c.recv n = .error e) :
    e = .waits ∧ c.Waiting := by
  unfold recv at h
  split at h
  · cases h
  · rename_i htake
    split at h
    · cases h
    · cases h
    · rename_i hending
      cases h
      exact ⟨rfl, .inl ⟨hending, take_eq_none htake⟩⟩

/-- The receiving loop sends nothing; when it ends, it has the next bytes of the stream. -/
structure Received (n : Nat) (got : Bytes) (c : Conn) (r : Except Stop Bytes × Conn) : Prop where
  sent : r.2.sent = c.sent
  room : r.2.room = c.room
  ok : ∀ bytes, r.1 = .ok bytes → bytes.length = n ∧ got ++ c.stream = bytes ++ r.2.stream
  waits : r.1 = .error .waits → r.2.Waiting

theorem recvLoop_received {n : Nat} {got : Bytes} {c : Conn} (hgot : got.length ≤ n) :
    Received n got c (c.recvLoop n got) := by
  have hok : ∀ bytes, (c.recvLoop n got).1 = .ok bytes →
      bytes.length = n ∧ got ++ c.stream = bytes ++ (c.recvLoop n got).2.stream := by
    intro bytes hbytes
    refine recvAll_eq_ok hgot ?_
    rw [recvAll_eq, hbytes]
    rfl
  suffices hrest : (c.recvLoop n got).2.sent = c.sent ∧ (c.recvLoop n got).2.room = c.room ∧
      ((c.recvLoop n got).1 = .error .waits → (c.recvLoop n got).2.Waiting) from
    ⟨hrest.1, hrest.2.1, hok, hrest.2.2⟩
  clear hok hgot
  induction got, c using recvAll.induct n with
  | case1 got c hlt b bs c₁ hrecv ih =>
    obtain ⟨hsent, hroom⟩ := recv_rest hrecv
    rw [recvLoop, if_pos hlt, hrecv]
    exact ⟨ih.1.trans hsent, ih.2.1.trans hroom, ih.2.2⟩
  | case2 got c hlt r hne hrecv =>
    obtain ⟨r, c₁⟩ := r
    obtain ⟨hsent, hroom⟩ := recv_rest hrecv
    rw [recvLoop, if_pos hlt, hrecv]
    rcases r with _ | _ | ⟨b, bs⟩
    · exact ⟨hsent, hroom, nofun⟩
    · exact ⟨hsent, hroom, nofun⟩
    · exact (hne b bs c₁ rfl).elim
  | case3 got c hlt e hrecv =>
    rw [recvLoop, if_pos hlt, hrecv]
    exact ⟨rfl, rfl, fun _ => (recv_waits hrecv).2⟩
  | case4 got c hlt =>
    rw [recvLoop, if_neg hlt]
    exact ⟨rfl, rfl, nofun⟩

/-- The sending loop receives nothing, and sends a part of its bytes; all of them when it ends. -/
structure Sent (bytes : Bytes) (c : Conn) (r : Except Stop Unit × Conn) : Prop where
  stream : r.2.stream = c.stream
  sent : ∃ k, r.2.sent = c.sent ++ bytes.take k
  ok : r.1 = .ok () → r.2.sent = c.sent ++ bytes
  waits : r.1 = .error .waits → r.2.Waiting

theorem sendLoop_sent (bytes : Bytes) (c : Conn) : Sent bytes c (c.sendLoop bytes) := by
  have hok : (c.sendLoop bytes).1 = .ok () → (c.sendLoop bytes).2.sent = c.sent ++ bytes := by
    intro hok
    refine (sendAll_eq_ok ?_).1
    rw [sendAll_eq, hok]
    rfl
  suffices hrest : (c.sendLoop bytes).2.stream = c.stream ∧
      (∃ k, (c.sendLoop bytes).2.sent = c.sent ++ bytes.take k) ∧
      ((c.sendLoop bytes).1 = .error .waits → (c.sendLoop bytes).2.Waiting) from
    ⟨hrest.1, hrest.2.1, hok, hrest.2.2⟩
  clear hok
  induction bytes, c using sendAll.induct with
  | case1 bytes c hlt r c₁ hsend ih =>
    obtain ⟨hstream, ⟨k, hk⟩, hwaits⟩ := ih
    rw [sendLoop, if_pos hlt, hsend]
    cases hroom : c.room with
    | nil =>
      rw [send, hroom] at hsend
      cases hsend
    | cons m room =>
      rw [send, hroom, Except.ok.injEq, Prod.mk.injEq] at hsend
      obtain ⟨hr, rfl⟩ := hsend
      have htake : bytes.take m = bytes.take (r + 1) :=
        List.take_eq_take_min.trans (congrArg (List.take · bytes) hr)
      refine ⟨hstream, ⟨r + 1 + k, ?_⟩, hwaits⟩
      rw [hk, htake, List.append_assoc, ← List.take_add]
  | case2 bytes c hlt c₁ hsend =>
    rw [sendLoop, if_pos hlt, hsend]
    cases hroom : c.room with
    | nil =>
      rw [send, hroom] at hsend
      cases hsend
    | cons m room =>
      rw [send, hroom, Except.ok.injEq, Prod.mk.injEq] at hsend
      obtain ⟨_, rfl⟩ := hsend
      exact ⟨rfl, ⟨m, rfl⟩, nofun⟩
  | case3 bytes c hlt e hsend =>
    rw [sendLoop, if_pos hlt, hsend]
    refine ⟨rfl, ⟨0, by simp⟩, fun _ => .inr ?_⟩
    cases hroom : c.room with
    | nil => rfl
    | cons m room =>
      rw [send, hroom] at hsend
      cases hsend
  | case4 bytes c hlt =>
    rw [sendLoop, if_neg hlt]
    exact ⟨rfl, ⟨0, by simp⟩, nofun⟩

/-- The room left when `n` bytes have been taken; none if they are not all taken. -/
def roomAfter : List Nat → Nat → Option (List Nat)
  | room, 0 => some room
  | [], _ + 1 => none
  | 0 :: _, _ + 1 => none
  | (k + 1) :: room, n + 1 => roomAfter room (n - k)

/-- **The sending loop ends if and only if there is room.** -/
theorem roomAfter_eq (bytes : Bytes) (c : Conn) :
    roomAfter c.room bytes.length =
      (c.sendLoop bytes).1.toOption.map fun _ => (c.sendLoop bytes).2.room := by
  induction bytes, c using sendAll.induct with
  | case1 bytes c hlt r c₁ hsend ih =>
    rw [sendLoop, if_pos hlt, hsend]
    dsimp only
    rw [← ih]
    cases hroom : c.room with
    | nil =>
      rw [send, hroom] at hsend
      cases hsend
    | cons m room =>
      rw [send, hroom, Except.ok.injEq, Prod.mk.injEq] at hsend
      obtain ⟨hr, rfl⟩ := hsend
      obtain ⟨n, hn⟩ := Nat.exists_eq_succ_of_ne_zero hlt.ne'
      cases m with
      | zero =>
        rw [Nat.zero_min] at hr
        cases hr
      | succ k =>
        have hleft : n - k = (bytes.drop (r + 1)).length := by
          rw [List.length_drop]
          omega
        rw [hn, roomAfter, hleft]
  | case2 bytes c hlt c₁ hsend =>
    rw [sendLoop, if_pos hlt, hsend]
    obtain ⟨n, hn⟩ := Nat.exists_eq_succ_of_ne_zero hlt.ne'
    cases hroom : c.room with
    | nil =>
      rw [send, hroom] at hsend
      cases hsend
    | cons m room =>
      rw [send, hroom, Except.ok.injEq, Prod.mk.injEq] at hsend
      have hm : m = 0 := by omega
      rw [hn, hm]
      rfl
  | case3 bytes c hlt e hsend =>
    rw [sendLoop, if_pos hlt, hsend]
    obtain ⟨n, hn⟩ := Nat.exists_eq_succ_of_ne_zero hlt.ne'
    cases hroom : c.room with
    | nil =>
      rw [hn]
      rfl
    | cons m room =>
      rw [send, hroom] at hsend
      cases hsend
  | case4 bytes c hlt =>
    have hzero : bytes.length = 0 := Nat.eq_zero_of_not_pos hlt
    rw [sendLoop, if_neg hlt, hzero, roomAfter]
    rfl

/-- When there is room for a byte, one is sent. -/
theorem sendLoop_room {b : UInt8} {bytes : Bytes} {c : Conn} {k : Nat} {room : List Nat}
    (hroom : c.room = (k + 1) :: room) :
    ∃ rest, (c.sendLoop (b :: bytes)).2.sent = c.sent ++ b :: rest := by
  have hlt : 0 < (b :: bytes).length := Nat.succ_pos _
  have hsend : c.send (b :: bytes) = .ok (min k bytes.length + 1,
      { c with room := room, sent := c.sent ++ b :: bytes.take k }) := by
    rw [send, hroom]
    show Except.ok (min (k + 1) (bytes.length + 1), _) = _
    rw [Nat.add_min_add_right]
    rfl
  rw [sendLoop, if_pos hlt, hsend]
  dsimp only
  generalize hleft : (b :: bytes).drop (min k bytes.length + 1) = left
  obtain ⟨j, hj⟩ := (sendLoop_sent left
    { c with room := room, sent := c.sent ++ b :: bytes.take k }).sent
  refine ⟨bytes.take k ++ left.take j, hj.trans ?_⟩
  rw [List.append_assoc, List.cons_append]

/-- When there is none, the loop does not end and nothing is sent. -/
theorem sendLoop_no_room {bytes : Bytes} {c : Conn} (hne : bytes ≠ [])
    (h : ∀ k room, c.room ≠ (k + 1) :: room) :
    (c.sendLoop bytes).1 ≠ .ok () ∧ (c.sendLoop bytes).2.sent = c.sent := by
  rw [sendLoop, if_pos (List.length_pos_of_ne_nil hne)]
  cases hroom : c.room with
  | nil =>
    rw [send, hroom]
    exact ⟨nofun, rfl⟩
  | cons k room =>
    cases k with
    | zero =>
      have hsend : c.send bytes = .ok (0, { c with room := room, sent := c.sent ++ [] }) := by
        rw [send, hroom]
        show Except.ok (min 0 bytes.length, _) = _
        rw [Nat.zero_min]
        rfl
      rw [hsend]
      exact ⟨nofun, List.append_nil c.sent⟩
    | succ k => exact absurd hroom (h k room)

end Conn

end WebZapret
