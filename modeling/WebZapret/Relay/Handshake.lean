import WebZapret.Lib.Stream
import WebZapret.Relay.Packet

/-!
# The SOCKS5 handshake

`s5_handshake` offers the server "no authentication", and a password when there is a user, and then
follows the server's choice. It packs everything into `buf[300]`: an access outside it, and a peer
that makes the relay wait, are results of their own here. What the connection has sent is known in
every case.

The code does not remember what it has offered, and it compares the two lengths with 255 each and not
their sum with the buffer. `s5Handshake_eq` gives its exchange without the buffer; the main results
are `handshake_in_bounds_iff` and `handshake_conforms_iff`.
-/

namespace WebZapret.Relay

/-- A C string: its bytes up to the NUL that ends it. -/
structure CString where
  bytes : Bytes
  no_nul : 0 ∉ bytes

def CString.strlen (s : CString) : Nat := s.bytes.length

/-- The text of a `char *`, none for NULL. -/
def text (s : Option CString) : Bytes := s.elim [] CString.bytes

/-- Why `s5_handshake` does not return 0. -/
inductive Halt where
  /-- it returns -1 -/
  | failed
  /-- it does not return -/
  | waits
  /-- it leaves `buf` -/
  | overrun (i : Nat)
  /-- it reads through NULL -/
  | null
  deriving DecidableEq

def Halt.ofStop : Stop → Halt
  | .failed => .failed
  | .waits => .waits

/-- A computation on the connection, which it leaves in some state in any case. -/
abbrev Exchange (α : Type) := ExceptT Halt (StateM Conn) α

namespace Exchange

variable {α β : Type}

def memory (x : Except OutOfBounds α) : Exchange α := fun c =>
  match x with
  | .ok a => (.ok a, c)
  | .error e => (.error (.overrun e.index), c)

def loop (f : Conn → Except Stop α × Conn) : Exchange α := fun c =>
  ((f c).1.mapError Halt.ofStop, (f c).2)

theorem bind_apply (x : Exchange α) (f : α → Exchange β) (c : Conn) :
    (x >>= f) c = match x c with
      | (.ok a, c) => f a c
      | (.error h, c) => (.error h, c) := by
  show (let r := x c; ExceptT.bindCont f r.1 r.2) = _
  rcases x c with ⟨_ | a, c'⟩
  · rfl
  · rfl

@[simp] theorem memory_ok (a : α) (f : α → Exchange β) : (memory (.ok a) >>= f) = f a := rfl

@[simp] theorem memory_error (e : OutOfBounds) (f : α → Exchange β) :
    (memory (.error e) >>= f) = throw (.overrun e.index) := rfl

end Exchange

open Exchange

/-! ## The code -/

/-- `memcpy(buf + i, bytes, n)` -/
def store (buf : Bytes) (i : Nat) (bytes : Bytes) : Except OutOfBounds Bytes :=
  if i + bytes.length ≤ buf.length then
    .ok (buf.take i ++ bytes ++ buf.drop (i + bytes.length))
  else .error ⟨max i buf.length⟩

/-- `send_all(fd, buf, n)` -/
def sendAll (buf : Bytes) (n : Nat) : Exchange Unit := do
  let bytes ← memory (rdSlice buf 0 n)
  loop (Conn.sendLoop bytes)

/-- `recv_all(fd, buf, n)` -/
def recvAll (buf : Bytes) (n : Nat) : Exchange Bytes := do
  let bytes ← loop (Conn.recvLoop n [])
  memory (store buf 0 bytes)

/-- `*s` -/
def deref : Option CString → Exchange CString
  | some s => return s
  | none => throw .null

/-- The greeting in `uint8_t buf[300]`; nothing else of it is read before it is written. -/
def packGreeting (user : Option CString) : Except OutOfBounds Bytes := do
  let buf ← store (List.replicate 300 0) 0 [5]
  if text user ≠ [] then
    let buf ← store buf 1 [2]
    let buf ← store buf 2 [0x00]
    store buf 3 [0x02]
  else
    let buf ← store buf 1 [1]
    store buf 2 [0x00]

/-- The request for a password, in the same buffer. -/
def packRequest (buf : Bytes) (user password : CString) : Except OutOfBounds Bytes := do
  let buf ← store buf 0 [0x01]
  let buf ← store buf 1 [UInt8.ofNat user.strlen]
  let buf ← store buf 2 user.bytes
  let buf ← store buf (2 + user.strlen) [UInt8.ofNat password.strlen]
  store buf (3 + user.strlen) password.bytes

/-- `s5_handshake` -/
def s5Handshake (user password : Option CString) : Exchange Unit := do
  let buf ← memory (packGreeting user)
  let count ← memory (rd buf 1)
  sendAll buf (2 + count.toNat)
  let buf ← recvAll buf 2
  let ver ← memory (rd buf 0)
  if ver ≠ 5 then throw .failed
  else
    let method ← memory (rd buf 1)
    if method = 0x02 then
      let user ← deref user
      if user.strlen > 255 then throw .failed
      else
        let password ← deref password
        if password.strlen > 255 then throw .failed
        else
          let buf ← memory (packRequest buf user password)
          sendAll buf (3 + user.strlen + password.strlen)
          let buf ← recvAll buf 2
          let ver ← memory (rd buf 0)
          let status ← memory (rd buf 1)
          if ver ≠ 1 ∨ status ≠ 0 then throw .failed else return ()
    else if method ≠ 0x00 then throw .failed
    else return ()

/-! ## Without the buffer -/

/-- The methods that the greeting offers. -/
def offered (user : Option CString) : List UInt8 := if text user ≠ [] then [0x00, 0x02] else [0x00]

/-- The greeting. -/
def greeting (user : Option CString) : Bytes :=
  5 :: UInt8.ofNat (offered user).length :: offered user

/-- The request for a password. -/
def request (user password : CString) : Bytes :=
  [0x01, UInt8.ofNat user.strlen] ++ user.bytes ++ [UInt8.ofNat password.strlen] ++ password.bytes

def recvTwo : Exchange (UInt8 × UInt8) := do
  match ← loop (Conn.recvLoop 2 []) with
  | [a, b] => return (a, b)
  | _ => throw .failed

/-- The subnegotiation of the password. -/
def subnegotiate (user password : CString) : Exchange Unit := do
  loop (Conn.sendLoop (request user password))
  let (ver, status) ← recvTwo
  if ver ≠ 1 ∨ status ≠ 0 then throw .failed else return ()

/-- What follows the server's choice of 0x02. -/
def authenticate (user password : Option CString) : Exchange Unit := do
  let user ← deref user
  if user.strlen > 255 then throw .failed
  else
    let password ← deref password
    if password.strlen > 255 then throw .failed
    else if 3 + user.strlen + password.strlen ≤ 300 then subnegotiate user password
    else throw (.overrun 300)

/-- What `s5_handshake` sends and receives. -/
def negotiate (user password : Option CString) : Exchange Unit := do
  loop (Conn.sendLoop (greeting user))
  let (ver, method) ← recvTwo
  if ver ≠ 5 then throw .failed
  else if method = 0x02 then authenticate user password
  else if method ≠ 0x00 then throw .failed
  else return ()

/-- Writing behind what has been written. -/
theorem store_front {buf front bytes : Bytes} {i : Nat} (hi : front.length = i)
    (hfits : i + bytes.length ≤ buf.length) :
    store (front ++ buf.drop i) i bytes = .ok (front ++ bytes ++ buf.drop (i + bytes.length)) := by
  have hle : i + bytes.length ≤ (front ++ buf.drop i).length := by
    rw [List.length_append, List.length_drop]
    omega
  have hdrop : (front ++ buf.drop i).drop (i + bytes.length) = buf.drop (i + bytes.length) := by
    rw [← hi, List.drop_length_add_append, List.drop_drop]
  rw [store, if_pos hle, List.take_left' hi, hdrop]

theorem packGreeting_eq (user : Option CString) :
    ∃ rest, packGreeting user = .ok (greeting user ++ rest) ∧ (greeting user ++ rest).length = 300 := by
  unfold packGreeting
  generalize hbuf : List.replicate 300 (0 : UInt8) = buf
  have hlength : buf.length = 300 := by rw [← hbuf, List.length_replicate]
  have hstore {front : Bytes} {i : Nat} (b : UInt8) (hi : front.length = i) (hlt : i < 300) :
      store (front ++ buf.drop i) i [b] = .ok (front ++ [b] ++ buf.drop (i + 1)) := by
    refine store_front hi ?_
    rw [hlength]
    exact hlt
  have hver : store buf 0 [5] = .ok ([5] ++ buf.drop 1) := @hstore [] 0 5 rfl (by decide)
  rw [hver]
  by_cases huser : text user ≠ []
  · have hgreeting : greeting user = [5, 2, 0x00, 0x02] := by
      rw [greeting, offered, if_pos huser]
      rfl
    refine ⟨buf.drop 4, ?_, ?_⟩
    · show (if text user ≠ [] then store ([5] ++ buf.drop 1) 1 [2] >>= _ else _) = _
      rw [if_pos huser, @hstore [5] 1 2 rfl (by decide)]
      show (store ([5, 2] ++ buf.drop 2) 2 [0x00] >>= _) = _
      rw [@hstore [5, 2] 2 0 rfl (by decide)]
      show store ([5, 2, 0x00] ++ buf.drop 3) 3 [0x02] = _
      rw [@hstore [5, 2, 0] 3 2 rfl (by decide), hgreeting]
      rfl
    · rw [hgreeting, List.length_append, List.length_drop, hlength]
      rfl
  · have hgreeting : greeting user = [5, 1, 0x00] := by
      rw [greeting, offered, if_neg huser]
      rfl
    refine ⟨buf.drop 3, ?_, ?_⟩
    · show (if text user ≠ [] then _ else store ([5] ++ buf.drop 1) 1 [1] >>= _) = _
      rw [if_neg huser, @hstore [5] 1 1 rfl (by decide)]
      show store ([5, 1] ++ buf.drop 2) 2 [0x00] = _
      rw [@hstore [5, 1] 2 0 rfl (by decide), hgreeting]
      rfl
    · rw [hgreeting, List.length_append, List.length_drop, hlength]
      rfl

theorem length_request (user password : CString) :
    (request user password).length = 3 + user.strlen + password.strlen := by
  simp only [request, List.length_append, List.length_cons, List.length_nil, CString.strlen]
  omega

/-- **The request fits, or the password is written beyond the buffer.** -/
theorem packRequest_eq {buf : Bytes} (hbuf : buf.length = 300) {user : CString} (password : CString)
    (huser : user.strlen ≤ 255) :
    packRequest buf user password =
      if 3 + user.strlen + password.strlen ≤ 300 then
        .ok (request user password ++ buf.drop (3 + user.strlen + password.strlen))
      else .error ⟨300⟩ := by
  let ulen := UInt8.ofNat user.strlen
  let plen := UInt8.ofNat password.strlen
  have hhead : store buf 0 [0x01] = .ok ([0x01] ++ buf.drop 1) :=
    @store_front buf [] [0x01] 0 rfl (by rw [hbuf, List.length_singleton]; decide)
  have hulen : store ([0x01] ++ buf.drop 1) 1 [ulen] = .ok ([0x01, ulen] ++ buf.drop 2) :=
    store_front rfl (by rw [hbuf, List.length_singleton]; decide)
  have huserBytes : store ([0x01, ulen] ++ buf.drop 2) 2 user.bytes =
      .ok ([0x01, ulen] ++ user.bytes ++ buf.drop (2 + user.strlen)) :=
    store_front rfl (by rw [hbuf]; exact Nat.add_le_add_left huser 2 |>.trans (by decide))
  have hplen : store ([0x01, ulen] ++ user.bytes ++ buf.drop (2 + user.strlen)) (2 + user.strlen)
      [plen] = .ok ([0x01, ulen] ++ user.bytes ++ [plen] ++ buf.drop (2 + user.strlen + 1)) := by
    refine store_front ?_ ?_
    · rw [List.length_append]
      rfl
    · rw [hbuf, List.length_singleton]
      omega
  have hlength : ([0x01, ulen] ++ user.bytes ++ [plen]).length = 3 + user.strlen := by
    simp only [List.length_append, List.length_cons, List.length_nil, CString.strlen]
    omega
  have hindex : 2 + user.strlen + 1 = 3 + user.strlen := by omega
  rw [hindex] at hplen
  unfold packRequest
  rw [hhead]
  show (store ([0x01] ++ buf.drop 1) 1 [ulen] >>= _) = _
  rw [hulen]
  show (store ([0x01, ulen] ++ buf.drop 2) 2 user.bytes >>= _) = _
  rw [huserBytes]
  show (store _ (2 + user.strlen) [plen] >>= _) = _
  rw [hplen]
  show store _ (3 + user.strlen) password.bytes = _
  split
  · rename_i hfits
    refine store_front hlength ?_
    rw [hbuf]
    exact hfits
  · rename_i hlong
    have hlong' : ¬3 + user.strlen + password.bytes.length ≤
        ([0x01, ulen] ++ user.bytes ++ [plen] ++ buf.drop (3 + user.strlen)).length := by
      rw [List.length_append, hlength, List.length_drop, hbuf]
      change ¬3 + user.strlen + password.strlen ≤ _
      omega
    have hmax : max (3 + user.strlen)
        ([0x01, ulen] ++ user.bytes ++ [plen] ++ buf.drop (3 + user.strlen)).length = 300 := by
      rw [List.length_append, hlength, List.length_drop, hbuf]
      omega
    rw [store, if_neg hlong', hmax]

/-! ### The two exchanges -/

theorem sendAll_front {front rest : Bytes} {n : Nat} (hn : front.length = n) :
    sendAll (front ++ rest) n = loop (Conn.sendLoop front) := by
  have hle : 0 + n ≤ (front ++ rest).length := by
    rw [List.length_append]
    omega
  rw [sendAll, rdSlice, if_pos hle, memory_ok, List.drop_zero, List.take_left' hn]

/-- Two bytes are received into the buffer, and read from it. -/
theorem recvAll_two {α : Type} {buf : Bytes} (hbuf : buf.length = 300) {f : Bytes → Exchange α}
    {g : UInt8 × UInt8 → Exchange α} (h : ∀ a b, f ([a, b] ++ buf.drop 2) = g (a, b)) :
    (recvAll buf 2 >>= f) = recvTwo >>= g := by
  funext c
  have hreceived := (Conn.recvLoop_received (Nat.zero_le 2) : Conn.Received 2 [] c _).ok
  unfold recvAll recvTwo
  simp only [bind_apply, loop]
  rcases hrecv : c.recvLoop 2 [] with ⟨e | bytes, c'⟩
  · rfl
  · rw [hrecv] at hreceived
    obtain ⟨a, b, rfl⟩ := List.length_eq_two.mp (hreceived bytes rfl).1
    have hstore : store buf 0 [a, b] = .ok ([a, b] ++ buf.drop 2) :=
      @store_front buf [] [a, b] 0 rfl (by rw [hbuf]; show 2 ≤ 300; decide)
    dsimp only [Except.mapError]
    rw [hstore]
    exact congrFun (h a b) c'

/-- **What `s5_handshake` does on the connection.** -/
theorem s5Handshake_eq (user password : Option CString) :
    s5Handshake user password = negotiate user password := by
  obtain ⟨rest, hgreeting, hbuf⟩ := packGreeting_eq user
  have hcount : rd (greeting user ++ rest) 1 = .ok (UInt8.ofNat (offered user).length) := rfl
  have hlength : (greeting user).length = 2 + (UInt8.ofNat (offered user).length).toNat := by
    unfold greeting offered
    by_cases huser : text user ≠ []
    · rw [if_pos huser]
      rfl
    · rw [if_neg huser]
      rfl
  unfold s5Handshake negotiate
  rw [hgreeting, memory_ok, hcount, memory_ok, sendAll_front hlength]
  refine bind_congr fun _ => recvAll_two hbuf fun ver method => ?_
  have hver (rest : Bytes) : rd ([ver, method] ++ rest) 0 = .ok ver := rfl
  have hmethod (rest : Bytes) : rd ([ver, method] ++ rest) 1 = .ok method := rfl
  have hbuf' : ([ver, method] ++ (greeting user ++ rest).drop 2).length = 300 := by
    rw [List.length_append, List.length_drop, hbuf]
    rfl
  rw [hver, memory_ok, hmethod, memory_ok]
  generalize [ver, method] ++ (greeting user ++ rest).drop 2 = buf at hbuf'
  refine ite_congr rfl (fun _ => rfl) fun _ => ite_congr rfl (fun _ => ?_) fun _ => rfl
  refine bind_congr fun user => ite_congr rfl (fun _ => rfl) fun huser => ?_
  refine bind_congr fun password => ite_congr rfl (fun _ => rfl) fun _ => ?_
  rw [packRequest_eq hbuf' password (Nat.le_of_not_lt huser)]
  by_cases hfits : 3 + user.strlen + password.strlen ≤ 300
  · rw [if_pos hfits, if_pos hfits, memory_ok, sendAll_front (length_request user password)]
    refine bind_congr fun _ => recvAll_two ?_ fun ver status => rfl
    rw [List.length_append, length_request, List.length_drop, hbuf']
    omega
  · rw [if_neg hfits, if_neg hfits, memory_error]

/-! ## What the parts of the exchange do -/

/-- A failure, or a peer that makes the relay wait. -/
def Stopped {α : Type} (r : Except Halt α × Conn) : Prop :=
  ∀ h, r.1 = .error h → h = .failed ∨ h = .waits ∧ r.2.Waiting

theorem stopped_ofStop {α : Type} {r : Except Stop α × Conn}
    (h : r.1 = .error .waits → r.2.Waiting) : Stopped (r.1.mapError Halt.ofStop, r.2) := by
  rintro halt hhalt
  rcases r with ⟨e | a, c⟩
  · cases e with
    | failed =>
      cases hhalt
      exact .inl rfl
    | waits =>
      cases hhalt
      exact .inr ⟨rfl, h rfl⟩
  · cases hhalt

theorem stopped_failed {α : Type} (c : Conn) : Stopped ((throw .failed : Exchange α) c) := by
  rintro h ⟨⟩
  exact .inl rfl

variable {user password : Option CString} {c : Conn}

/-- Two bytes are received, and nothing is sent. -/
structure ReceivedTwo (c : Conn) (r : Except Halt (UInt8 × UInt8) × Conn) : Prop where
  sent : r.2.sent = c.sent
  room : r.2.room = c.room
  ok : ∀ a b, r.1 = .ok (a, b) → c.stream = a :: b :: r.2.stream
  stopped : Stopped r

theorem recvTwo_received (c : Conn) : ReceivedTwo c (recvTwo c) := by
  have hreceived : Conn.Received 2 [] c (c.recvLoop 2 []) := Conn.recvLoop_received (Nat.zero_le 2)
  unfold recvTwo
  rw [bind_apply, loop]
  rcases hrecv : c.recvLoop 2 [] with ⟨e | bytes, c'⟩
  · rw [hrecv] at hreceived
    exact ⟨hreceived.sent, hreceived.room, nofun, fun h hh => stopped_ofStop hreceived.waits h
      (by cases hh; rfl)⟩
  · rw [hrecv] at hreceived
    obtain ⟨hlength, hstream⟩ := hreceived.ok bytes rfl
    obtain ⟨a, b, rfl⟩ := List.length_eq_two.mp hlength
    refine ⟨hreceived.sent, hreceived.room, ?_, nofun⟩
    rintro a' b' heq
    cases heq
    exact hstream

/-- The next two bytes of the stream are received, however it is cut. -/
theorem recvTwo_of_stream {a b : UInt8} {rest : Bytes} (h : c.stream = a :: b :: rest) :
    ∃ c', recvTwo c = (.ok (a, b), c') := by
  have htwo : [a, b].length = 2 ∧ c.stream = [a, b] ++ rest := ⟨rfl, h⟩
  obtain ⟨c', hrecv, _⟩ := Conn.recvAll_eq_ok_iff.mpr htwo
  rw [Conn.recvAll_eq] at hrecv
  unfold recvTwo
  rw [bind_apply, loop]
  rcases hloop : c.recvLoop 2 [] with ⟨e | bytes, c''⟩
  · rw [hloop] at hrecv
    cases hrecv
  · rw [hloop] at hrecv
    cases hrecv
    exact ⟨_, rfl⟩

/-- A message is sent, and two bytes are received. -/
def ask (bytes : Bytes) : Exchange (UInt8 × UInt8) := do
  loop (Conn.sendLoop bytes)
  recvTwo

theorem ask_bind {α : Type} (bytes : Bytes) (f : UInt8 × UInt8 → Exchange α) :
    (loop (Conn.sendLoop bytes) >>= fun _ => recvTwo >>= f) = ask bytes >>= f :=
  (bind_assoc ..).symm

/-- The answer is the next two bytes of the stream, if there is room for the message. -/
structure Answered (bytes : Bytes) (c : Conn) (r : Except Halt (UInt8 × UInt8) × Conn) : Prop where
  stopped : Stopped r
  sent : r.2.sent = (c.sendLoop bytes).2.sent
  ok : ∀ a b, r.1 = .ok (a, b) → (c.sendLoop bytes).1 = .ok () ∧
    Conn.roomAfter c.room bytes.length = some r.2.room ∧ c.stream = a :: b :: r.2.stream
  complete : ∀ room a b rest, Conn.roomAfter c.room bytes.length = some room →
    c.stream = a :: b :: rest → r.1 = .ok (a, b)

theorem ask_answered (bytes : Bytes) (c : Conn) : Answered bytes c (ask bytes c) := by
  have hsent := Conn.sendLoop_sent bytes c
  have hafter := Conn.roomAfter_eq bytes c
  unfold ask
  rw [bind_apply, loop]
  rcases hsend : c.sendLoop bytes with ⟨e | ⟨⟩, c₁⟩
  · rw [hsend] at hsent hafter
    refine ⟨fun h hh => stopped_ofStop hsent.waits h (by cases hh; rfl), ?_, nofun, ?_⟩
    · rw [hsend]
      rfl
    · intro room a b rest hroom
      rw [hafter] at hroom
      cases hroom
  · rw [hsend] at hsent hafter
    have hreceived := recvTwo_received c₁
    dsimp only [Except.mapError]
    refine ⟨hreceived.stopped, ?_, fun a b hab => ⟨?_, ?_, ?_⟩, fun room a b rest _ hrest => ?_⟩
    · rw [hsend]
      exact hreceived.sent
    · rw [hsend]
    · rw [hreceived.room]
      exact hafter
    · exact hsent.stream.symm.trans (hreceived.ok a b hab)
    · obtain ⟨c', hok⟩ := recvTwo_of_stream (hsent.stream.trans hrest)
      rw [hok]

/-- There is room for the greeting, and the server asks for a password. -/
def Asked (user : Option CString) (c : Conn) : Prop :=
  ∃ room rest, Conn.roomAfter c.room (greeting user).length = some room ∧
    c.stream = 5 :: 0x02 :: rest

/-- The exchange up to the server's choice: it stops, the choice is not 0x02, or it is. -/
theorem negotiate_cases (user password : Option CString) (c : Conn) :
    (∃ r, negotiate user password c = r ∧ ¬Asked user c ∧ Stopped r ∧
      r.2.sent <+: c.sent ++ greeting user ∧
      (r.1 = .ok () → r.2.sent = c.sent ++ greeting user ∧ c.stream = 5 :: 0x00 :: r.2.stream)) ∨
    ∃ c₂, Conn.roomAfter c.room (greeting user).length = some c₂.room ∧
      c.stream = 5 :: 0x02 :: c₂.stream ∧ c₂.sent = c.sent ++ greeting user ∧
      negotiate user password c = authenticate user password c₂ := by
  have hsent := Conn.sendLoop_sent (greeting user) c
  have hanswered := ask_answered (greeting user) c
  unfold negotiate
  rw [ask_bind, bind_apply]
  rcases hask : ask (greeting user) c with ⟨h | ⟨ver, method⟩, c₂⟩
  · rw [hask] at hanswered
    refine .inl ⟨_, rfl, ?_, fun h hh => hanswered.stopped h (by cases hh; rfl), ?_, nofun⟩
    · rintro ⟨room, rest, hroom, hrest⟩
      cases hanswered.complete room 5 0x02 rest hroom hrest
    · obtain ⟨k, hk⟩ := hsent.sent
      rw [hanswered.sent, hk]
      exact (List.prefix_append_right_inj c.sent).mpr (List.take_prefix k _)
  · rw [hask] at hanswered
    obtain ⟨hok, hroom, hread⟩ := hanswered.ok ver method rfl
    have hall : c₂.sent = c.sent ++ greeting user := hanswered.sent.trans (hsent.ok hok)
    have hasked : Asked user c ↔ ver = 5 ∧ method = 0x02 := by
      constructor
      · rintro ⟨_, rest, _, hrest⟩
        rw [hread] at hrest
        cases hrest
        exact ⟨rfl, rfl⟩
      · rintro ⟨rfl, rfl⟩
        exact ⟨c₂.room, c₂.stream, hroom, hread⟩
    dsimp only
    by_cases hver : ver ≠ 5
    · rw [if_pos hver]
      exact .inl ⟨_, rfl, fun h => hver (hasked.mp h).1, stopped_failed c₂, hall ▸ List.prefix_rfl,
        nofun⟩
    rw [if_neg hver]
    by_cases hmethod : method = 0x02
    · rw [if_pos hmethod]
      refine .inr ⟨c₂, hroom, ?_, hall, rfl⟩
      rw [hread, not_not.mp hver, hmethod]
    rw [if_neg hmethod]
    by_cases hnone : method ≠ 0x00
    · rw [if_pos hnone]
      exact .inl ⟨_, rfl, fun h => hmethod (hasked.mp h).2, stopped_failed c₂,
        hall ▸ List.prefix_rfl, nofun⟩
    · rw [if_neg hnone]
      refine .inl ⟨_, rfl, fun h => hmethod (hasked.mp h).2, nofun, hall ▸ List.prefix_rfl, ?_⟩
      rintro -
      refine ⟨hall, ?_⟩
      rw [hread, not_not.mp hver, not_not.mp hnone]
      rfl

/-- The request is sent, and the subnegotiation succeeds only if the server accepts the password. -/
structure Subnegotiated (user password : CString) (c : Conn) (r : Except Halt Unit × Conn) :
    Prop where
  stopped : Stopped r
  sent : r.2.sent = (c.sendLoop (request user password)).2.sent
  ok : r.1 = .ok () → (c.sendLoop (request user password)).1 = .ok () ∧
    c.stream = 0x01 :: 0x00 :: r.2.stream

theorem subnegotiate_sent (user password : CString) (c : Conn) :
    Subnegotiated user password c (subnegotiate user password c) := by
  have hanswered := ask_answered (request user password) c
  unfold subnegotiate
  rw [ask_bind, bind_apply]
  rcases hask : ask (request user password) c with ⟨h | ⟨ver, status⟩, c₂⟩
  · rw [hask] at hanswered
    exact ⟨fun h hh => hanswered.stopped h (by cases hh; rfl), hanswered.sent, nofun⟩
  · rw [hask] at hanswered
    obtain ⟨hok, _, hread⟩ := hanswered.ok ver status rfl
    dsimp only
    by_cases hreply : ver ≠ 1 ∨ status ≠ 0
    · rw [if_pos hreply]
      exact ⟨stopped_failed c₂, hanswered.sent, nofun⟩
    · rw [if_neg hreply]
      obtain ⟨hver, hstatus⟩ := not_or.mp hreply
      refine ⟨nofun, hanswered.sent, fun _ => ⟨hok, ?_⟩⟩
      rw [hread, not_not.mp hver, not_not.mp hstatus]
      rfl

/-- Its request is sent as far as there is room. -/
theorem subnegotiate_room {user password : CString} {c : Conn} {k : Nat} {room : List Nat}
    (hroom : c.room = (k + 1) :: room) :
    ∃ rest, (subnegotiate user password c).2.sent = c.sent ++ 0x01 :: rest := by
  rw [(subnegotiate_sent user password c).sent]
  exact Conn.sendLoop_room hroom

theorem subnegotiate_no_room {user password : CString} {c : Conn}
    (h : ∀ k room, c.room ≠ (k + 1) :: room) :
    (subnegotiate user password c).1 ≠ .ok () ∧ (subnegotiate user password c).2.sent = c.sent := by
  have hrequest : request user password ≠ [] := List.cons_ne_nil _ _
  obtain ⟨hne, hnothing⟩ := Conn.sendLoop_no_room hrequest h
  have hsent := subnegotiate_sent user password c
  exact ⟨fun hok => hne (hsent.ok hok).1, hsent.sent.trans hnothing⟩

/-- How `authenticate` ends without the subnegotiation. -/
theorem authenticate_cases (user password : Option CString) (c : Conn) :
    (authenticate user password c = (.error .null, c) ∧
      (user = none ∨ ∃ u, user = some u ∧ u.strlen ≤ 255 ∧ password = none)) ∨
    (authenticate user password c = (.error .failed, c) ∧
      ∃ u, user = some u ∧ (255 < u.strlen ∨ ∃ p, password = some p ∧ 255 < p.strlen)) ∨
    ∃ u p, user = some u ∧ password = some p ∧ u.strlen ≤ 255 ∧ p.strlen ≤ 255 ∧
      authenticate user password c =
        if 3 + u.strlen + p.strlen ≤ 300 then subnegotiate u p c
        else (.error (.overrun 300), c) := by
  cases user with
  | none => exact .inl ⟨rfl, .inl rfl⟩
  | some u =>
    by_cases hu : u.strlen > 255
    · refine .inr (.inl ⟨?_, u, rfl, .inl hu⟩)
      show (if u.strlen > 255 then _ else _ : Exchange Unit) c = _
      rw [if_pos hu]
      rfl
    have hauthenticate : authenticate (some u) password c = (do
        let password ← deref password
        if password.strlen > 255 then throw .failed
        else if 3 + u.strlen + password.strlen ≤ 300 then subnegotiate u password
        else throw (.overrun 300) : Exchange Unit) c := by
      show (if u.strlen > 255 then _ else _ : Exchange Unit) c = _
      rw [if_neg hu]
    cases password with
    | none => exact .inl ⟨hauthenticate, .inr ⟨u, rfl, Nat.le_of_not_lt hu, rfl⟩⟩
    | some p =>
      have hpassword : authenticate (some u) (some p) c =
          (if p.strlen > 255 then throw .failed
          else if 3 + u.strlen + p.strlen ≤ 300 then subnegotiate u p
          else throw (.overrun 300) : Exchange Unit) c := hauthenticate
      by_cases hp : p.strlen > 255
      · rw [if_pos hp] at hpassword
        exact .inr (.inl ⟨hpassword, u, rfl, .inr ⟨p, rfl, hp⟩⟩)
      · rw [if_neg hp] at hpassword
        refine .inr (.inr ⟨u, p, rfl, rfl, Nat.le_of_not_lt hu, Nat.le_of_not_lt hp, ?_⟩)
        rw [hpassword]
        split
        · rfl
        · rfl

/-! ## The buffer -/

/-- **Where the exchange leaves the buffer.** -/
theorem overrun_iff (user password : CString) (c : Conn) (i : Nat) :
    (s5Handshake (some user) (some password) c).1 = .error (.overrun i) ↔
      i = 300 ∧ Asked (some user) c ∧ user.strlen ≤ 255 ∧ password.strlen ≤ 255 ∧
        300 < 3 + user.strlen + password.strlen := by
  have hoverrun {r : Except Halt Unit × Conn} (hr : Stopped r) : r.1 ≠ .error (.overrun i) := by
    intro h
    obtain hfailed | ⟨hwaits, _⟩ := hr _ h
    · cases hfailed
    · cases hwaits
  rw [s5Handshake_eq]
  obtain ⟨r, heq, hasked, hstopped, _⟩ | ⟨c₂, hroom, hstream, _, heq⟩ :=
    negotiate_cases (some user) (some password) c
  · rw [heq]
    exact iff_of_false (hoverrun hstopped) fun h => hasked h.2.1
  have hasked : Asked (some user) c := ⟨c₂.room, c₂.stream, hroom, hstream⟩
  rw [heq]
  obtain ⟨hnull, hnone⟩ | ⟨hfailed, u, hu, hlong⟩ | ⟨u, p, hu, hp, hushort, hpshort, hrest⟩ :=
    authenticate_cases (some user) (some password) c₂
  · obtain hnone | ⟨_, _, _, hnone⟩ := hnone
    · cases hnone
    · cases hnone
  · rw [hfailed]
    cases hu
    refine iff_of_false nofun ?_
    rintro ⟨_, _, hushort, hpshort, _⟩
    obtain hlong | ⟨p, hp, hlong⟩ := hlong
    · omega
    · cases hp
      omega
  · cases hu
    cases hp
    rw [hrest]
    by_cases hfits : 3 + user.strlen + password.strlen ≤ 300
    · rw [if_pos hfits]
      exact iff_of_false (hoverrun (subnegotiate_sent user password c₂).stopped) fun h => by omega
    · rw [if_neg hfits]
      constructor
      · intro h
        cases h
        exact ⟨rfl, hasked, hushort, hpshort, Nat.lt_of_not_le hfits⟩
      · rintro ⟨rfl, _⟩
        rfl

/-- No index of the buffer that is read or written is beyond its 300 bytes. -/
def InBounds (user password : CString) (c : Conn) : Prop :=
  ∀ i, (s5Handshake (some user) (some password) c).1 ≠ .error (.overrun i)

/-- **The buffer is not left, if and only if the request fits whenever it is asked for.** -/
theorem handshake_in_bounds_iff {user password : CString} (huser : user.strlen ≤ 255)
    (hpassword : password.strlen ≤ 255) (c : Conn) :
    InBounds user password c ↔
      (Asked (some user) c → 3 + user.strlen + password.strlen ≤ 300) := by
  constructor
  · intro h hasked
    by_contra hlong
    exact h 300 ((overrun_iff user password c 300).mpr
      ⟨rfl, hasked, huser, hpassword, Nat.lt_of_not_le hlong⟩)
  · intro h i hi
    obtain ⟨_, hasked, _, _, hlong⟩ := (overrun_iff user password c i).mp hi
    exact absurd (h hasked) (Nat.not_le_of_lt hlong)

/-- Text of one letter. -/
def letters (n : Nat) : CString where
  bytes := List.replicate n 0x61
  no_nul := fun h => by cases (List.mem_replicate.mp h).2

theorem strlen_letters (n : Nat) : (letters n).strlen = n := List.length_replicate

/-- A server that asks for a password. -/
def asking : Conn where
  portions := [[5, 2], [1, 0]]
  ending := .closed
  room := [400, 400]
  sent := []

theorem handshake_in_bounds_long : InBounds (letters 150) (letters 147) asking :=
  (@handshake_in_bounds_iff (letters 150) (letters 147)
    (by rw [strlen_letters]; decide) (by rw [strlen_letters]; decide) asking).mpr
    fun _ => by rw [strlen_letters, strlen_letters]

/-- Each of the two lengths passes its check; their sum is not checked. -/
theorem handshake_overrun :
    (letters 200).strlen ≤ 255 ∧ ¬InBounds (letters 200) (letters 200) asking := by
  have hlength : (letters 200).strlen ≤ 255 := by
    rw [strlen_letters]
    decide
  refine ⟨hlength, fun h => h 300 ((overrun_iff (letters 200) (letters 200) asking 300).mpr ?_)⟩
  refine ⟨rfl, ⟨[400], [1, 0], rfl, rfl⟩, hlength, hlength, ?_⟩
  rw [strlen_letters]
  decide

/-! ## The protocol -/

/-- What RFC 1928 and RFC 1929 ask of a client: 0 for a method that it has offered, with the password
sent and accepted; -1 otherwise, unless the server keeps it waiting; and no password that it has not
offered to give. -/
structure Negotiated (user password : Option CString) (c : Conn) (r : Except Halt Unit × Conn) :
    Prop where
  accepts : r.1 = .ok () →
    (0x00 ∈ offered user ∧ c.stream = 5 :: 0x00 :: r.2.stream ∧ r.2.sent = c.sent ++ greeting user) ∨
    (0x02 ∈ offered user ∧ c.stream = 5 :: 0x02 :: 0x01 :: 0x00 :: r.2.stream ∧
      ∃ u p, user = some u ∧ password = some p ∧
        r.2.sent = c.sent ++ greeting user ++ request u p)
  rejects : Stopped r
  silent : 0x02 ∉ offered user → r.2.sent <+: c.sent ++ greeting user

/-- The server asks for a password where there is none to give: one of the two is NULL, or there is
no user and the password can be sent. -/
def Unprepared (user password : Option CString) (c : Conn) : Prop :=
  ∃ room rest, Conn.roomAfter c.room (greeting user).length = some room ∧
    c.stream = 5 :: 0x02 :: rest ∧
    (user = none ∨ ∃ u, user = some u ∧ u.strlen ≤ 255 ∧
      (password = none ∨ u.bytes = [] ∧ ∃ p, password = some p ∧ p.strlen ≤ 255 ∧
        ∃ k more, room = (k + 1) :: more))

theorem password_mem_offered : 0x02 ∈ offered user ↔ text user ≠ [] := by
  unfold offered
  split
  · rename_i huser
    exact iff_of_true (by decide) huser
  · rename_i huser
    exact iff_of_false (by decide) huser

theorem none_mem_offered (user : Option CString) : 0x00 ∈ offered user := by
  unfold offered
  split
  · decide
  · decide

theorem not_conforms_of_unprepared (h : Unprepared user password c) :
    ¬Negotiated user password c (s5Handshake user password c) := by
  intro hconforms
  obtain ⟨room, rest, hroom, hstream, hmissing⟩ := h
  rw [s5Handshake_eq] at hconforms
  obtain ⟨_, _, hasked, _⟩ | ⟨c₂, hroom', _, hsent, heq⟩ := negotiate_cases user password c
  · exact hasked ⟨room, rest, hroom, hstream⟩
  rw [heq] at hconforms
  obtain rfl : room = c₂.room := Option.some.inj (hroom.symm.trans hroom')
  obtain ⟨hnull, _⟩ | ⟨_, u, hu, hlong⟩ | ⟨u, p, hu, hp, hushort, hpshort, hrest⟩ :=
    authenticate_cases user password c₂
  · rw [hnull] at hconforms
    obtain h | ⟨h, _⟩ := hconforms.rejects .null rfl
    · cases h
    · cases h
  · obtain hnone | ⟨u', hu', hushort, hmissing⟩ := hmissing
    · rw [hu] at hnone
      cases hnone
    obtain rfl : u = u' := Option.some.inj (hu.symm.trans hu')
    obtain hlong | ⟨p, hp, hlong⟩ := hlong
    · omega
    obtain hnone | ⟨_, p', hp', hpshort, _⟩ := hmissing
    · rw [hp] at hnone
      cases hnone
    · obtain rfl : p = p' := Option.some.inj (hp.symm.trans hp')
      omega
  · obtain hnone | ⟨u', hu', _, hmissing⟩ := hmissing
    · rw [hu] at hnone
      cases hnone
    obtain rfl : u = u' := Option.some.inj (hu.symm.trans hu')
    obtain hnone | ⟨hempty, p', hp', _, k, more, hmore⟩ := hmissing
    · rw [hp] at hnone
      cases hnone
    obtain rfl : p = p' := Option.some.inj (hp.symm.trans hp')
    -- an empty user: the request is sent, and it is a part of no greeting
    have hfits : 3 + u.strlen + p.strlen ≤ 300 := by
      have hzero : u.strlen = 0 := by rw [CString.strlen, hempty, List.length_nil]
      omega
    rw [if_pos hfits] at hrest
    have hnot : 0x02 ∉ offered user := by
      rw [password_mem_offered, hu]
      exact not_not.mpr hempty
    obtain ⟨sent, hleaked⟩ := @subnegotiate_room u p c₂ k more hmore
    have hprefix := hconforms.silent hnot
    rw [hrest, hleaked, hsent] at hprefix
    have hle := hprefix.length_le
    rw [List.length_append, List.length_cons] at hle
    omega

theorem conforms_of_prepared
    (hfits : ∀ u ∈ user, ∀ p ∈ password, 3 + u.strlen + p.strlen ≤ 300)
    (h : ¬Unprepared user password c) : Negotiated user password c (s5Handshake user password c) := by
  rw [s5Handshake_eq]
  obtain ⟨r, heq, _, hstopped, hsent, hok⟩ | ⟨c₂, hroom, hstream, hsent, heq⟩ :=
    negotiate_cases user password c
  · rw [heq]
    refine ⟨fun hr => .inl ?_, hstopped, fun _ => hsent⟩
    obtain ⟨hall, hnone⟩ := hok hr
    exact ⟨none_mem_offered user, hnone, hall⟩
  rw [heq]
  obtain ⟨_, hnull⟩ | ⟨hfailed, _⟩ | ⟨u, p, hu, hp, hushort, hpshort, hrest⟩ :=
    authenticate_cases user password c₂
  · refine absurd ⟨c₂.room, c₂.stream, hroom, hstream, ?_⟩ h
    obtain hnone | ⟨u, hu, hushort, hnone⟩ := hnull
    · exact .inl hnone
    · exact .inr ⟨u, hu, hushort, .inl hnone⟩
  · rw [hfailed]
    exact ⟨nofun, stopped_failed c₂, fun _ => hsent ▸ List.prefix_rfl⟩
  · rw [if_pos (hfits u hu p hp)] at hrest
    rw [hrest]
    obtain ⟨hstopped, hrequest, hok⟩ := subnegotiate_sent u p c₂
    by_cases hempty : u.bytes = []
    · have hfull : ∀ k more, c₂.room ≠ (k + 1) :: more := fun k more hmore =>
        h ⟨c₂.room, c₂.stream, hroom, hstream,
          .inr ⟨u, hu, hushort, .inr ⟨hempty, p, hp, hpshort, k, more, hmore⟩⟩⟩
      obtain ⟨hne, hnothing⟩ := @subnegotiate_no_room u p c₂ hfull
      exact ⟨fun hr => absurd hr hne, hstopped, fun _ => (hnothing.trans hsent) ▸ List.prefix_rfl⟩
    · have hoffered : 0x02 ∈ offered user := by
        rw [password_mem_offered, hu]
        exact hempty
      refine ⟨fun hr => .inr ⟨hoffered, ?_, u, p, hu, hp, ?_⟩, hstopped, absurd hoffered⟩
      · rw [hstream, (hok hr).2]
      · rw [hrequest, (Conn.sendLoop_sent (request u p) c₂).ok (hok hr).1, hsent]

/-- **The exchange conforms, if and only if the server does not ask for a password that there is not
to give.** -/
theorem handshake_conforms_iff
    (hfits : ∀ u ∈ user, ∀ p ∈ password, 3 + u.strlen + p.strlen ≤ 300) :
    Negotiated user password c (s5Handshake user password c) ↔ ¬Unprepared user password c := by
  constructor
  · intro hconforms h
    exact not_conforms_of_unprepared h hconforms
  · exact conforms_of_prepared hfits

theorem handshake_conforms_one :
    Negotiated (some (letters 1)) (some (letters 1)) asking
      (s5Handshake (some (letters 1)) (some (letters 1)) asking) := by
  refine (handshake_conforms_iff ?_).mpr ?_
  · rintro u ⟨⟩ p ⟨⟩
    rw [strlen_letters]
    decide
  · rintro ⟨_, _, _, _, hnone | ⟨u, hu, _, hnone | ⟨hempty, _⟩⟩⟩
    · cases hnone
    · cases hnone
    · cases hu
      cases hempty

/-- Without a user the greeting offers no password, and the password is sent when the server asks for
it. -/
theorem handshake_leaks :
    ¬Negotiated (some (letters 0)) (some (letters 1)) asking
      (s5Handshake (some (letters 0)) (some (letters 1)) asking) := by
  refine not_conforms_of_unprepared ⟨[400], [1, 0], rfl, rfl, .inr ⟨letters 0, rfl, ?_, .inr ?_⟩⟩
  · exact Nat.zero_le 255
  · exact ⟨rfl, letters 1, rfl, by rw [strlen_letters]; decide, 399, [], rfl⟩

end WebZapret.Relay
