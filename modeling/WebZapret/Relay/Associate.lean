import WebZapret.Lib.Sockaddr
import WebZapret.Lib.Stream
import WebZapret.Relay.Packet

/-!
# UDP ASSOCIATE

`s5_udp_associate` asks the SOCKS5 server for a UDP relay and stores the endpoint of its reply,
to which `relay_send` later sends every frame of the session. It accepts exactly the replies it
should, however they are cut into portions, but it stores the port without `htons`: on a
little-endian host the frames go to the port with its bytes exchanged.

Main result: `associate_conforms_iff`.
-/

namespace WebZapret.Relay

/-! ## The exchange -/

def afInet : UInt16 := 2

/-- `req` -/
def associateRequest : Bytes := [5, 3, 0, 1, 0, 0, 0, 0, 0, 0]

/-- `s5_udp_associate`: `*relay` where it returns 0; a failure is a return of -1. -/
def s5UdpAssociate (c : Conn) : Except Stop (SockaddrIn × Conn) := do
  let c ← c.sendAll associateRequest
  let (rsp, c) ← c.recvAll 4 []
  match rsp with
  | [ver, rep, rsv, atyp] =>
    if ver ≠ 5 ∨ rep ≠ 0 ∨ rsv ≠ 0 then throw .failed
    else if atyp = 1 then
      let (rsp, c) ← c.recvAll 6 []
      match rsp with
      | [b4, b5, b6, b7, b8, b9] =>
        return ({ family := afInet, port := UInt16.ofNat (word b8 b9), addr := [b4, b5, b6, b7],
                  length_addr := rfl }, c)
      | _ => throw .failed
    else throw .failed
  | _ => throw .failed

/-- The address to which `connect_socks` connects. -/
def connectSocksAddress (order : ByteOrder) (addr : Bytes) (h : addr.length = 4) (port : Nat) :
    SockaddrIn where
  family := afInet
  port := order.htons (UInt16.ofNat port)
  addr := addr
  length_addr := h

/-- A datagram, as `sendto` is asked to send it. -/
structure Datagram where
  addr : Bytes
  port : Nat
  data : Bytes
  deriving DecidableEq

/-- `relay_send` with its `sendto`, for a session with this relay endpoint. -/
def relaySendTo (order : ByteOrder) (relay : SockaddrIn) (s : Flow) (payload : Bytes) :
    Option Datagram :=
  (relaySend s payload).map fun frame => ⟨relay.addr, relay.netPort order, frame⟩

/-! ## Replies -/

/-- The six bytes of an endpoint in a reply. -/
structure Endpoint where
  b4 : UInt8
  b5 : UInt8
  b6 : UInt8
  b7 : UInt8
  b8 : UInt8
  b9 : UInt8
  deriving DecidableEq

namespace Endpoint

/-- A reply that grants the request. -/
def reply (e : Endpoint) : Bytes := [5, 0, 0, 1, e.b4, e.b5, e.b6, e.b7, e.b8, e.b9]

/-- What `s5_udp_associate` makes of the endpoint. -/
def stored (e : Endpoint) : SockaddrIn where
  family := afInet
  port := UInt16.ofNat (word e.b8 e.b9)
  addr := [e.b4, e.b5, e.b6, e.b7]
  length_addr := rfl

theorem reply_append_inj {e e' : Endpoint} {rest rest' : Bytes}
    (h : e.reply ++ rest = e'.reply ++ rest') : e = e' := by
  obtain ⟨hreply, -⟩ := List.append_inj h rfl
  cases e
  cases e'
  simpa [reply] using hreply

end Endpoint

theorem exists_endpoint {bytes : Bytes} (h : bytes.length = 6) :
    ∃ e : Endpoint, bytes = [e.b4, e.b5, e.b6, e.b7, e.b8, e.b9] := by
  match bytes, h with
  | [b4, b5, b6, b7, b8, b9], _ => exact ⟨⟨b4, b5, b6, b7, b8, b9⟩, rfl⟩

variable {c c₁ : Conn} {relay : SockaddrIn}

theorem stream_of_associate (hsend : c.sendAll associateRequest = .ok c₁) {c' : Conn}
    (h : s5UdpAssociate c = .ok (relay, c')) :
    ∃ (e : Endpoint) (rest : Bytes), c.stream = e.reply ++ rest ∧ relay = e.stored := by
  obtain ⟨-, hstream⟩ := Conn.sendAll_eq_ok hsend
  rw [s5UdpAssociate, Failing.bind_eq_ok] at h
  obtain ⟨c₀, hsend', h⟩ := h
  rw [hsend] at hsend'
  cases hsend'
  obtain ⟨⟨rsp, c₂⟩, hrecv, h⟩ := Failing.bind_eq_ok.mp h
  obtain ⟨hlength, hhead⟩ := Conn.recvAll_eq_ok_iff.mp ⟨c₂, hrecv, rfl⟩
  obtain ⟨ver, rep, rsv, atyp, rfl⟩ := List.length_eq_four.mp hlength
  by_cases hgranted : ver ≠ 5 ∨ rep ≠ 0 ∨ rsv ≠ 0
  · simp only [hgranted, if_true] at h
    cases h
  simp only [hgranted, if_false] at h
  by_cases hatyp : atyp = 1
  · simp only [hatyp, if_true] at h
    obtain ⟨⟨rsp, c₃⟩, hrecv', h⟩ := Failing.bind_eq_ok.mp h
    obtain ⟨hlength', htail⟩ := Conn.recvAll_eq_ok_iff.mp ⟨c₃, hrecv', rfl⟩
    obtain ⟨e, rfl⟩ := exists_endpoint hlength'
    cases h
    simp only [not_or, not_not] at hgranted
    obtain ⟨rfl, rfl, rfl⟩ := hgranted
    refine ⟨e, c₃.stream, ?_, rfl⟩
    rw [← hstream, hhead, htail, hatyp]
    rfl
  · simp only [hatyp, if_false] at h
    cases h

theorem associate_of_stream (hsend : c.sendAll associateRequest = .ok c₁) {e : Endpoint}
    {rest : Bytes} (h : c.stream = e.reply ++ rest) :
    ∃ c', s5UdpAssociate c = .ok (e.stored, c') := by
  obtain ⟨-, hstream⟩ := Conn.sendAll_eq_ok hsend
  let endpoint : Bytes := [e.b4, e.b5, e.b6, e.b7, e.b8, e.b9]
  have hhead : c₁.stream = [5, 0, 0, 1] ++ (endpoint ++ rest) := hstream.trans h
  obtain ⟨c₂, hrecv, htail⟩ := Conn.recvAll_eq_ok_iff.mpr ⟨rfl, hhead⟩
  obtain ⟨c₃, hrecv', -⟩ := Conn.recvAll_eq_ok_iff.mpr ⟨rfl, htail⟩
  refine ⟨c₃, ?_⟩
  rw [s5UdpAssociate, Failing.bind_eq_ok]
  refine ⟨c₁, hsend, Failing.bind_eq_ok.mpr ⟨_, hrecv, ?_⟩⟩
  exact Failing.bind_eq_ok.mpr ⟨_, hrecv', rfl⟩

/-! ## Where the frames go -/

/-- The request is granted for the right streams, and then the endpoint is stored in network
order and every frame goes there. -/
structure Conforms (order : ByteOrder) (c : Conn) : Prop where
  accepts : (∃ relay c', s5UdpAssociate c = .ok (relay, c')) ↔
    ∃ (e : Endpoint) (rest : Bytes), c.stream = e.reply ++ rest
  goes : ∀ relay c' (e : Endpoint) rest, s5UdpAssociate c = .ok (relay, c') →
    c.stream = e.reply ++ rest →
    order.memory16 relay.port = [e.b8, e.b9] ∧
    ∀ s payload d, relaySendTo order relay s payload = some d →
      d.addr = [e.b4, e.b5, e.b6, e.b7] ∧ d.port = 256 * e.b8.toNat + e.b9.toNat

theorem relaySendTo_eq_some {order : ByteOrder} {s : Flow} {payload : Bytes} {d : Datagram}
    (h : relaySendTo order relay s payload = some d) :
    d.addr = relay.addr ∧ d.port = relay.netPort order := by
  obtain ⟨frame, -, rfl⟩ := Option.map_eq_some_iff.mp h
  exact ⟨rfl, rfl⟩

/-- A connection conforms if its endpoint, stored in this byte order, is read as it was sent. -/
theorem conforms_iff (order : ByteOrder) (hsend : c.sendAll associateRequest = .ok c₁) :
    Conforms order c ↔ ∀ (e : Endpoint) (rest : Bytes), c.stream = e.reply ++ rest →
      order.memory16 e.stored.port = [e.b8, e.b9] := by
  constructor
  · intro h e rest hstream
    obtain ⟨c', hok⟩ := associate_of_stream hsend hstream
    exact (h.goes _ c' e rest hok hstream).1
  · intro h
    constructor
    · constructor
      · intro hok
        obtain ⟨relay, c', hok⟩ := hok
        obtain ⟨e, rest, hstream, -⟩ := stream_of_associate hsend hok
        exact ⟨e, rest, hstream⟩
      · intro hgranted
        obtain ⟨e, rest, hstream⟩ := hgranted
        exact ⟨e.stored, associate_of_stream hsend hstream⟩
    · intro relay c' e rest hok hstream
      obtain ⟨e', rest', hstream', rfl⟩ := stream_of_associate hsend hok
      obtain rfl : e = e' := Endpoint.reply_append_inj (hstream.symm.trans hstream')
      have hmemory := h e rest hstream
      refine ⟨hmemory, fun s payload d hd => ?_⟩
      obtain ⟨haddr, hport⟩ := relaySendTo_eq_some hd
      refine ⟨haddr, ?_⟩
      rw [hport, SockaddrIn.netPort, hmemory]
      exact word_eq e.b8 e.b9

/-- **On a little-endian host the frames go to the right port exactly when its two bytes are
equal.** -/
theorem associate_conforms_iff (hsend : c.sendAll associateRequest = .ok c₁) :
    Conforms .little c ↔
      ∀ (e : Endpoint) (rest : Bytes), c.stream = e.reply ++ rest → e.b8 = e.b9 := by
  rw [conforms_iff .little hsend]
  refine forall_congr' fun e => forall_congr' fun rest => imp_congr_right fun _ => ?_
  rw [Endpoint.stored, ByteOrder.memory16_little, List.cons.injEq, List.cons.injEq]
  constructor
  · intro h
    exact h.1.symm
  · intro h
    exact ⟨h.symm, h, rfl⟩

/-- On a big-endian host they always do. -/
theorem associate_conforms_big (hsend : c.sendAll associateRequest = .ok c₁) :
    Conforms .big c :=
  (conforms_iff .big hsend).mpr fun e _ _ => ByteOrder.memory16_big e.b8 e.b9

/-- `connect_socks`, which does use `htons`, connects to the configured port on every host. -/
theorem connectSocksAddress_netPort (order : ByteOrder) (addr : Bytes) (h : addr.length = 4)
    {port : Nat} (hport : port < 65536) :
    (connectSocksAddress order addr h port).netPort order = port :=
  (SockaddrIn.netPort_htons rfl).trans (UInt16.toNat_ofNat_of_lt hport)

/-! ## A server on 127.0.0.1 -/

/-- The server grants the request with the endpoint 127.0.0.1 and a port, in two portions. -/
def exampleConn (b8 b9 : UInt8) : Conn where
  portions := [[5, 0, 0], [1, 127, 0, 0, 1, b8, b9]]
  ending := .silent
  room := [10]
  sent := []

theorem exampleConn_sendAll (b8 b9 : UInt8) :
    (exampleConn b8 b9).sendAll associateRequest =
      .ok { exampleConn b8 b9 with room := [], sent := associateRequest } := by
  rw [Conn.sendAll, if_pos (by decide)]
  exact Conn.sendAll.eq_1 _ _

/-- Port 257 has two equal bytes. -/
theorem associate_conforms_257 :
    (exampleConn 1 1).sendAll associateRequest =
      .ok { exampleConn 1 1 with room := [], sent := associateRequest } ∧
    Conforms .little (exampleConn 1 1) := by
  refine ⟨exampleConn_sendAll 1 1, ?_⟩
  refine (associate_conforms_iff (exampleConn_sendAll 1 1)).mpr fun e rest h => ?_
  let granted : Endpoint := ⟨127, 0, 0, 1, 1, 1⟩
  have hgranted : granted.reply ++ [] = e.reply ++ rest := h
  obtain rfl : granted = e := Endpoint.reply_append_inj hgranted
  rfl

/-- The server's port is 1080, and the frames go to port 14340. -/
theorem associate_wrong_port :
    (∃ relay c', s5UdpAssociate (exampleConn 0x04 0x38) = .ok (relay, c') ∧
      ∀ s payload d, relaySendTo .little relay s payload = some d → d.port = 14340) ∧
    ¬Conforms .little (exampleConn 0x04 0x38) := by
  have hsend := exampleConn_sendAll 0x04 0x38
  let e : Endpoint := ⟨127, 0, 0, 1, 0x04, 0x38⟩
  have hstream : (exampleConn 0x04 0x38).stream = e.reply ++ [] := rfl
  obtain ⟨c', hok⟩ := associate_of_stream hsend hstream
  constructor
  · refine ⟨e.stored, c', hok, fun s payload d hd => ?_⟩
    rw [(relaySendTo_eq_some hd).2, SockaddrIn.netPort_little rfl, word_eq]
    rfl
  · intro h
    have hmemory := (h.goes _ c' e [] hok hstream).1
    revert hmemory
    decide

end WebZapret.Relay
