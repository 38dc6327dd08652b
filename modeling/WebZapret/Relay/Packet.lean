import WebZapret.Lib.Ipv4

/-!
# The relay's byte codecs

`wz-udprelay` has four hand-written codecs: `tun_reader` parses the packets of the TUN,
`relay_send` frames a payload for the SOCKS5 server, `session_thread` reads the server's frames,
and `build_packet` makes the packet that carries a reply back into the TUN.

A read of the receive buffer fails when it lies outside the bytes received, so that a codec which
does so cannot return a value. The 32-bit accumulators of the checksums wrap explicitly.
-/

namespace WebZapret.Relay

/-- The four values that name a session: the client's socket and the target. -/
structure Flow where
  cip : UInt32
  cport : UInt16
  tip : UInt32
  tport : UInt16
  deriving DecidableEq

/-! ## Checksums and packet building -/

/-- Addition of `uint32_t`. -/
def add32 (a b : Nat) : Nat := (a + b) % 2 ^ 32

/-- `for (i = 0; i < len; i += 2) sum += (b[i] << 8) | (i + 1 < len ? b[i + 1] : 0)` -/
def sumLoop (sum : Nat) : Bytes → Nat
  | [] => sum
  | [a] => add32 sum (word a 0)
  | a :: b :: t => sumLoop (add32 sum (word a b)) t

/-- `v4_checksum` -/
def v4Checksum (data : Bytes) : Nat := complement (fold (sumLoop 0 data))

/-- The IPv4 header of `build_packet`, with a given checksum field. -/
def ipHeader (total cs : Nat) (src dst : UInt32) : Bytes :=
  [0x45, 0] ++ bytes16 total ++ [0, 0, 0, 0, 64, protoUdp] ++ bytes16 cs ++
    bytes32 src.toNat ++ bytes32 dst.toNat

/-- The accumulator of the UDP checksum before its carries are folded. -/
def udpSum (pl : Bytes) (src : UInt32) (sp : UInt16) (dst : UInt32) (dp : UInt16) : Nat :=
  let terms := [src.toNat >>> 16 &&& 0xffff, src.toNat &&& 0xffff,
    dst.toNat >>> 16 &&& 0xffff, dst.toNat &&& 0xffff, protoUdp.toNat, 8 + pl.length,
    add32 sp.toNat dp.toNat, 8 + pl.length]
  sumLoop (terms.foldl add32 0) pl

/-- `build_packet`: an IPv4/UDP packet `src:sp -> dst:dp`, or none when it would be too long. -/
def buildPacket (pl : Bytes) (src : UInt32) (sp : UInt16) (dst : UInt32) (dp : UInt16) :
    Option Bytes :=
  let total := 28 + pl.length
  if total > 65535 then none
  else
    let cs := v4Checksum (ipHeader total 0 src dst)
    let ucs := complement (fold (udpSum pl src sp dst dp))
    some (ipHeader total cs src dst ++ bytes16 sp.toNat ++ bytes16 dp.toNat ++
      bytes16 (8 + pl.length) ++ bytes16 ucs ++ pl)

/-! ## The TUN parser -/

/-- A read outside the bytes that were received. -/
structure OutOfBounds where
  index : Nat

/-- `buf[i]` -/
def rd (buf : Bytes) (i : Nat) : Except OutOfBounds UInt8 :=
  match buf[i]? with
  | some b => .ok b
  | none => .error ⟨i⟩

/-- The `len` bytes from `buf + off` on. -/
def rdSlice (buf : Bytes) (off len : Nat) : Except OutOfBounds Bytes :=
  if off + len ≤ buf.length then .ok ((buf.drop off).take len) else .error ⟨off + len⟩

/-- `read32be(buf + i)` -/
def rd32 (buf : Bytes) (i : Nat) : Except OutOfBounds UInt32 := do
  let a ← rd buf i
  let b ← rd buf (i + 1)
  let c ← rd buf (i + 2)
  let d ← rd buf (i + 3)
  return UInt32.ofNat (quad a b c d)

/-- `(buf[i] << 8) | buf[i + 1]` -/
def rd16 (buf : Bytes) (i : Nat) : Except OutOfBounds Nat := do
  let hi ← rd buf i
  let lo ← rd buf (i + 1)
  return word hi lo

/-- The body of `tun_reader`'s loop up to `session_get`, on the bytes that `read` returned:
`none` where the loop goes on to the next packet. -/
def tunParse (buf : Bytes) : Except OutOfBounds (Option (Flow × Bytes)) := do
  let n := buf.length
  if n < 28 then return none
  let b0 ← rd buf 0
  if b0.toNat >>> 4 ≠ 4 then return none
  let ihl := (b0.toNat &&& 0x0f) * 4
  let proto ← rd buf 9
  if proto ≠ protoUdp then return none
  if ihl < 20 ∨ n < ihl + 8 then return none
  let total ← rd16 buf 2
  if total < ihl + 8 ∨ total > n then return none
  let cip ← rd32 buf 12
  let tip ← rd32 buf 16
  let cport ← rd16 buf ihl
  let tport ← rd16 buf (ihl + 2)
  let plen := total - ihl - 8
  let payload ← rdSlice buf (ihl + 8) plen
  return some (⟨cip, UInt16.ofNat cport, tip, UInt16.ofNat tport⟩, payload)

/-! ## SOCKS5 UDP frames -/

/-- `relay_send`: the frame handed to `sendto`, or none when it would be too long. -/
def relaySend (s : Flow) (payload : Bytes) : Option Bytes :=
  if 10 + payload.length > 65535 then none
  else some ([0, 0, 0, 1] ++ bytes32 s.tip.toNat ++ bytes16 s.tport.toNat ++ payload)

/-- What `session_thread` takes from the bytes that `recv` returned: the address, the port and
the data of a reply, or none where its loop goes on to the next one. -/
def sessionDecode (buf : Bytes) : Option (UInt32 × UInt16 × Bytes) :=
  match buf with
  | _ :: _ :: frag :: atyp :: a :: b :: c :: d :: hi :: lo :: data =>
    if frag ≠ 0 then none
    else if atyp = 1 then some (UInt32.ofNat (quad a b c d), UInt16.ofNat (word hi lo), data)
    else none
  | _ => none

/-- `inject_reply`: the packet written to the TUN, from the replying address to the client. -/
def injectReply (s : Flow) (payload : Bytes) (tip : UInt32) (tport : UInt16) : Option Bytes :=
  buildPacket payload tip tport s.cip s.cport

end WebZapret.Relay
