import WebZapret.Lib.Bytes

/-!
# IPv4 packets, UDP datagrams and fragmentation

The wire formats as their RFCs give them. A header's options and a packet's total length are
bounded by the structure, so every `Ipv4` can be encoded. Checksums are fields of their own: a
packet need not be correct.

`Fragments` says that a list of packets, in the order of their offsets, is one IP payload cut at
multiples of eight bytes.
-/

namespace WebZapret

/-- An IPv4 packet. -/
structure Ipv4 where
  tos : UInt8
  ident : UInt16
  reserved : Bool
  df : Bool
  mf : Bool
  fragOffset : Fin 8192
  ttl : UInt8
  proto : UInt8
  checksum : UInt16
  src : UInt32
  dst : UInt32
  options : Bytes
  payload : Bytes
  options_mod : options.length % 4 = 0
  options_le : options.length ≤ 40
  total_le : 20 + options.length + payload.length ≤ 65535

namespace Ipv4

variable (p : Ipv4)

/-- The header length in bytes. -/
def headerLength : Nat := 20 + p.options.length

/-- The total length in bytes. -/
def totalLength : Nat := p.headerLength + p.payload.length

/-- The flags and the fragment offset. -/
def flagsOffset : Nat :=
  p.reserved.toNat <<< 15 + p.df.toNat <<< 14 + p.mf.toNat <<< 13 + p.fragOffset

def header : Bytes :=
  [UInt8.ofNat (0x40 + p.headerLength / 4), p.tos] ++ bytes16 p.totalLength ++
    bytes16 p.ident.toNat ++ bytes16 p.flagsOffset ++ [p.ttl, p.proto] ++
    bytes16 p.checksum.toNat ++ bytes32 p.src.toNat ++ bytes32 p.dst.toNat ++ p.options

def encode : Bytes := p.header ++ p.payload

@[simp] theorem length_header : p.header.length = p.headerLength := by
  simp [header, headerLength]
  omega

@[simp] theorem length_encode : p.encode.length = p.totalLength := by
  simp [encode, totalLength]

theorem headerLength_bounds : 20 ≤ p.headerLength ∧ p.headerLength ≤ 60 := by
  have h := p.options_le
  unfold headerLength
  omega

theorem headerLength_mod : p.headerLength % 4 = 0 := by
  have h := p.options_mod
  unfold headerLength
  omega

theorem options_mod_nil : ([] : Bytes).length % 4 = 0 := rfl

theorem options_le_nil : ([] : Bytes).length ≤ 40 := Nat.zero_le _

theorem totalLength_lt : p.totalLength < 65536 := by
  have h := p.total_le
  unfold totalLength headerLength
  omega

/-- The offset of a first fragment. -/
instance neZero_fragOffset : NeZero 8192 := ⟨by decide⟩

end Ipv4

/-- The protocol number of UDP, `IPPROTO_UDP`. -/
def protoUdp : UInt8 := 17

/-- A UDP datagram. -/
structure Udp where
  sport : UInt16
  dport : UInt16
  checksum : UInt16
  data : Bytes

/-- The datagram's bytes; its length field counts the eight bytes of the header. -/
def Udp.encode (u : Udp) : Bytes :=
  bytes16 u.sport.toNat ++ bytes16 u.dport.toNat ++ bytes16 (8 + u.data.length) ++
    bytes16 u.checksum.toNat ++ u.data

@[simp] theorem Udp.length_encode (u : Udp) : u.encode.length = 8 + u.data.length := by
  simp [Udp.encode]
  omega

/-- The bytes that a UDP checksum also covers: addresses, protocol and UDP length. -/
def pseudoHeader (src dst : UInt32) (udpLength : Nat) : Bytes :=
  bytes32 src.toNat ++ bytes32 dst.toNat ++ [0, protoUdp] ++ bytes16 udpLength

/-! ## Fragmentation -/

/-- The packets carry one IP payload from the given byte offset on, cut at multiples of eight
bytes, with "more fragments" on all but the last. -/
def FragmentChain : Nat → List Ipv4 → Prop
  | _, [] => False
  | off, [f] => f.fragOffset.val * 8 = off ∧ f.mf = false
  | off, f :: g :: fs => f.fragOffset.val * 8 = off ∧ f.mf = true ∧ f.payload.length % 8 = 0 ∧
      f.payload ≠ [] ∧ FragmentChain (off + f.payload.length) (g :: fs)

/-- The packets are a UDP datagram from `src` to `dst`, whole or in fragments. Headers may
differ in everything else, options included. -/
structure Fragments (src dst : UInt32) (u : Udp) (fs : List Ipv4) : Prop where
  chain : FragmentChain 0 fs
  body : (fs.flatMap fun f => f.payload) = u.encode
  last_ne : ∀ f ∈ fs, f.payload ≠ []
  addresses : ∀ f ∈ fs, f.src = src ∧ f.dst = dst ∧ f.proto = protoUdp

end WebZapret
