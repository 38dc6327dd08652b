import WebZapret.Lib.Bytes

/-!
# IPv4 socket addresses in memory

A program stores the port of a `sockaddr_in` as a 16-bit integer, in the byte order of its host;
the kernel reads the two bytes in network order. The two agree through `htons`
(`netPort_htons`), and without it on a big-endian host only (`netPort_big`, `netPort_little`).
-/

namespace WebZapret

/-- The order in which a host stores the bytes of an integer. -/
inductive ByteOrder where
  | little
  | big
  deriving DecidableEq

namespace ByteOrder

/-- The memory of a `uint16_t`. -/
def memory16 : ByteOrder → UInt16 → Bytes
  | .little, x => (bytes16 x.toNat).reverse
  | .big, x => bytes16 x.toNat

/-- `htons` -/
def htons : ByteOrder → UInt16 → UInt16
  | .little, x =>
    UInt16.ofNat (word (UInt8.ofNat (x.toNat &&& 0xff)) (UInt8.ofNat (x.toNat >>> 8)))
  | .big, x => x

theorem toNat_word (hi lo : UInt8) : (UInt16.ofNat (word hi lo)).toNat = word hi lo :=
  UInt16.toNat_ofNat_of_lt (word_lt hi lo)

theorem memory16_little (hi lo : UInt8) :
    ByteOrder.little.memory16 (UInt16.ofNat (word hi lo)) = [lo, hi] := by
  rw [memory16, toNat_word, bytes16_word]
  rfl

theorem memory16_big (hi lo : UInt8) :
    ByteOrder.big.memory16 (UInt16.ofNat (word hi lo)) = [hi, lo] := by
  rw [memory16, toNat_word, bytes16_word]

/-- `htons` puts the high byte first in memory, on every host. -/
theorem memory16_htons (order : ByteOrder) (x : UInt16) :
    order.memory16 (order.htons x) = bytes16 x.toNat := by
  cases order with
  | little => exact memory16_little _ _
  | big => rfl

end ByteOrder

/-- `struct sockaddr_in`: the address is kept as its bytes in memory. -/
structure SockaddrIn where
  family : UInt16
  port : UInt16
  addr : Bytes
  length_addr : addr.length = 4
  deriving DecidableEq

namespace SockaddrIn

/-- The port as the kernel reads it. -/
def netPort (order : ByteOrder) (a : SockaddrIn) : Nat :=
  match order.memory16 a.port with
  | [hi, lo] => word hi lo
  | _ => 0

variable {a : SockaddrIn}

theorem netPort_little {hi lo : UInt8} (h : a.port = UInt16.ofNat (word hi lo)) :
    a.netPort .little = word lo hi := by
  rw [netPort, h, ByteOrder.memory16_little]

theorem netPort_big {hi lo : UInt8} (h : a.port = UInt16.ofNat (word hi lo)) :
    a.netPort .big = word hi lo := by
  rw [netPort, h, ByteOrder.memory16_big]

theorem netPort_htons {order : ByteOrder} {x : UInt16} (h : a.port = order.htons x) :
    a.netPort order = x.toNat := by
  rw [netPort, h, ByteOrder.memory16_htons]
  exact word_bytes16 x.toNat_lt

end SockaddrIn

end WebZapret
