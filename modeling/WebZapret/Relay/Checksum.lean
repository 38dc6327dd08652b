import WebZapret.Relay.RoundTrip

/-!
# The checksum that `build_packet` sends

RFC 768 computes the checksum over the pseudo header, the UDP header and the data, and sends a
computed zero as all ones: a zero in the packet says that there is no checksum. `build_packet` sends
what it has computed.

`udpSum_eq_exact` says that the accumulator does not wrap. The main result is `real_checksum_iff`.
-/

namespace WebZapret.Relay

/-! ## What is to be sent -/

/-- The bytes that the checksum is about: the pseudo header, the UDP header with no checksum, the
data. -/
def udpMessage (pl : Bytes) (src : UInt32) (sp : UInt16) (dst : UInt32) (dp : UInt16) : Bytes :=
  pseudoHeader src dst (8 + pl.length) ++
    (bytes16 sp.toNat ++ bytes16 dp.toNat ++ bytes16 (8 + pl.length) ++ bytes16 0) ++ pl

/-- The checksum of RFC 768. -/
def rfc768 (message : Bytes) : Nat :=
  if complement (onesSum message) = 0 then 0xffff else complement (onesSum message)

/-- The checksum field of an IPv4 packet without options that carries UDP. -/
def checksumField (pkt : Bytes) : Nat := word (pkt.getD 26 0) (pkt.getD 27 0)

/-- What `build_packet` adds up, as a number without a bound. -/
def exactSum (pl : Bytes) (src : UInt32) (sp : UInt16) (dst : UInt32) (dp : UInt16) : Nat :=
  [src.toNat >>> 16 &&& 0xffff, src.toNat &&& 0xffff, dst.toNat >>> 16 &&& 0xffff,
    dst.toNat &&& 0xffff, protoUdp.toNat, 8 + pl.length, sp.toNat + dp.toNat, 8 + pl.length].sum +
    wordSum pl

/-- The packet carries the checksum of RFC 768, computed without an overflow. -/
structure RealChecksum (pl : Bytes) (src : UInt32) (sp : UInt16) (dst : UInt32) (dp : UInt16) :
    Prop where
  bounded : exactSum pl src sp dst dp < 2 ^ 32
  exact : udpSum pl src sp dst dp = exactSum pl src sp dst dp
  sent : ∃ pkt, buildPacket pl src sp dst dp = some pkt ∧
    checksumField pkt = rfc768 (udpMessage pl src sp dst dp) ∧ checksumField pkt ≠ 0

/-! ## The sum -/

variable {pl : Bytes}

theorem wordSum_udpMessage (hlen : 28 + pl.length ≤ 65535) (src dst : UInt32) (sp dp : UInt16) :
    wordSum (udpMessage pl src sp dst dp) = wordSum (pseudoHeader src dst (8 + pl.length)) +
      (sp.toNat + dp.toNat + (8 + pl.length) + wordSum pl) := by
  have hsp : sp.toNat < 65536 := sp.toNat_lt
  have hdp : dp.toNat < 65536 := dp.toNat_lt
  have hzero : wordSum (bytes16 0) = 0 := wordSum_bytes16 (by omega)
  simp only [udpMessage, List.append_assoc]
  rw [wordSum_append (by simp [pseudoHeader]), wordSum_append (by simp), wordSum_append (by simp),
    wordSum_append (by simp), wordSum_append (by simp), wordSum_bytes16 hsp, wordSum_bytes16 hdp,
    wordSum_bytes16 (by omega), hzero]
  omega

/-- **The accumulator does not overflow**, and it has the sum over the message. -/
theorem udpSum_eq_exact (hlen : 28 + pl.length ≤ 65535) (src dst : UInt32) (sp dp : UInt16) :
    exactSum pl src sp dst dp < 2 ^ 32 ∧ udpSum pl src sp dst dp = exactSum pl src sp dst dp ∧
      exactSum pl src sp dst dp = wordSum (udpMessage pl src sp dst dp) := by
  have hsp : sp.toNat < 65536 := sp.toNat_lt
  have hdp : dp.toNat < 65536 := dp.toNat_lt
  have hpl := wordSum_le pl
  have hmask (x : Nat) : x &&& 0xffff < 65536 := by
    rw [show x &&& 0xffff = x % 65536 from Nat.and_two_pow_sub_one_eq_mod x 16]
    omega
  have hsum : exactSum pl src sp dst dp = wordSum (udpMessage pl src sp dst dp) := by
    have hproto : wordSum [0, protoUdp] = 17 := rfl
    have hudp : protoUdp.toNat = 17 := rfl
    rw [wordSum_udpMessage hlen]
    simp only [pseudoHeader, List.append_assoc]
    rw [wordSum_append (by simp), wordSum_append (by simp), wordSum_append (by simp), hproto,
      wordSum_bytes16 (by omega), wordSum_addr, wordSum_addr]
    simp only [exactSum, List.sum_cons, List.sum_nil, hudp]
    omega
  refine ⟨?_, ?_, hsum⟩
  · have h₁ := hmask (src.toNat >>> 16)
    have h₂ := hmask src.toNat
    have h₃ := hmask (dst.toNat >>> 16)
    have h₄ := hmask dst.toNat
    have hudp : protoUdp.toNat = 17 := rfl
    simp only [exactSum, List.sum_cons, List.sum_nil, hudp]
    omega
  · rw [hsum, udpSum_eq hlen, wordSum_udpMessage hlen]

/-! ## The field -/

theorem checksumField_buildPacket (hlen : 28 + pl.length ≤ 65535) (src dst : UInt32)
    (sp dp : UInt16) :
    ∃ pkt, buildPacket pl src sp dst dp = some pkt ∧
      checksumField pkt = complement (fold (udpSum pl src sp dst dp)) := by
  have hnot : ¬28 + pl.length > 65535 := by omega
  have hcs : complement (fold (udpSum pl src sp dst dp)) < 65536 := by
    unfold complement
    omega
  refine ⟨_, by rw [buildPacket]; exact if_neg hnot, ?_⟩
  generalize complement (fold (udpSum pl src sp dst dp)) = cs at hcs ⊢
  exact word_bytes16 hcs

/-- **The packet carries a real checksum, if and only if the sum is not a multiple of `0xffff`.** -/
theorem real_checksum_iff (hlen : 28 + pl.length ≤ 65535) (src dst : UInt32) (sp dp : UInt16) :
    RealChecksum pl src sp dst dp ↔ ¬65535 ∣ wordSum (udpMessage pl src sp dst dp) := by
  obtain ⟨hbounded, hexact, hsum⟩ := udpSum_eq_exact hlen src dst sp dp
  obtain ⟨pkt, hpkt, hfield⟩ := checksumField_buildPacket hlen src dst sp dp
  have hlt := fold_lt (wordSum (udpMessage pl src sp dst dp))
  have hmod := fold_mod (wordSum (udpMessage pl src sp dst dp))
  have hpos : 0 < fold (wordSum (udpMessage pl src sp dst dp)) := by
    refine fold_pos ?_
    rw [wordSum_udpMessage hlen]
    omega
  rw [hexact, hsum] at hfield
  constructor
  · rintro ⟨_, _, pkt', hpkt', _, hne⟩ hdvd
    obtain rfl : pkt = pkt' := Option.some.inj (hpkt.symm.trans hpkt')
    refine hne ?_
    rw [hfield, complement]
    omega
  · intro hdvd
    refine ⟨hbounded, hexact, pkt, hpkt, ?_, ?_⟩
    · rw [hfield, rfc768, onesSum_eq_fold, if_neg]
      unfold complement
      omega
    · rw [hfield, complement]
      omega

/-- A reply without data from 1.2.3.4:53 to 10.0.0.2:61856. -/
theorem real_checksum_one : RealChecksum [] 0x01020304 53 0x0a000002 61856 :=
  (@real_checksum_iff [] (by decide) 0x01020304 0x0a000002 53 61856).mpr (by decide)

/-- With the next port, the packet says that it has no checksum. -/
theorem checksum_absent :
    ¬RealChecksum [] 0x01020304 53 0x0a000002 61857 ∧
      ∃ pkt, buildPacket [] 0x01020304 53 0x0a000002 61857 = some pkt ∧ checksumField pkt = 0 := by
  obtain ⟨pkt, hpkt, hfield⟩ := @checksumField_buildPacket [] (by decide) 0x01020304 0x0a000002 53 61857
  have hsum : udpSum [] 0x01020304 53 0x0a000002 61857 = 65535 := by decide
  have hzero : checksumField pkt = 0 := by
    rw [hfield, hsum, fold]
    rfl
  refine ⟨fun h => ?_, pkt, hpkt, hzero⟩
  obtain ⟨pkt', hpkt', _, hne⟩ := h.sent
  obtain rfl : pkt = pkt' := Option.some.inj (hpkt.symm.trans hpkt')
  exact hne hzero

end WebZapret.Relay
