import WebZapret.Relay.Parse

/-!
# The codecs agree

A client's datagram that the TUN parser accepts is framed for the SOCKS5 server, and the worker's
own decoder reads from that frame the target and the data of the datagram. A reply is built into
an IPv4 packet that the TUN parser accepts, from the replying address to the client, with both
checksums right.

`build_packet` is shown to encode a reply as an `Ipv4` (`buildPacket_eq`), so everything about
parsing it comes from `tunParse_encode`.

Main results: `tunParse_eq_some` (what is accepted is an IPv4/UDP packet) and `relay_roundtrip`.
-/

namespace WebZapret.Relay

/-! ## Checksum accumulators do not overflow -/

theorem sumLoop_eq {sum : Nat} {data : Bytes} (h : sum + wordSum data < 2 ^ 32) :
    sumLoop sum data = sum + wordSum data := by
  induction data using wordSum.induct generalizing sum with
  | case1 => rfl
  | case2 a =>
    rw [wordSum] at h ⊢
    rw [sumLoop, add32, Nat.mod_eq_of_lt h]
  | case3 a b t ih =>
    rw [wordSum] at h ⊢
    have hadd : add32 sum (word a b) = sum + word a b := Nat.mod_eq_of_lt (by omega)
    rw [sumLoop, hadd, ih (by omega)]
    omega

theorem wordSum_addr (x : UInt32) :
    wordSum (bytes32 x.toNat) = (x.toNat >>> 16 &&& 0xffff) + (x.toNat &&& 0xffff) := by
  have hx : x.toNat < 2 ^ 32 := x.toNat_lt
  have hmask (y : Nat) : y &&& 0xffff = y % 65536 := Nat.and_two_pow_sub_one_eq_mod y 16
  rw [wordSum_bytes32 hx, hmask, hmask, Nat.shiftRight_eq_div_pow]
  omega

theorem ipHeader_length (total cs : Nat) (src dst : UInt32) :
    (ipHeader total cs src dst).length = 20 := by
  simp [ipHeader]

/-- The checksum field is one word of the header. -/
theorem wordSum_ipHeader {total cs : Nat} (hcs : cs < 65536) (src dst : UInt32) :
    wordSum (ipHeader total cs src dst) = wordSum (ipHeader total 0 src dst) + cs := by
  have hzero : wordSum (bytes16 0) = 0 := wordSum_bytes16 (by omega)
  simp only [ipHeader, List.append_assoc]
  rw [wordSum_append (by simp), wordSum_append (by simp), wordSum_append (by simp),
    wordSum_append (by simp), wordSum_bytes16 hcs]
  rw [wordSum_append (s := [0x45, 0]) (by simp), wordSum_append (s := bytes16 total) (by simp),
    wordSum_append (s := [0, 0, 0, 0, 64, protoUdp]) (by simp),
    wordSum_append (s := bytes16 0) (by simp), hzero]
  omega

/-- **The header of a built packet verifies.** -/
theorem ipHeader_verifies (total : Nat) (src dst : UInt32) :
    fold (wordSum (ipHeader total (v4Checksum (ipHeader total 0 src dst)) src dst)) = 0xffff := by
  have hle := wordSum_le (ipHeader total 0 src dst)
  rw [ipHeader_length] at hle
  have hsum : sumLoop 0 (ipHeader total 0 src dst) = wordSum (ipHeader total 0 src dst) := by
    rw [sumLoop_eq (by omega), Nat.zero_add]
  have hcs : v4Checksum (ipHeader total 0 src dst) < 65536 := by
    unfold v4Checksum complement
    omega
  rw [wordSum_ipHeader hcs, v4Checksum, hsum]
  exact fold_add_complement _

/-- The UDP accumulator is the sum over the pseudo header, the ports, the length and the data. -/
theorem udpSum_eq {pl : Bytes} (hlen : 28 + pl.length ≤ 65535) (src dst : UInt32)
    (sp dp : UInt16) :
    udpSum pl src sp dst dp = wordSum (pseudoHeader src dst (8 + pl.length)) +
      (sp.toNat + dp.toNat + (8 + pl.length) + wordSum pl) := by
  have hpl := wordSum_le pl
  have hsp : sp.toNat < 65536 := sp.toNat_lt
  have hdp : dp.toNat < 65536 := dp.toNat_lt
  have hsrc := wordSum_addr src
  have hdst := wordSum_addr dst
  have hsrcle := wordSum_le (bytes32 src.toNat)
  have hdstle := wordSum_le (bytes32 dst.toNat)
  simp only [length_bytes32] at hsrcle hdstle
  have hproto : wordSum [0, protoUdp] = 17 := rfl
  have hpseudo : wordSum (pseudoHeader src dst (8 + pl.length)) =
      wordSum (bytes32 src.toNat) + (wordSum (bytes32 dst.toNat) + (17 + (8 + pl.length))) := by
    simp only [pseudoHeader, List.append_assoc]
    rw [wordSum_append (by simp), wordSum_append (by simp), wordSum_append (by simp), hproto,
      wordSum_bytes16 (by omega)]
  have hterms : udpSum pl src sp dst dp = sumLoop (wordSum (pseudoHeader src dst (8 + pl.length)) +
      (sp.toNat + dp.toNat + (8 + pl.length))) pl := by
    have hudp : protoUdp.toNat = 17 := rfl
    simp only [udpSum, List.foldl_cons, List.foldl_nil, add32, hudp, Nat.zero_add]
    congr 1
    omega
  rw [hterms, sumLoop_eq (by omega)]
  omega

/-! ## The packet that carries a reply -/

variable {pl : Bytes}

/-- The UDP datagram of a reply. -/
def replyUdp (pl : Bytes) (src : UInt32) (sp : UInt16) (dst : UInt32) (dp : UInt16) : Udp where
  sport := sp
  dport := dp
  checksum := UInt16.ofNat (complement (fold (udpSum pl src sp dst dp)))
  data := pl

/-- The IPv4 packet of a reply. -/
def replyPacket (pl : Bytes) (hlen : 28 + pl.length ≤ 65535) (src : UInt32) (sp : UInt16)
    (dst : UInt32) (dp : UInt16) : Ipv4 where
  tos := 0
  ident := 0
  reserved := false
  df := false
  mf := false
  fragOffset := 0
  ttl := 64
  proto := protoUdp
  checksum := UInt16.ofNat (v4Checksum (ipHeader (28 + pl.length) 0 src dst))
  src := src
  dst := dst
  options := []
  payload := (replyUdp pl src sp dst dp).encode
  options_mod := Ipv4.options_mod_nil
  options_le := Ipv4.options_le_nil
  total_le := by
    rw [Udp.length_encode]
    simp only [List.length_nil, replyUdp]
    omega

theorem toNat_ofNat_complement (s : Nat) : (UInt16.ofNat (complement s)).toNat = complement s := by
  rw [UInt16.toNat_ofNat']
  unfold complement
  omega

theorem replyPacket_header (hlen : 28 + pl.length ≤ 65535) (src dst : UInt32) (sp dp : UInt16) :
    (replyPacket pl hlen src sp dst dp).header =
      ipHeader (28 + pl.length) (v4Checksum (ipHeader (28 + pl.length) 0 src dst)) src dst := by
  have htotal : (replyPacket pl hlen src sp dst dp).totalLength = 28 + pl.length := by
    rw [Ipv4.totalLength, Ipv4.headerLength]
    simp only [replyPacket, List.length_nil, Udp.length_encode, replyUdp]
    omega
  have hcs : (replyPacket pl hlen src sp dst dp).checksum.toNat =
      v4Checksum (ipHeader (28 + pl.length) 0 src dst) := toNat_ofNat_complement _
  have hversion : (replyPacket pl hlen src sp dst dp).headerLength = 20 := rfl
  have hflags : (replyPacket pl hlen src sp dst dp).flagsOffset = 0 := by
    simp [Ipv4.flagsOffset, replyPacket]
  rw [Ipv4.header, htotal, hversion, hflags, hcs, ipHeader]
  generalize v4Checksum _ = cs
  simp only [replyPacket, List.append_nil]
  rfl

theorem replyPacket_payload (hlen : 28 + pl.length ≤ 65535) (src dst : UInt32) (sp dp : UInt16) :
    (replyPacket pl hlen src sp dst dp).payload = bytes16 sp.toNat ++ bytes16 dp.toNat ++
      bytes16 (8 + pl.length) ++ bytes16 (complement (fold (udpSum pl src sp dst dp))) ++ pl := by
  have hcs := toNat_ofNat_complement (fold (udpSum pl src sp dst dp))
  simp only [replyPacket, Udp.encode, replyUdp, hcs]

/-- **`build_packet` encodes the reply.** -/
theorem buildPacket_eq (hlen : 28 + pl.length ≤ 65535) (src dst : UInt32) (sp dp : UInt16) :
    buildPacket pl src sp dst dp = some (replyPacket pl hlen src sp dst dp).encode := by
  have hnot : ¬28 + pl.length > 65535 := by omega
  rw [Ipv4.encode, replyPacket_header, replyPacket_payload]
  simp only [buildPacket, hnot, if_false, List.append_assoc]

/-- **The UDP checksum of a built packet verifies.** -/
theorem replyPacket_udp_verifies (hlen : 28 + pl.length ≤ 65535) (src dst : UInt32)
    (sp dp : UInt16) :
    fold (wordSum (pseudoHeader src dst (8 + pl.length) ++
      (replyPacket pl hlen src sp dst dp).payload)) = 0xffff := by
  have hsp : sp.toNat < 65536 := sp.toNat_lt
  have hdp : dp.toNat < 65536 := dp.toNat_lt
  have hcs : complement (fold (udpSum pl src sp dst dp)) < 65536 := by
    unfold complement
    omega
  have hsum := udpSum_eq hlen src dst sp dp
  rw [replyPacket_payload, wordSum_append (by simp [pseudoHeader])]
  simp only [List.append_assoc]
  rw [wordSum_append (by simp), wordSum_append (by simp), wordSum_append (by simp),
    wordSum_append (by simp), wordSum_bytes16 hsp, wordSum_bytes16 hdp,
    wordSum_bytes16 (by omega), wordSum_bytes16 hcs]
  have hcomplement := fold_add_complement (udpSum pl src sp dst dp)
  rw [hsum] at hcomplement ⊢
  rw [← hcomplement]
  congr 1
  omega

/-! ## Frames -/

theorem readUdp_encode {f : Ipv4} {u : Udp} (h : f.payload = u.encode) :
    readUdp f = some (⟨f.src, u.sport, f.dst, u.dport⟩, u.data) := by
  have hsport := word_bytes16 (show u.sport.toNat < 65536 from u.sport.toNat_lt)
  have hdport := word_bytes16 (show u.dport.toNat < 65536 from u.dport.toNat_lt)
  have hshort : ¬f.payload.length < 8 := by
    rw [h, Udp.length_encode]
    omega
  simp only [readUdp, hshort, if_false]
  simp only [h, Udp.encode, bytes16, List.cons_append, List.nil_append, List.getD_cons_zero,
    List.getD_cons_succ, hsport, hdport, UInt16.ofNat_toNat, List.drop_succ_cons, List.drop_zero]

/-- **The worker reads back what it frames.** -/
theorem sessionDecode_frame (r0 r1 : UInt8) (a : UInt32) (p : UInt16) (data : Bytes) :
    sessionDecode ([r0, r1, 0, 1] ++ bytes32 a.toNat ++ bytes16 p.toNat ++ data) =
      some (a, p, data) := by
  have ha := quad_bytes32 (show a.toNat < 2 ^ 32 from a.toNat_lt)
  have hp := word_bytes16 (show p.toNat < 65536 from p.toNat_lt)
  simp only [bytes32, bytes16, List.cons_append, List.nil_append, sessionDecode, ne_eq,
    not_true_eq_false, if_false, if_true, ha, hp, UInt32.ofNat_toNat, UInt16.ofNat_toNat]

/-- What the parser accepts fits into a frame. -/
theorem data_length_le {f : Ipv4} {u : Udp} (h : f.payload = u.encode) :
    10 + u.data.length ≤ 65535 := by
  have htotal := f.total_le
  rw [h, Udp.length_encode] at htotal
  omega

/-! ## The round trip -/

/-- **Relay transparency.** No read of the parser leaves the bytes received, and what it accepts
is an IPv4 packet with protocol UDP, perhaps followed by other bytes. Forward: when the packet
carries a UDP datagram, the frame that is sent decodes to the datagram's target and data. Back:
the packet built from a reply of `(a, p, data)` parses to `a:p`, the client's socket and `data`,
and its two checksums verify. -/
theorem relay_roundtrip :
    (∀ buf, ∃ r, tunParse buf = .ok r) ∧
    (∀ buf x, tunParse buf = .ok (some x) →
      ∃ (f : Ipv4) (trailing : Bytes), buf = f.encode ++ trailing ∧ f.proto = protoUdp) ∧
    (∀ (f : Ipv4) (u : Udp) (trailing : Bytes), f.proto = protoUdp → f.payload = u.encode →
      ∃ flow frame, tunParse (f.encode ++ trailing) = .ok (some (flow, u.data)) ∧
        flow = ⟨f.src, u.sport, f.dst, u.dport⟩ ∧ relaySend flow u.data = some frame ∧
        sessionDecode frame = some (f.dst, u.dport, u.data)) ∧
    (∀ (s : Flow) (r0 r1 : UInt8) (a : UInt32) (p : UInt16) (data frame : Bytes),
      frame = [r0, r1, 0, 1] ++ bytes32 a.toNat ++ bytes16 p.toNat ++ data →
      frame.length ≤ 65517 →
      sessionDecode frame = some (a, p, data) ∧
      ∃ pkt, injectReply s data a p = some pkt ∧
        tunParse pkt = .ok (some (⟨a, p, s.cip, s.cport⟩, data)) ∧
        fold (wordSum (pkt.take 20)) = 0xffff ∧
        fold (wordSum (pseudoHeader a s.cip (8 + data.length) ++ pkt.drop 20)) = 0xffff) := by
  refine ⟨tunParse_in_bounds, fun buf x h => tunParse_eq_some h, ?_, ?_⟩
  · intro f u trailing hproto hpayload
    have hlen := data_length_le hpayload
    have hnot : ¬10 + u.data.length > 65535 := by omega
    have hparse := tunParse_encode f trailing hproto
    rw [readUdp_encode hpayload] at hparse
    refine ⟨_, _, hparse, rfl, by rw [relaySend, if_neg hnot], ?_⟩
    exact sessionDecode_frame 0 0 f.dst u.dport u.data
  · intro s r0 r1 a p data frame hframe hlen
    have hdata : 28 + data.length ≤ 65535 := by
      rw [hframe] at hlen
      simp only [List.length_append, List.length_cons, List.length_nil, length_bytes32,
        length_bytes16] at hlen
      omega
    have hparse := tunParse_encode (replyPacket data hdata a p s.cip s.cport) [] rfl
    have hpayload : (replyPacket data hdata a p s.cip s.cport).payload =
      (replyUdp data a p s.cip s.cport).encode := rfl
    have hheader : (replyPacket data hdata a p s.cip s.cport).header.length = 20 := by
      rw [Ipv4.length_header]
      rfl
    rw [readUdp_encode hpayload, List.append_nil] at hparse
    have hdecode : sessionDecode frame = some (a, p, data) := by
      rw [hframe]
      exact sessionDecode_frame r0 r1 a p data
    have hpacket : injectReply s data a p = some (replyPacket data hdata a p s.cip s.cport).encode :=
      buildPacket_eq hdata a s.cip p s.cport
    refine ⟨hdecode, (replyPacket data hdata a p s.cip s.cport).encode, hpacket, hparse, ?_, ?_⟩
    · rw [Ipv4.encode, List.take_left' hheader, replyPacket_header]
      exact ipHeader_verifies _ _ _
    · rw [Ipv4.encode, List.drop_left' hheader]
      exact replyPacket_udp_verifies hdata a s.cip p s.cport

end WebZapret.Relay
