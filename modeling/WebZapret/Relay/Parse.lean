import WebZapret.Relay.Packet
import Mathlib.Tactic.Common

/-!
# What the TUN parser returns

`tunParse` never reads outside the bytes received, and on an IPv4 packet with protocol UDP it
returns the addresses of the header together with the first four payload bytes as ports and all
but eight payload bytes as the data, whether or not the packet is a fragment
(`tunParse_encode`).
-/

namespace WebZapret.Relay

/-! ## Reads -/

theorem ok_bind {α β : Type} (a : α) (f : α → Except OutOfBounds β) :
    (Except.ok a >>= f) = f a := rfl

theorem rd_eq {buf : Bytes} {i : Nat} {b : UInt8} (h : buf[i]? = some b) : rd buf i = .ok b := by
  rw [rd, h]

theorem rd_of_lt {buf : Bytes} {i : Nat} (h : i < buf.length) : ∃ b, rd buf i = .ok b :=
  ⟨buf[i], rd_eq (List.getElem?_eq_getElem h)⟩

theorem rd16_of_lt {buf : Bytes} {i : Nat} (h : i + 1 < buf.length) :
    ∃ w, rd16 buf i = .ok w := by
  obtain ⟨hi, hhi⟩ := rd_of_lt (show i < buf.length by omega)
  obtain ⟨lo, hlo⟩ := rd_of_lt h
  exact ⟨word hi lo, by rw [rd16, hhi, hlo]; rfl⟩

theorem rd32_of_lt {buf : Bytes} {i : Nat} (h : i + 3 < buf.length) :
    ∃ w, rd32 buf i = .ok w := by
  obtain ⟨a, ha⟩ := rd_of_lt (show i < buf.length by omega)
  obtain ⟨b, hb⟩ := rd_of_lt (show i + 1 < buf.length by omega)
  obtain ⟨c, hc⟩ := rd_of_lt (show i + 2 < buf.length by omega)
  obtain ⟨d, hd⟩ := rd_of_lt h
  exact ⟨UInt32.ofNat (quad a b c d), by rw [rd32, ha, hb, hc, hd]; rfl⟩

/-- **No read is out of bounds**, whatever the bytes are: the length checks come first. -/
theorem tunParse_in_bounds (buf : Bytes) : ∃ r, tunParse buf = .ok r := by
  unfold tunParse
  by_cases hn : buf.length < 28
  · exact ⟨none, by simp only [hn, if_true]; rfl⟩
  obtain ⟨b0, h0⟩ := rd_of_lt (show 0 < buf.length by omega)
  obtain ⟨proto, h9⟩ := rd_of_lt (show 9 < buf.length by omega)
  obtain ⟨total, h2⟩ := rd16_of_lt (show 2 + 1 < buf.length by omega)
  obtain ⟨cip, h12⟩ := rd32_of_lt (show 12 + 3 < buf.length by omega)
  obtain ⟨tip, h16⟩ := rd32_of_lt (show 16 + 3 < buf.length by omega)
  simp only [hn, if_false, h0, h9, h2, h12, h16, ok_bind]
  generalize (b0.toNat &&& 15) * 4 = ihl
  split
  · exact ⟨none, rfl⟩
  split
  · exact ⟨none, rfl⟩
  split
  · exact ⟨none, rfl⟩
  split
  · exact ⟨none, rfl⟩
  rename_i hihl htotal
  obtain ⟨cport, hc⟩ := rd16_of_lt (show ihl + 1 < buf.length by omega)
  obtain ⟨tport, ht⟩ := rd16_of_lt (show ihl + 2 + 1 < buf.length by omega)
  have hslice : ihl + 8 + (total - ihl - 8) ≤ buf.length := by omega
  simp only [hc, ht, ok_bind, rdSlice, hslice, if_true]
  exact ⟨_, rfl⟩

/-! ## IPv4 packets -/

variable (f : Ipv4) (trailing : Bytes)

theorem rd_header {i : Nat} {b : UInt8} (h : f.header[i]? = some b) :
    rd (f.encode ++ trailing) i = .ok b := by
  have hi : i < f.header.length := (List.getElem?_eq_some_iff.mp h).1
  refine rd_eq ?_
  rw [Ipv4.encode, List.append_assoc, List.getElem?_append_left hi, h]

theorem rd_payload {j : Nat} (h : j < f.payload.length) :
    rd (f.encode ++ trailing) (f.headerLength + j) = .ok (f.payload.getD j 0) := by
  refine rd_eq ?_
  rw [Ipv4.encode, List.append_assoc, ← f.length_header,
    List.getElem?_append_right (Nat.le_add_right ..), Nat.add_sub_cancel_left,
    List.getElem?_append_left h, List.getElem?_eq_getElem h, List.getD_eq_getElem _ _ h]

theorem rd16_payload {j : Nat} (h : j + 1 < f.payload.length) :
    rd16 (f.encode ++ trailing) (f.headerLength + j) =
      .ok (word (f.payload.getD j 0) (f.payload.getD (j + 1) 0)) := by
  rw [rd16, rd_payload f trailing (by omega), ok_bind, Nat.add_assoc,
    rd_payload f trailing h, ok_bind]
  rfl

theorem rd_version : rd (f.encode ++ trailing) 0 = .ok (UInt8.ofNat (0x40 + f.headerLength / 4)) :=
  rd_header f trailing rfl

theorem rd_proto : rd (f.encode ++ trailing) 9 = .ok f.proto := rd_header f trailing rfl

theorem rd16_total : rd16 (f.encode ++ trailing) 2 = .ok f.totalLength := by
  have hhi := rd_header f trailing (i := 2) rfl
  have hlo := rd_header f trailing (i := 3) rfl
  rw [rd16, hhi, ok_bind, hlo, ok_bind, word_bytes16 f.totalLength_lt]
  rfl

theorem rd32_src : rd32 (f.encode ++ trailing) 12 = .ok f.src := by
  have ha := rd_header f trailing (i := 12) rfl
  have hb := rd_header f trailing (i := 13) rfl
  have hc := rd_header f trailing (i := 14) rfl
  have hd := rd_header f trailing (i := 15) rfl
  rw [rd32, ha, ok_bind, hb, ok_bind, hc, ok_bind, hd, ok_bind, quad_bytes32 f.src.toNat_lt,
    UInt32.ofNat_toNat]
  rfl

theorem rd32_dst : rd32 (f.encode ++ trailing) 16 = .ok f.dst := by
  have ha := rd_header f trailing (i := 16) rfl
  have hb := rd_header f trailing (i := 17) rfl
  have hc := rd_header f trailing (i := 18) rfl
  have hd := rd_header f trailing (i := 19) rfl
  rw [rd32, ha, ok_bind, hb, ok_bind, hc, ok_bind, hd, ok_bind, quad_bytes32 f.dst.toNat_lt,
    UInt32.ofNat_toNat]
  rfl

/-- The version nibble is 4 and the other one counts the header's words. -/
theorem version_byte : (UInt8.ofNat (0x40 + f.headerLength / 4)).toNat >>> 4 = 4 ∧
    ((UInt8.ofNat (0x40 + f.headerLength / 4)).toNat &&& 0x0f) * 4 = f.headerLength := by
  have hb := f.headerLength_bounds
  have hm := f.headerLength_mod
  have hv : (UInt8.ofNat (0x40 + f.headerLength / 4)).toNat = 0x40 + f.headerLength / 4 := by
    rw [UInt8.toNat_ofNat']
    omega
  have hmask (x : Nat) : x &&& 0x0f = x % 16 := Nat.and_two_pow_sub_one_eq_mod x 4
  rw [hv, hmask, Nat.shiftRight_eq_div_pow]
  omega

/-- The flow and the data that the parser reads from an IP payload. -/
def readUdp (f : Ipv4) : Option (Flow × Bytes) :=
  let pl := f.payload
  if pl.length < 8 then none
  else some (⟨f.src, UInt16.ofNat (word (pl.getD 0 0) (pl.getD 1 0)), f.dst,
    UInt16.ofNat (word (pl.getD 2 0) (pl.getD 3 0))⟩, pl.drop 8)

/-- **The parser on an IPv4 packet.** It looks at neither the "more fragments" flag nor the
fragment offset. -/
theorem tunParse_encode (hp : f.proto = protoUdp) :
    tunParse (f.encode ++ trailing) = .ok (readUdp f) := by
  have hlen : (f.encode ++ trailing).length = f.totalLength + trailing.length := by simp
  have htot : f.totalLength = f.headerLength + f.payload.length := rfl
  have hb := f.headerLength_bounds
  obtain ⟨hver, hihl⟩ := version_byte f
  unfold tunParse readUdp
  by_cases hshort : f.payload.length < 8
  · -- too short for a UDP header: one of the length checks skips it
    simp only [hshort, if_true]
    split
    · rfl
    simp only [rd_version, ok_bind, hver, hihl, rd_proto, hp, rd16_total, ne_eq,
      not_true_eq_false, if_false]
    split
    · rfl
    rw [if_pos (by omega)]
    rfl
  · have hsport := rd16_payload f trailing (j := 0) (by omega)
    have hdport := rd16_payload f trailing (j := 2) (by omega)
    have hslice : rdSlice (f.encode ++ trailing) (f.headerLength + 8)
        (f.totalLength - f.headerLength - 8) = .ok (f.payload.drop 8) := by
      have hplen : f.totalLength - f.headerLength - 8 = (f.payload.drop 8).length := by
        rw [List.length_drop]
        omega
      rw [rdSlice, if_pos (by omega), hplen, Ipv4.encode, List.append_assoc, ← f.length_header,
        List.drop_length_add_append, List.drop_append_of_le_length (by omega)]
      simp
    rw [Nat.add_zero] at hsport
    simp only [hshort, if_false, rd_version, ok_bind, hver, hihl, rd_proto, hp, rd16_total,
      rd32_src, rd32_dst, ne_eq, not_true_eq_false, hsport, hdport, hslice]
    rw [if_neg (by omega), if_neg (by omega), if_neg (by omega)]
    rfl

/-! ## What the parser accepts -/

theorem rd_eq_getD {buf : Bytes} {i : Nat} (h : i < buf.length) :
    rd buf i = .ok (buf.getD i 0) := by
  rw [List.getD_eq_getElem _ _ h]
  exact rd_eq (List.getElem?_eq_getElem h)

theorem drop_eq_getD_cons {buf : Bytes} {i : Nat} (h : i < buf.length) :
    buf.drop i = buf.getD i 0 :: buf.drop (i + 1) := by
  rw [List.getD_eq_getElem _ _ h]
  exact List.drop_eq_getElem_cons h

/-- The conditions under which the parser takes a buffer, on the bytes of the header. -/
structure Accepted (buf : Bytes) : Prop where
  long : 28 ≤ buf.length
  version : (buf.getD 0 0).toNat / 16 = 4
  proto : buf.getD 9 0 = protoUdp
  ihl_ge : 20 ≤ (buf.getD 0 0).toNat % 16 * 4
  total_ge : (buf.getD 0 0).toNat % 16 * 4 + 8 ≤ word (buf.getD 2 0) (buf.getD 3 0)
  total_le : word (buf.getD 2 0) (buf.getD 3 0) ≤ buf.length

theorem accepted_of_some {buf : Bytes} {x : Flow × Bytes} (h : tunParse buf = .ok (some x)) :
    Accepted buf := by
  have hmask (y : Nat) : y &&& 0x0f = y % 16 := Nat.and_two_pow_sub_one_eq_mod y 4
  unfold tunParse at h
  by_cases hn : buf.length < 28
  · simp only [hn, if_true] at h
    cases h
  have h0 := rd_eq_getD (show 0 < buf.length by omega)
  have h9 := rd_eq_getD (show 9 < buf.length by omega)
  have h2 : rd16 buf 2 = .ok (word (buf.getD 2 0) (buf.getD 3 0)) := by
    rw [rd16, rd_eq_getD (show 2 < buf.length by omega), ok_bind,
      rd_eq_getD (show 2 + 1 < buf.length by omega), ok_bind]
    rfl
  simp only [hn, if_false, h0, h9, h2, ok_bind, hmask, Nat.shiftRight_eq_div_pow] at h
  split at h
  · cases h
  split at h
  · cases h
  split at h
  · cases h
  split at h
  · cases h
  rename_i hversion hproto hihl htotal
  exact ⟨by omega, by simpa using hversion, by simpa using hproto, by omega, by omega, by omega⟩

namespace Accepted

variable {buf : Bytes} (h : Accepted buf)

/-- The flags and the fragment offset as the header has them. -/
def flags (buf : Bytes) : Nat := word (buf.getD 6 0) (buf.getD 7 0)

/-- The packet at the front of an accepted buffer. -/
def packet {buf : Bytes} (h : Accepted buf) : Ipv4 where
  tos := buf.getD 1 0
  ident := UInt16.ofNat (word (buf.getD 4 0) (buf.getD 5 0))
  reserved := decide (flags buf / 32768 % 2 = 1)
  df := decide (flags buf / 16384 % 2 = 1)
  mf := decide (flags buf / 8192 % 2 = 1)
  fragOffset := ⟨flags buf % 8192, Nat.mod_lt _ (by decide)⟩
  ttl := buf.getD 8 0
  proto := buf.getD 9 0
  checksum := UInt16.ofNat (word (buf.getD 10 0) (buf.getD 11 0))
  src := UInt32.ofNat (quad (buf.getD 12 0) (buf.getD 13 0) (buf.getD 14 0) (buf.getD 15 0))
  dst := UInt32.ofNat (quad (buf.getD 16 0) (buf.getD 17 0) (buf.getD 18 0) (buf.getD 19 0))
  options := (buf.drop 20).take ((buf.getD 0 0).toNat % 16 * 4 - 20)
  payload := (buf.drop ((buf.getD 0 0).toNat % 16 * 4)).take
    (word (buf.getD 2 0) (buf.getD 3 0) - (buf.getD 0 0).toNat % 16 * 4)
  options_mod := by
    have h1 := h.ihl_ge
    have h2 := h.total_ge
    have h3 := h.total_le
    rw [List.length_take, List.length_drop]
    omega
  options_le := by
    rw [List.length_take]
    omega
  total_le := by
    have h1 := h.ihl_ge
    have h2 := h.total_ge
    have h3 := word_lt (buf.getD 2 0) (buf.getD 3 0)
    rw [List.length_take, List.length_take]
    omega

theorem headerLength_packet : h.packet.headerLength = (buf.getD 0 0).toNat % 16 * 4 := by
  have h1 := h.ihl_ge
  have h2 := h.total_ge
  have h3 := h.total_le
  rw [Ipv4.headerLength]
  simp only [packet, List.length_take, List.length_drop]
  omega

theorem totalLength_packet :
    h.packet.totalLength = word (buf.getD 2 0) (buf.getD 3 0) := by
  have h1 := h.ihl_ge
  have h2 := h.total_ge
  have h3 := h.total_le
  rw [Ipv4.totalLength, headerLength_packet]
  simp only [packet, List.length_take, List.length_drop]
  omega

theorem flagsOffset_packet : h.packet.flagsOffset = flags buf := by
  have hbit (n : Nat) : (decide (n % 2 = 1)).toNat = n % 2 := by
    rcases Nat.mod_two_eq_zero_or_one n with hn | hn
    · simp [hn]
    · simp [hn]
  have hlt : flags buf < 65536 := word_lt _ _
  rw [Ipv4.flagsOffset]
  simp only [packet, hbit, Nat.shiftLeft_eq]
  omega

/-- The first twenty bytes, one by one. -/
def fixedHeader (buf : Bytes) : Bytes :=
  [buf.getD 0 0, buf.getD 1 0, buf.getD 2 0, buf.getD 3 0,
    buf.getD 4 0, buf.getD 5 0, buf.getD 6 0, buf.getD 7 0, buf.getD 8 0, buf.getD 9 0,
    buf.getD 10 0, buf.getD 11 0, buf.getD 12 0, buf.getD 13 0, buf.getD 14 0, buf.getD 15 0,
    buf.getD 16 0, buf.getD 17 0, buf.getD 18 0, buf.getD 19 0]

theorem eq_fixedHeader {buf : Bytes} (h : Accepted buf) :
    buf = fixedHeader buf ++ buf.drop 20 := by
  have hn := h.long
  have hstep (i : Nat) (hi : i < 20) : buf.drop i = buf.getD i 0 :: buf.drop (i + 1) :=
    drop_eq_getD_cons (by omega)
  calc buf = buf.drop 0 := rfl
    _ = _ := by
      rw [hstep 0 (by decide), hstep 1 (by decide), hstep 2 (by decide), hstep 3 (by decide),
        hstep 4 (by decide), hstep 5 (by decide), hstep 6 (by decide), hstep 7 (by decide),
        hstep 8 (by decide), hstep 9 (by decide), hstep 10 (by decide), hstep 11 (by decide),
        hstep 12 (by decide), hstep 13 (by decide), hstep 14 (by decide), hstep 15 (by decide),
        hstep 16 (by decide), hstep 17 (by decide), hstep 18 (by decide), hstep 19 (by decide)]
      rfl

/-- The bytes after the fixed header: the options, the payload and what trails the packet. -/
theorem drop_header : buf.drop 20 = h.packet.options ++ (h.packet.payload ++
    buf.drop (word (buf.getD 2 0) (buf.getD 3 0))) := by
  have h1 := h.ihl_ge
  have h2 := h.total_ge
  have h3 := h.total_le
  simp only [packet]
  generalize hihl : (buf.getD 0 0).toNat % 16 * 4 = ihl at *
  generalize htotal : word (buf.getD 2 0) (buf.getD 3 0) = total at *
  have hbody : buf.drop total = (buf.drop ihl).drop (total - ihl) := by
    rw [List.drop_drop]
    congr 1
    omega
  have hpayload : buf.drop ihl = (buf.drop 20).drop (ihl - 20) := by
    rw [List.drop_drop]
    congr 1
    omega
  rw [hbody, List.take_append_drop, hpayload, List.take_append_drop]

theorem header_packet : h.packet.header = fixedHeader buf ++ h.packet.options := by
  have hversion : UInt8.ofNat (0x40 + h.packet.headerLength / 4) = buf.getD 0 0 := by
    have hlt := (buf.getD 0 0).toNat_lt
    have hv := h.version
    rw [headerLength_packet, ← UInt8.toNat_inj, UInt8.toNat_ofNat']
    omega
  have h16 (hi lo : UInt8) : (UInt16.ofNat (word hi lo)).toNat = word hi lo := by
    have hlt := word_lt hi lo
    rw [UInt16.toNat_ofNat']
    omega
  have h32 (a b c d : UInt8) : (UInt32.ofNat (quad a b c d)).toNat = quad a b c d := by
    have hlt := quad_lt a b c d
    rw [UInt32.toNat_ofNat']
    omega
  rw [Ipv4.header, hversion, totalLength_packet, flagsOffset_packet, flags]
  simp only [packet, h16, h32, bytes16_word, bytes32_quad, fixedHeader, List.cons_append,
    List.nil_append]

/-- **An accepted buffer starts with an encoded packet.** -/
theorem eq_encode : buf = h.packet.encode ++ buf.drop (word (buf.getD 2 0) (buf.getD 3 0)) := by
  have hfront := h.eq_fixedHeader
  rw [h.drop_header] at hfront
  rw [Ipv4.encode, header_packet, List.append_assoc, List.append_assoc]
  exact hfront

end Accepted

/-- **What the parser accepts** is an IPv4 packet with protocol UDP, perhaps followed by other
bytes. -/
theorem tunParse_eq_some {buf : Bytes} {x : Flow × Bytes} (h : tunParse buf = .ok (some x)) :
    ∃ (f : Ipv4) (trailing : Bytes), buf = f.encode ++ trailing ∧ f.proto = protoUdp :=
  have haccepted := accepted_of_some h
  ⟨_, _, haccepted.eq_encode, haccepted.proto⟩

end WebZapret.Relay
