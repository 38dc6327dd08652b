import WebZapret.Relay.RoundTrip
import WebZapret.Relay.Registry

/-!
# Fragmented datagrams

The reader does not look at the fragment offset, so every fragment of at least eight bytes is
relayed as a datagram of its own. A datagram reaches the right session, whole, exactly when it
was not fragmented: the first fragment has the datagram's ports, but only a part of its data.

Main result: `delivered_intact_iff`.
-/

namespace WebZapret.Relay

/-- The payload goes to the datagram's destination and is the whole of its data. -/
def Intact (dst : UInt32) (u : Udp) (d : Delivery) : Prop :=
  d.flow.tip = dst ∧ d.flow.tport = u.dport ∧ d.payload = u.data

/-- Whatever the reader delivers of these packets is intact, in any registry and whatever the
clock, the SOCKS5 server and the other threads do. -/
def DeliveredIntact (dst : UInt32) (u : Udp) (packets : List Bytes) : Prop :=
  ∀ (r : Registry) (turns : List Turn), ∀ d ∈ tunReader r (turns.zip packets), Intact dst u d

variable {src dst : UInt32} {u : Udp} {f g : Ipv4} {fs : List Ipv4}

theorem parse_fragment (h : f.proto = protoUdp) : tunParse f.encode = .ok (readUdp f) := by
  have hparse := tunParse_encode f [] h
  rwa [List.append_nil] at hparse

/-- An unfragmented datagram is read as it is. -/
theorem readUdp_whole (h : Fragments src dst u [f]) :
    readUdp f = some (⟨src, u.sport, dst, u.dport⟩, u.data) := by
  obtain ⟨hsrc, hdst, -⟩ := h.addresses f List.mem_cons_self
  have hbody := h.body
  rw [List.flatMap_singleton] at hbody
  rw [readUdp_encode hbody, hsrc, hdst]

/-- The first of several fragments is read as a datagram with less data. -/
theorem readUdp_first (h : Fragments src dst u (f :: g :: fs)) :
    ∃ flow payload, readUdp f = some (flow, payload) ∧ payload ≠ u.data := by
  obtain ⟨-, -, hmod, hne, -⟩ := h.chain
  have hlong : ¬f.payload.length < 8 := by
    have hpos := List.length_pos_iff.mpr hne
    omega
  have hrest : 0 < g.payload.length :=
    List.length_pos_iff.mpr (h.last_ne g (List.mem_cons_of_mem _ List.mem_cons_self))
  have htotal := congrArg List.length h.body
  rw [List.flatMap_cons, List.flatMap_cons, List.length_append, List.length_append,
    Udp.length_encode] at htotal
  refine ⟨_, _, by simp only [readUdp, hlong, if_false]; rfl, fun heq => ?_⟩
  have hlen := congrArg List.length heq
  rw [List.length_drop] at hlen
  omega

theorem deliveredIntact_whole {packets : List Bytes} (h : Fragments src dst u [f])
    (hp : packets.Perm [f.encode]) : DeliveredIntact dst u packets := by
  have hproto := (h.addresses f List.mem_cons_self).2.2
  intro r turns d hd
  obtain ⟨x, hx, hparse⟩ := mem_tunReader hd
  have hmem : x.2 ∈ packets := (List.of_mem_zip (a := x.1) (b := x.2) hx).2
  have heq : x.2 = f.encode := List.mem_singleton.mp (hp.mem_iff.mp hmem)
  rw [heq, parse_fragment hproto, readUdp_whole h] at hparse
  injection hparse with hparse
  injection hparse with hparse
  injection hparse with hflow hpayload
  exact ⟨by rw [← hflow], by rw [← hflow], hpayload.symm⟩

theorem not_deliveredIntact_fragmented {packets : List Bytes}
    (h : Fragments src dst u (f :: g :: fs))
    (hp : packets.Perm ((f :: g :: fs).map Ipv4.encode)) : ¬DeliveredIntact dst u packets := by
  intro hintact
  have hproto := (h.addresses f List.mem_cons_self).2.2
  obtain ⟨flow, payload, hread, hne⟩ := readUdp_first h
  have hmem : f.encode ∈ packets :=
    hp.mem_iff.mpr (List.mem_map_of_mem (f := Ipv4.encode) List.mem_cons_self)
  have hparse : tunParse f.encode = .ok (some (flow, payload)) := by
    rw [parse_fragment hproto, hread]
  have hempty : Registry.empty.Allocated := fun i hi => by cases hi
  have hdelivered := mem_tunReader_quiet hempty (d := ⟨flow, payload⟩) hmem hparse
  rw [List.map_prod_right_eq_zip] at hdelivered
  exact hne (hintact _ _ _ hdelivered).2.2

/-- **Exactly the unfragmented datagrams are delivered intact.** However a datagram is cut and
in whatever order its packets arrive, everything the reader delivers is for the datagram's
destination and is the whole of its data just in case the datagram is one packet. -/
theorem delivered_intact_iff {packets : List Bytes} (h : Fragments src dst u fs)
    (hp : packets.Perm (fs.map Ipv4.encode)) :
    DeliveredIntact dst u packets ↔ fs.length = 1 := by
  match fs, h, hp with
  | [], h, _ => exact h.chain.elim
  | [f], h, hp => exact ⟨fun _ => rfl, fun _ => deliveredIntact_whole h hp⟩
  | f :: g :: fs, h, hp =>
    refine ⟨fun hintact => absurd hintact (not_deliveredIntact_fragmented h hp), fun hlen => ?_⟩
    simp only [List.length_cons] at hlen
    omega

/-! ## A datagram in two fragments -/

/-- A fragment of a datagram from 10.0.0.1 to 10.0.0.2. -/
def exampleFragment (mf : Bool) (fragOffset : Fin 8192) (payload : Bytes)
    (h : payload.length ≤ 65515) : Ipv4 where
  tos := 0
  ident := 7
  reserved := false
  df := false
  mf := mf
  fragOffset := fragOffset
  ttl := 64
  proto := protoUdp
  checksum := 0
  src := 0x0a000001
  dst := 0x0a000002
  options := []
  payload := payload
  options_mod := Ipv4.options_mod_nil
  options_le := Ipv4.options_le_nil
  total_le := by
    rw [List.length_nil]
    omega

def exampleUdp : Udp := ⟨1000, 53, 0, [0, 0, 0, 0, 0, 0, 0, 0, 0x12, 0x34, 0xab, 0xcd, 1, 2, 3, 4]⟩

def firstFragment : Ipv4 := exampleFragment true 0 (exampleUdp.encode.take 16) (by decide)

def secondFragment : Ipv4 := exampleFragment false 2 (exampleUdp.encode.drop 16) (by decide)

theorem exampleFragments :
    Fragments 0x0a000001 0x0a000002 exampleUdp [firstFragment, secondFragment] where
  chain := ⟨rfl, rfl, rfl, by decide, rfl, rfl⟩
  body := by decide
  last_ne := by decide
  addresses := by decide

/-- **A misdirected fragment.** The second fragment of a datagram for port 53 arrives first and
is relayed to port 43981, which it has from its data. -/
theorem second_fragment_misdirected :
    Fragments 0x0a000001 0x0a000002 exampleUdp [firstFragment, secondFragment] ∧
    tunReader Registry.empty
      ([Turn.quiet, Turn.quiet].zip [secondFragment.encode, firstFragment.encode]) =
      [⟨⟨0x0a000001, 0x1234, 0x0a000002, 43981⟩, []⟩,
        ⟨⟨0x0a000001, 1000, 0x0a000002, 53⟩, [0, 0, 0, 0, 0, 0, 0, 0]⟩] ∧
    ¬DeliveredIntact 0x0a000002 exampleUdp [secondFragment.encode, firstFragment.encode] := by
  have hrun : tunReader Registry.empty
      ([Turn.quiet, Turn.quiet].zip [secondFragment.encode, firstFragment.encode]) =
      [⟨⟨0x0a000001, 0x1234, 0x0a000002, 43981⟩, []⟩,
        ⟨⟨0x0a000001, 1000, 0x0a000002, 53⟩, [0, 0, 0, 0, 0, 0, 0, 0]⟩] := by decide
  refine ⟨exampleFragments, hrun, fun hintact => ?_⟩
  have hfirst := hintact Registry.empty [Turn.quiet, Turn.quiet]
  rw [hrun] at hfirst
  have hport := (hfirst _ List.mem_cons_self).2.1
  exact absurd hport (by decide)

theorem delivered_intact_iff_two :
    DeliveredIntact 0x0a000002 exampleUdp [secondFragment.encode, firstFragment.encode] ↔
      [firstFragment, secondFragment].length = 1 :=
  delivered_intact_iff exampleFragments (List.Perm.swap _ _ _)

end WebZapret.Relay
