import WebZapret.Lib.Py.Codec

/-!
# The round trip of UTF-8

The octets of a text are decoded to the text, strictly or with replacement characters, and with any
octets after them (`decodeStrict_flatMap`, `decode_flatMap`).
-/

namespace WebZapret.Py

/-- The code points of Python's texts. -/
def IsText (s : Str) : Prop := ∀ c ∈ s, c < 1114112

instance (s : Str) : Decidable (IsText s) := inferInstanceAs (Decidable (∀ c ∈ s, c < 1114112))

theorem isText_cons {c : Nat} {s : Str} : IsText (c :: s) ↔ c < 1114112 ∧ IsText s :=
  List.forall_mem_cons

theorem isText_append {s t : Str} : IsText (s ++ t) ↔ IsText s ∧ IsText t := List.forall_mem_append

theorem IsText.suffix {s t : Str} (h : IsText s) (ht : t <:+ s) : IsText t := fun c hc => h c (ht.mem hc)

namespace Utf8

variable {c : Nat}

/-- The first octet of two gives the upper bits, and the other one fits. -/
theorem lead_two (h : 128 ≤ c) (hlt : c < 2048) :
    lead (192 + c / 64) = .inr ⟨c / 64, 1, 128, 191⟩ := by
  unfold lead
  have hbits : 192 + c / 64 - 192 = c / 64 := by omega
  rw [if_neg (by omega), if_neg (by omega), if_pos (by omega), hbits]

/-- The first octet of three. -/
theorem lead_three (h : 2048 ≤ c) (hlt : c < 65536) (hsurrogate : ¬(55296 ≤ c ∧ c ≤ 57343)) :
    ∃ lo hi, lead (224 + c / 4096) = .inr ⟨c / 4096, 2, lo, hi⟩ ∧
      lo ≤ 128 + c / 64 % 64 ∧ 128 + c / 64 % 64 ≤ hi := by
  unfold lead
  rw [if_neg (by omega), if_neg (by omega), if_neg (by omega)]
  split_ifs with h0 h13
  · exact ⟨160, 191, by simp; omega, by omega, by omega⟩
  · exact ⟨128, 159, by simp; omega, by omega, by omega⟩
  · exact ⟨128, 191, by simp, by omega, by omega⟩
  all_goals omega

/-- The first octet of four. -/
theorem lead_four (h : 65536 ≤ c) (hlt : c < 1114112) :
    ∃ lo hi, lead (240 + c / 262144) = .inr ⟨c / 262144, 3, lo, hi⟩ ∧
      lo ≤ 128 + c / 4096 % 64 ∧ 128 + c / 4096 % 64 ≤ hi := by
  unfold lead
  rw [if_neg (by omega), if_neg (by omega), if_neg (by omega), if_neg (by omega), if_neg (by omega),
    if_neg (by omega)]
  split_ifs with h0 h1 h4
  · exact ⟨144, 191, by simp; omega, by omega, by omega⟩
  · exact ⟨128, 191, by simp, by omega, by omega⟩
  · exact ⟨128, 143, by simp; omega, by omega, by omega⟩
  · omega

theorem join_last (hi lo owed n : Nat) :
    (Pending.mk (n / 64) owed lo hi).join (128 + n % 64) = n := by
  unfold Pending.join
  dsimp only
  omega

theorem join_next (hi lo owed n k : Nat) :
    (Pending.mk (n / (64 * k)) owed lo hi).join (128 + n / k % 64) = n / k := by
  unfold Pending.join
  dsimp only
  rw [Nat.mul_comm 64 k, ← Nat.div_div_eq_div_mul]
  omega

/-- An octet after the first one of a sequence. -/
theorem trailing (n : Nat) : 128 ≤ 128 + n % 64 ∧ 128 + n % 64 ≤ 191 := by omega

/-- **The octets of a character are decoded to it.** -/
theorem decodeStrict_octets (hlt : c < 1114112) (hsurrogate : ¬(55296 ≤ c ∧ c ≤ 57343))
    (rest : List Nat) :
    decodeStrictFrom none (octets c ++ rest) = (decodeStrictFrom none rest).map (c :: ·) := by
  unfold octets
  split_ifs with h1 h2 h3
  · have hlead : lead c = .inl c := if_pos h1
    simp [decodeStrictFrom, hlead, h1]
  · simp [decodeStrictFrom, lead_two (not_lt.mp h1) h2, trailing c, join_last]
  · obtain ⟨lo, hi, hlead, hin⟩ := lead_three (not_lt.mp h2) h3 hsurrogate
    simp [decodeStrictFrom, hlead, hin, trailing c, join_next hi lo 2 c 64, join_last]
  · obtain ⟨lo, hi, hlead, hin⟩ := lead_four (not_lt.mp h3) hlt
    simp [decodeStrictFrom, hlead, hin, trailing c, trailing (c / 64), join_next hi lo 3 c 4096,
      join_next 191 128 2 c 64, join_last]

theorem decode_octets (hlt : c < 1114112) (hsurrogate : ¬(55296 ≤ c ∧ c ≤ 57343)) (rest : List Nat) :
    decodeFrom none (octets c ++ rest) = c :: decodeFrom none rest := by
  unfold octets
  split_ifs with h1 h2 h3
  · have hlead : lead c = .inl c := if_pos h1
    simp [decodeFrom, hlead]
  · simp [decodeFrom, lead_two (not_lt.mp h1) h2, trailing c, join_last]
  · obtain ⟨lo, hi, hlead, hin⟩ := lead_three (not_lt.mp h2) h3 hsurrogate
    simp [decodeFrom, hlead, hin, trailing c, join_next hi lo 2 c 64, join_last]
  · obtain ⟨lo, hi, hlead, hin⟩ := lead_four (not_lt.mp h3) hlt
    simp [decodeFrom, hlead, hin, trailing c, trailing (c / 64), join_next hi lo 3 c 4096,
      join_next 191 128 2 c 64, join_last]

variable {s : Str}

/-- **What was encoded is decoded to itself.** -/
theorem decodeStrict_flatMap (htext : IsText s) (h : EncodableText s) :
    decodeStrict (s.flatMap octets) = some s := by
  unfold decodeStrict
  induction s with
  | nil => rfl
  | cons c s ih =>
    obtain ⟨hc, hs⟩ := List.forall_mem_cons.mp htext
    obtain ⟨hc', hs'⟩ := List.forall_mem_cons.mp h
    rw [List.flatMap_cons, decodeStrict_octets hc hc', ih hs hs']
    rfl

/-- The text comes first, whatever is after its octets. -/
theorem decode_flatMap (htext : IsText s) (h : EncodableText s) (rest : List Nat) :
    decode (s.flatMap octets ++ rest) = s ++ decode rest := by
  unfold decode
  induction s with
  | nil => rfl
  | cons c s ih =>
    obtain ⟨hc, hs⟩ := List.forall_mem_cons.mp htext
    obtain ⟨hc', hs'⟩ := List.forall_mem_cons.mp h
    rw [List.flatMap_cons, List.append_assoc, decode_octets hc hc', ih hs hs']
    rfl

/-- A character that is cut off is replaced. -/
theorem decode_cut (hlt : c < 1114112) (hsurrogate : ¬(55296 ≤ c ∧ c ≤ 57343)) {n : Nat} (hn : 0 < n)
    (hcut : n < (octets c).length) : decode ((octets c).take n) = [65533] := by
  unfold octets at hcut ⊢
  unfold decode
  split_ifs at hcut ⊢ with h1 h2 h3
  · simp only [List.length_cons, List.length_nil] at hcut
    omega
  · obtain rfl : n = 1 := by
      simp only [List.length_cons, List.length_nil] at hcut
      omega
    simp [decodeFrom, lead_two (not_lt.mp h1) h2]
  · obtain ⟨lo, hi, hlead, hin⟩ := lead_three (not_lt.mp h2) h3 hsurrogate
    obtain rfl | rfl : n = 1 ∨ n = 2 := by
      simp only [List.length_cons, List.length_nil] at hcut
      omega
    · simp [decodeFrom, hlead]
    · simp [decodeFrom, hlead, hin]
  · obtain ⟨lo, hi, hlead, hin⟩ := lead_four (not_lt.mp h3) hlt
    obtain rfl | rfl | rfl : n = 1 ∨ n = 2 ∨ n = 3 := by
      simp only [List.length_cons, List.length_nil] at hcut
      omega
    · simp [decodeFrom, hlead]
    · simp [decodeFrom, hlead, hin]
    · simp [decodeFrom, hlead, hin, trailing (c / 64)]

/-- **A text that is cut off is decoded to a beginning of it**, with a replacement character for what is
left of the last one. -/
theorem decode_take (htext : IsText s) (h : EncodableText s) {n : Nat}
    (hn : n < (s.flatMap octets).length) :
    ∃ front extra, decode ((s.flatMap octets).take n) = front ++ extra ∧ front <+: s ∧ front ≠ s ∧
      (extra = [] ∨ extra = [65533]) := by
  induction s generalizing n with
  | nil => exact absurd hn (Nat.not_lt_zero n)
  | cons c s ih =>
    obtain ⟨hc, hs⟩ := List.forall_mem_cons.mp htext
    obtain ⟨hc', hs'⟩ := List.forall_mem_cons.mp h
    rw [List.flatMap_cons, List.length_append] at hn
    rw [List.flatMap_cons, List.take_append]
    by_cases hlong : (octets c).length ≤ n
    · obtain ⟨front, extra, hdecode, hpre, hne, hextra⟩ :=
        ih hs hs' (n := n - (octets c).length) (by omega)
      refine ⟨c :: front, extra, ?_, List.cons_prefix_cons.mpr ⟨rfl, hpre⟩, ?_, hextra⟩
      · rw [List.take_of_length_le hlong, decode, decode_octets hc hc', ← decode, hdecode]
        rfl
      · exact fun heq => hne (List.cons.inj heq).2
    · have hzero : n - (octets c).length = 0 := by omega
      rw [hzero, List.take_zero, List.append_nil]
      rcases Nat.eq_zero_or_pos n with rfl | hpos
      · exact ⟨[], [], rfl, List.nil_prefix, (List.cons_ne_nil _ _).symm, .inl rfl⟩
      · exact ⟨[], [65533], decode_cut hc hc' hpos (not_le.mp hlong), List.nil_prefix,
          (List.cons_ne_nil _ _).symm, .inr rfl⟩

/-! ## What was decoded -/

/-- The characters that can complete the sequence are code points. -/
def Pending.Small (p : Pending) : Prop :=
  128 ≤ p.lo ∧ (p.bits * 64 + (p.hi - 128) + 1) * 64 ^ (p.owed - 1) ≤ 1114112

theorem lead_inl_lt {b c : Nat} (h : lead b = .inl c) : c < 1114112 := by
  unfold lead at h
  split_ifs at h <;>
    have hc := Sum.inl.inj h <;>
    omega

theorem lead_small {b : Nat} {p : Pending} (h : lead b = .inr p) : p.Small := by
  unfold lead at h
  unfold Pending.Small
  split_ifs at h <;>
    first
    | exact absurd h Sum.inl_ne_inr
    | (have hp := Sum.inr.inj h
       subst hp
       dsimp only
       omega)

theorem Pending.Small.next {p : Pending} (h : p.Small) {b : Nat} (hhi : b ≤ p.hi) (howed : ¬p.owed ≤ 1) :
    (Pending.mk (p.join b) (p.owed - 1) 128 191).Small := by
  obtain ⟨hlo, hbound⟩ := h
  obtain ⟨n, hn⟩ : ∃ n, p.owed - 1 = n + 1 := ⟨p.owed - 2, by omega⟩
  have hjoin : p.join b * 64 + (191 - 128) + 1 ≤ (p.bits * 64 + (p.hi - 128) + 1) * 64 := by
    unfold Pending.join
    omega
  refine ⟨le_refl 128, ?_⟩
  dsimp only
  rw [hn] at hbound ⊢
  calc (p.join b * 64 + (191 - 128) + 1) * 64 ^ (n + 1 - 1)
      ≤ (p.bits * 64 + (p.hi - 128) + 1) * 64 * 64 ^ n := Nat.mul_le_mul_right _ hjoin
    _ = (p.bits * 64 + (p.hi - 128) + 1) * 64 ^ (n + 1) := by rw [Nat.pow_succ']; ring
    _ ≤ 1114112 := hbound

theorem Pending.Small.last {p : Pending} (h : p.Small) {b : Nat} (hhi : b ≤ p.hi) (howed : p.owed ≤ 1) :
    p.join b < 1114112 := by
  obtain ⟨hlo, hbound⟩ := h
  have hzero : p.owed - 1 = 0 := by omega
  rw [hzero, Nat.pow_zero, Nat.mul_one] at hbound
  unfold Pending.join
  omega

theorem isText_decodeStrictFrom {state : Option Pending} (hstate : ∀ p ∈ state, p.Small)
    {bytes : List Nat} {s : Str} (h : decodeStrictFrom state bytes = some s) : IsText s := by
  induction bytes generalizing state s with
  | nil =>
    cases state with
    | none =>
      cases h
      exact List.forall_mem_nil _
    | some p => cases h
  | cons b bytes ih =>
    have hstart : ∀ p ∈ (none : Option Pending), p.Small := by
      intro p hp
      cases hp
    cases state with
    | none =>
      rw [decodeStrictFrom] at h
      split at h
      · rename_i c hlead
        split_ifs at h
        obtain ⟨t, ht, rfl⟩ := Option.map_eq_some_iff.mp h
        exact List.forall_mem_cons.mpr ⟨lead_inl_lt hlead, ih hstart ht⟩
      · rename_i p hlead
        refine ih (fun q hq => ?_) h
        obtain rfl := Option.some.inj hq
        exact lead_small hlead
    | some p =>
      have hp := hstate p rfl
      rw [decodeStrictFrom] at h
      split_ifs at h with hrange howed
      · obtain ⟨t, ht, rfl⟩ := Option.map_eq_some_iff.mp h
        exact List.forall_mem_cons.mpr ⟨hp.last hrange.2 howed, ih hstart ht⟩
      · refine ih (fun q hq => ?_) h
        obtain rfl := Option.some.inj hq
        exact hp.next hrange.2 howed

/-- A text that was decoded has code points. -/
theorem isText_decodeStrict {bytes : List Nat} {s : Str} (h : decodeStrict bytes = some s) : IsText s :=
  isText_decodeStrictFrom (by simp) h

end Utf8

end WebZapret.Py
