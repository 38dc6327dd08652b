import Mathlib.Data.List.Basic
import Mathlib.Data.Nat.Bitwise
import Mathlib.Data.Nat.ModEq
import Mathlib.Tactic.Ring

/-!
# Network byte order and one's complement sums

Big-endian words read from bytes and written to them, and the Internet checksum: the sum of the
16-bit words of a byte string (an odd last byte is the high half of a word), with the carries
folded back in.

`fold s` is the one's complement sum: it keeps `s` modulo `2 ^ 16 - 1` and never maps a positive
sum to 0. A checksum is the complement of such a sum, and adding it gives `0xffff`
(`fold_add_complement`). Adding word by word, with end-around carries, gives the same sum
(`onesSum_eq_fold`).
-/

namespace WebZapret

abbrev Bytes := List UInt8

/-! ## Big-endian words -/

/-- `(hi << 8) | lo` -/
def word (hi lo : UInt8) : Nat := hi.toNat <<< 8 ||| lo.toNat

/-- `(a << 24) | (b << 16) | (c << 8) | d` -/
def quad (a b c d : UInt8) : Nat :=
  a.toNat <<< 24 ||| b.toNat <<< 16 ||| c.toNat <<< 8 ||| d.toNat

/-- The two low bytes of a number, high byte first. -/
def bytes16 (x : Nat) : Bytes := [UInt8.ofNat (x >>> 8), UInt8.ofNat (x &&& 0xff)]

/-- The four low bytes of a number, high byte first. -/
def bytes32 (x : Nat) : Bytes :=
  [UInt8.ofNat (x >>> 24), UInt8.ofNat (x >>> 16), UInt8.ofNat (x >>> 8), UInt8.ofNat (x &&& 0xff)]

theorem word_eq (hi lo : UInt8) : word hi lo = 256 * hi.toNat + lo.toNat := by
  have hlo : lo.toNat < 2 ^ 8 := lo.toNat_lt
  rw [word, ← Nat.shiftLeft_add_eq_or_of_lt hlo, Nat.shiftLeft_eq]
  omega

theorem word_lt (hi lo : UInt8) : word hi lo < 65536 := by
  have hhi := hi.toNat_lt
  have hlo := lo.toNat_lt
  rw [word_eq]
  omega

theorem quad_eq (a b c d : UInt8) :
    quad a b c d = 16777216 * a.toNat + 65536 * b.toNat + 256 * c.toNat + d.toNat := by
  have hb := b.toNat_lt
  have hc := c.toNat_lt
  have hd := d.toNat_lt
  have h24 : b.toNat <<< 16 ||| (c.toNat <<< 8 ||| d.toNat) =
      65536 * b.toNat + 256 * c.toNat + d.toNat := by
    rw [← Nat.shiftLeft_add_eq_or_of_lt (b := d.toNat) (i := 8) (by omega),
      ← Nat.shiftLeft_add_eq_or_of_lt (i := 16) (by rw [Nat.shiftLeft_eq]; omega),
      Nat.shiftLeft_eq, Nat.shiftLeft_eq]
    omega
  rw [quad, Nat.or_assoc, Nat.or_assoc, h24,
    ← Nat.shiftLeft_add_eq_or_of_lt (i := 24) (by omega), Nat.shiftLeft_eq]
  omega

theorem quad_lt (a b c d : UInt8) : quad a b c d < 2 ^ 32 := by
  have ha := a.toNat_lt
  have hb := b.toNat_lt
  have hc := c.toNat_lt
  have hd := d.toNat_lt
  rw [quad_eq]
  omega

@[simp] theorem length_bytes16 (x : Nat) : (bytes16 x).length = 2 := rfl

@[simp] theorem length_bytes32 (x : Nat) : (bytes32 x).length = 4 := rfl

/-- Reading back the bytes of a 16-bit word. -/
theorem word_bytes16 {x : Nat} (hx : x < 65536) :
    word (UInt8.ofNat (x >>> 8)) (UInt8.ofNat (x &&& 0xff)) = x := by
  have hmask : x &&& 0xff = x % 256 := Nat.and_two_pow_sub_one_eq_mod x 8
  rw [word_eq, hmask, Nat.shiftRight_eq_div_pow]
  simp only [UInt8.toNat_ofNat']
  omega

/-- Reading back the bytes of a 32-bit word. -/
theorem quad_bytes32 {x : Nat} (hx : x < 2 ^ 32) :
    quad (UInt8.ofNat (x >>> 24)) (UInt8.ofNat (x >>> 16)) (UInt8.ofNat (x >>> 8))
      (UInt8.ofNat (x &&& 0xff)) = x := by
  have hmask : x &&& 0xff = x % 256 := Nat.and_two_pow_sub_one_eq_mod x 8
  rw [quad_eq, hmask, Nat.shiftRight_eq_div_pow, Nat.shiftRight_eq_div_pow,
    Nat.shiftRight_eq_div_pow]
  simp only [UInt8.toNat_ofNat']
  omega

/-- Writing back a word that was read. -/
theorem bytes16_word (hi lo : UInt8) : bytes16 (word hi lo) = [hi, lo] := by
  have hmask : word hi lo &&& 0xff = word hi lo % 256 := Nat.and_two_pow_sub_one_eq_mod _ 8
  have hhi := hi.toNat_lt
  have hlo := lo.toNat_lt
  have hword := word_eq hi lo
  have hhigh : UInt8.ofNat (word hi lo / 2 ^ 8) = hi := by
    rw [← UInt8.toNat_inj, UInt8.toNat_ofNat']
    omega
  have hlow : UInt8.ofNat (word hi lo % 256) = lo := by
    rw [← UInt8.toNat_inj, UInt8.toNat_ofNat']
    omega
  rw [bytes16, hmask, Nat.shiftRight_eq_div_pow, hhigh, hlow]

theorem bytes32_quad (a b c d : UInt8) : bytes32 (quad a b c d) = [a, b, c, d] := by
  have hmask : quad a b c d &&& 0xff = quad a b c d % 256 := Nat.and_two_pow_sub_one_eq_mod _ 8
  have ha := a.toNat_lt
  have hb := b.toNat_lt
  have hc := c.toNat_lt
  have hd := d.toNat_lt
  have hquad := quad_eq a b c d
  have h24 : UInt8.ofNat (quad a b c d / 2 ^ 24) = a := by
    rw [← UInt8.toNat_inj, UInt8.toNat_ofNat']
    omega
  have h16 : UInt8.ofNat (quad a b c d / 2 ^ 16) = b := by
    rw [← UInt8.toNat_inj, UInt8.toNat_ofNat']
    omega
  have h8 : UInt8.ofNat (quad a b c d / 2 ^ 8) = c := by
    rw [← UInt8.toNat_inj, UInt8.toNat_ofNat']
    omega
  have h0 : UInt8.ofNat (quad a b c d % 256) = d := by
    rw [← UInt8.toNat_inj, UInt8.toNat_ofNat']
    omega
  rw [bytes32, hmask, Nat.shiftRight_eq_div_pow, Nat.shiftRight_eq_div_pow,
    Nat.shiftRight_eq_div_pow, h24, h16, h8, h0]

/-! ## One's complement sums -/

/-- The sum of the 16-bit words of a byte string. -/
def wordSum : Bytes → Nat
  | [] => 0
  | [a] => word a 0
  | a :: b :: t => word a b + wordSum t

/-- The words of a string of even length followed by another are their words in turn. -/
theorem wordSum_append {s t : Bytes} (hs : s.length % 2 = 0) :
    wordSum (s ++ t) = wordSum s + wordSum t := by
  induction s using wordSum.induct with
  | case1 => simp [wordSum]
  | case2 a => simp at hs
  | case3 a b u ih =>
    have hu : u.length % 2 = 0 := by
      simp only [List.length_cons] at hs
      omega
    simp only [List.cons_append, wordSum, ih hu]
    omega

theorem wordSum_bytes16 {x : Nat} (hx : x < 65536) : wordSum (bytes16 x) = x := by
  simp only [bytes16, wordSum, word_bytes16 hx, Nat.add_zero]

theorem wordSum_bytes32 {x : Nat} (hx : x < 2 ^ 32) :
    wordSum (bytes32 x) = x / 65536 + x % 65536 := by
  have hmask : x &&& 0xff = x % 256 := Nat.and_two_pow_sub_one_eq_mod x 8
  simp only [bytes32, wordSum, word_eq, hmask, Nat.shiftRight_eq_div_pow, UInt8.toNat_ofNat']
  omega

theorem wordSum_le (s : Bytes) : wordSum s ≤ 65535 * ((s.length + 1) / 2) := by
  induction s using wordSum.induct with
  | case1 => simp [wordSum]
  | case2 a =>
    have := word_lt a 0
    simp only [wordSum, List.length_cons, List.length_nil]
    omega
  | case3 a b t ih =>
    have := word_lt a b
    simp only [wordSum, List.length_cons]
    omega

/-- `while (sum >> 16) sum = (sum & 0xffff) + (sum >> 16)` -/
def fold (sum : Nat) : Nat :=
  if sum >>> 16 = 0 then sum else fold ((sum &&& 0xffff) + sum >>> 16)
termination_by sum
decreasing_by
  rename_i h
  rw [Nat.shiftRight_eq_div_pow] at h ⊢
  have hmask : sum &&& 0xffff = sum % 65536 := Nat.and_two_pow_sub_one_eq_mod sum 16
  rw [hmask]
  omega

theorem fold_lt (s : Nat) : fold s < 65536 := by
  fun_induction fold s with
  | case1 s h =>
    rw [Nat.shiftRight_eq_div_pow] at h
    omega
  | case2 s h ih => exact ih

theorem fold_mod (s : Nat) : fold s % 65535 = s % 65535 := by
  fun_induction fold s with
  | case1 s h => rfl
  | case2 s h ih =>
    have hmask : s &&& 0xffff = s % 65536 := Nat.and_two_pow_sub_one_eq_mod s 16
    rw [ih, hmask, Nat.shiftRight_eq_div_pow]
    omega

theorem fold_pos {s : Nat} (hs : 0 < s) : 0 < fold s := by
  fun_induction fold s with
  | case1 s h => exact hs
  | case2 s h ih =>
    refine ih ?_
    have hmask : s &&& 0xffff = s % 65536 := Nat.and_two_pow_sub_one_eq_mod s 16
    rw [hmask, Nat.shiftRight_eq_div_pow] at *
    omega

/-- The complement of a 16-bit sum, `(uint16_t)~sum`. -/
def complement (s : Nat) : Nat := 0xffff - s

/-- A sum that includes the complement of the rest verifies. -/
theorem fold_add_complement (s : Nat) : fold (s + complement (fold s)) = 0xffff := by
  have hlt := fold_lt s
  have hmod := fold_mod s
  have hpos : 0 < s + complement (fold s) := by
    rcases Nat.eq_zero_or_pos s with rfl | hs
    · have : fold 0 = 0 := by rw [fold]; rfl
      rw [this]
      decide
    · omega
  have hres := fold_mod (s + complement (fold s))
  have hrange := fold_lt (s + complement (fold s))
  have hnz := fold_pos hpos
  have hzero : (s + complement (fold s)) % 65535 = 0 := by
    unfold complement
    omega
  omega

/-! ### Addition with an end-around carry -/

/-- The one's complement addition of two words. -/
def onesAdd (a b : Nat) : Nat := if a + b < 65536 then a + b else a + b - 65535

/-- The one's complement sum of the words of a byte string, padded with a zero byte. -/
def onesSum : Bytes → Nat
  | [] => 0
  | [a] => word a 0
  | a :: b :: t => onesAdd (word a b) (onesSum t)

/-- What `fold` gives is known by its remainder, except that 0 is the fold of 0 alone. -/
theorem eq_fold {x s : Nat} (hlt : x < 65536) (hmod : x % 65535 = s % 65535) (hpos : 0 < x ↔ 0 < s) :
    x = fold s := by
  have hlt' := fold_lt s
  have hmod' := fold_mod s
  rcases Nat.eq_zero_or_pos s with rfl | hs
  · have hzero : fold 0 = 0 := by
      rw [fold]
      rfl
    omega
  · have hx := hpos.mpr hs
    have hpos' := fold_pos hs
    omega

/-- **Adding with end-around carries is folding the sum.** -/
theorem onesSum_eq_fold (s : Bytes) : onesSum s = fold (wordSum s) := by
  induction s using wordSum.induct with
  | case1 =>
    rw [onesSum, wordSum, fold]
    rfl
  | case2 a => exact eq_fold (word_lt a 0) rfl .rfl
  | case3 a b t ih =>
    have hword := word_lt a b
    have hlt := fold_lt (wordSum t)
    have hmod := fold_mod (wordSum t)
    have hpos : 0 < fold (wordSum t) ↔ 0 < wordSum t := by
      refine ⟨fun h => ?_, fold_pos⟩
      by_contra hzero
      rw [Nat.eq_zero_of_not_pos hzero, fold] at h
      exact absurd h (by decide)
    rw [onesSum, wordSum, ih]
    unfold onesAdd
    refine eq_fold ?_ ?_ ?_
    all_goals
      split
      · omega
      · omega

end WebZapret
