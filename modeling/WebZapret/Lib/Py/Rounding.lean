import WebZapret.Lib.Py.Json
import Mathlib.Tactic.Positivity
import Mathlib.Tactic.Linarith
import Mathlib.Algebra.Order.Field.Power
import Mathlib.Data.Rat.Floor

/-!
# Integers as doubles

`float(i)` of a number that is not huge is a double and no infinity (`floatOfInt_ok`).
-/

namespace WebZapret.Py

theorem pow2_eq_zpow (e : Int) : pow2 e = (2 : Rat) ^ e := by
  unfold pow2
  split
  · rename_i h
    obtain ⟨n, rfl⟩ := Int.eq_ofNat_of_zero_le h
    simp
  · rename_i h
    obtain ⟨n, hn⟩ := Int.eq_ofNat_of_zero_le (by omega : 0 ≤ -e)
    rw [hn, show e = -(n : Int) by omega]
    simp

theorem roundHalfEven_le (q : Rat) : (roundHalfEven q : Rat) ≤ q + 1 := by
  have hfloor := Int.floor_le q
  have hsame : q.floor = ⌊q⌋ := rfl
  unfold roundHalfEven
  dsimp only
  rw [hsame]
  split_ifs <;> push_cast <;> linarith

/-- The exponent of a natural number is at most its number of binary digits. -/
theorem exponent_natCast_le (n : Nat) : exponent n ≤ Nat.log2 n := by
  have hone : Nat.log2 1 = 0 := by decide
  unfold exponent
  simp only [Rat.num_natCast, Rat.den_natCast, Int.toNat_natCast, hone]
  split <;> omega

/-- A natural number that is not huge does not become an infinity. -/
theorem round_natCast_ne_inf {n : Nat} (h : n < 2 ^ 100) (neg : Bool) :
    Flt.round n ≠ .inf neg := by
  unfold Flt.round
  by_cases hzero : (n : Rat) = 0
  · rw [if_pos hzero]
    exact nofun
  have hpos : 0 < n := Nat.pos_of_ne_zero fun heq => hzero (by rw [heq]; rfl)
  rw [if_neg hzero]
  dsimp only
  rw [abs_of_nonneg (Nat.cast_nonneg n)]
  generalize hp : max (exponent (n : Rat) - 52) (-1074) = p
  -- the last place is worth at most the number itself
  have hplace : pow2 p ≤ n := by
    have hle : p ≤ Nat.log2 n := by
      have hexponent := exponent_natCast_le n
      omega
    calc pow2 p = (2 : Rat) ^ p := pow2_eq_zpow p
      _ ≤ (2 : Rat) ^ (Nat.log2 n : Int) := zpow_le_zpow_right₀ (by norm_num) hle
      _ = ((2 ^ Nat.log2 n : Nat) : Rat) := by push_cast; rw [zpow_natCast]
      _ ≤ n := Nat.cast_le.mpr (Nat.log2_self_le hpos.ne')
  have hunit : 0 < pow2 p := by
    rw [pow2_eq_zpow]
    positivity
  have hrounded : (roundHalfEven (n / pow2 p) : Rat) * pow2 p < pow2 1024 := by
    calc (roundHalfEven (n / pow2 p) : Rat) * pow2 p
        ≤ (n / pow2 p + 1) * pow2 p :=
          mul_le_mul_of_nonneg_right (roundHalfEven_le _) hunit.le
      _ = n + pow2 p := by rw [add_mul, div_mul_cancel₀ _ hunit.ne', one_mul]
      _ ≤ ((2 * n : Nat) : Rat) := by
        push_cast
        linarith
      _ < ((2 ^ 101 : Nat) : Rat) := Nat.cast_lt.mpr (by omega)
      _ = (2 : Rat) ^ ((101 : Nat) : Int) := by
        rw [zpow_natCast]
        push_cast
        rfl
      _ ≤ (2 : Rat) ^ (1024 : Int) := zpow_le_zpow_right₀ (by norm_num) (by norm_num)
      _ = pow2 1024 := (pow2_eq_zpow 1024).symm
  rw [if_neg (not_le_of_gt hrounded)]
  split
  · split <;> exact nofun
  · exact nofun

/-- A natural number that is not huge is a double. -/
theorem floatOfInt_ok {n : Nat} (h : n < 2 ^ 100) : ∃ x, Json.floatOfInt n = .ok x := by
  unfold Json.floatOfInt
  split
  · rename_i neg hinf
    exact absurd hinf (round_natCast_ne_inf h neg)
  · exact ⟨_, rfl⟩

end WebZapret.Py
