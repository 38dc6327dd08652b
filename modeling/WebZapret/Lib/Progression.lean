import Mathlib.Algebra.Order.Group.Defs
import Mathlib.Algebra.Order.Monoid.Unbundled.Pow
import Mathlib.Algebra.Order.Archimedean.Basic
import Mathlib.Computability.StateTransition
import Mathlib.Order.Bounds.Basic

/-!
# Points of a progression beyond a bound

From an origin, one goes on in equal steps until a bound has been passed. The climb ends, as the steps
add up to more than any distance (`exists_mem_eval_climb`), and it ends at the least point of the
progression beyond the bound (`isLeast_of_mem_eval`): every point before has been looked at.

What is least beyond a bound grows with the bound, and is at most one step further than the bound or
the origin (`le_max_add_of_isLeast`).
-/

namespace WebZapret.Progression

open StateTransition

variable {G : Type*} [AddCommGroup G] [LinearOrder G]

/-- The points `origin + step`, `origin + 2 * step`, ... that are beyond the bound. -/
def beyond (origin step bound : G) : Set G :=
  {x | bound < x ∧ ∃ k : ℕ, 1 ≤ k ∧ x = origin + k • step}

/-- One round of `while x <= bound: x += step`, none when the loop is over. -/
def climb (step bound x : G) : Option G := if x ≤ bound then some (x + step) else none

variable {origin step bound x y : G}

theorem climb_eq_some : climb step bound x = some y ↔ x ≤ bound ∧ x + step = y := by
  unfold climb
  split_ifs with h
  · rw [Option.some.injEq, and_iff_right h]
  · exact iff_of_false nofun fun hxy => h hxy.1

theorem climb_eq_none : climb step bound x = none ↔ bound < x := by
  unfold climb
  split_ifs with h
  · exact iff_of_false nofun (not_lt.mpr h)
  · exact iff_of_true rfl (not_le.mp h)

/-- A point of the progression such that the one before it is not beyond the bound. -/
def Climbing (origin step bound x : G) : Prop :=
  ∃ k : ℕ, x = origin + (k + 1) • step ∧ (k = 0 ∨ origin + k • step ≤ bound)

theorem climbing_start (origin step bound : G) : Climbing origin step bound (origin + step) :=
  ⟨0, by rw [zero_add, one_nsmul], .inl rfl⟩

/-- **One round of the climb.** -/
theorem Climbing.next (h : Climbing origin step bound x) (hround : climb step bound x = some y) :
    Climbing origin step bound y := by
  obtain ⟨hle, rfl⟩ := climb_eq_some.mp hround
  obtain ⟨k, rfl, _⟩ := h
  exact ⟨k + 1, by rw [succ_nsmul step (k + 1), add_assoc], .inr hle⟩

theorem Climbing.reaches (h : Climbing origin step bound x)
    (hreaches : Reaches (climb step bound) x y) : Climbing origin step bound y := by
  induction hreaches with
  | refl => exact h
  | tail _ hround ih => exact ih.next hround

section Ordered

variable [IsOrderedAddMonoid G]

/-- Where the bound has been passed, nothing before has. -/
theorem Climbing.isLeast (h : Climbing origin step bound x) (hstep : 0 < step) (hx : bound < x) :
    IsLeast (beyond origin step bound) x := by
  obtain ⟨k, rfl, hbefore⟩ := h
  refine ⟨⟨hx, k + 1, Nat.succ_pos k, rfl⟩, ?_⟩
  rintro y ⟨hy, j, hj, rfl⟩
  have hkj : k < j := by
    rcases hbefore with rfl | hle
    · exact hj
    · have hlt := lt_of_add_lt_add_left (hle.trans_lt hy)
      exact (nsmul_lt_nsmul_iff_left hstep).mp hlt
  exact add_le_add_right ((nsmul_le_nsmul_iff_left hstep).mpr hkj) origin

/-- **Where the climb ends.** -/
theorem isLeast_of_mem_eval (hstep : 0 < step) (h : x ∈ eval (climb step bound) (origin + step)) :
    IsLeast (beyond origin step bound) x := by
  obtain ⟨hreaches, hend⟩ := mem_eval.mp h
  have hclimbing := (climbing_start origin step bound).reaches hreaches
  exact hclimbing.isLeast hstep (climb_eq_none.mp hend)

/-- **The climb ends**: the measure is the number of steps that cover the distance to the bound. -/
theorem exists_mem_eval_climb [Archimedean G] (hstep : 0 < step) (bound x : G) :
    ∃ y, y ∈ eval (climb step bound) x := by
  obtain ⟨n, hn⟩ := exists_lt_nsmul hstep (bound - x)
  induction n generalizing x with
  | zero =>
    rw [zero_nsmul, sub_neg] at hn
    exact ⟨x, mem_eval.mpr ⟨.refl, climb_eq_none.mpr hn⟩⟩
  | succ n ih =>
    rcases le_or_gt x bound with hle | hlt
    · have hround : climb step bound x = some (x + step) := climb_eq_some.mpr ⟨hle, rfl⟩
      rw [reaches_eval (.single hround)]
      refine ih (x + step) ?_
      rw [succ_nsmul] at hn
      rwa [← sub_sub, sub_lt_iff_lt_add]
    · exact ⟨x, mem_eval.mpr ⟨.refl, climb_eq_none.mpr hlt⟩⟩

end Ordered

/-! ## The least point -/

/-- The further the bound, the fewer points are beyond it. -/
theorem beyond_anti {bound' : G} (h : bound ≤ bound') :
    beyond origin step bound' ⊆ beyond origin step bound :=
  fun _ hx => ⟨h.trans_lt hx.1, hx.2⟩

/-- The least point is at most one step further than the bound or the origin. -/
theorem le_max_add_of_isLeast [IsOrderedAddMonoid G] (hstep : 0 < step)
    (h : IsLeast (beyond origin step bound) x) : x ≤ max bound origin + step := by
  obtain ⟨⟨hx, k, hk, rfl⟩, hleast⟩ := h
  obtain ⟨k, rfl⟩ := Nat.exists_eq_add_of_le' hk
  rw [succ_nsmul, ← add_assoc]
  refine add_le_add_left ?_ step
  cases k with
  | zero =>
    rw [zero_nsmul, add_zero]
    exact le_max_right bound origin
  | succ k =>
    -- the point before would have been less
    refine le_max_of_le_left (not_lt.mp fun hlt => ?_)
    have hle := hleast ⟨hlt, k + 1, Nat.succ_pos k, rfl⟩
    rw [succ_nsmul step (k + 1), ← add_assoc] at hle
    exact absurd hle (not_le.mpr (lt_add_of_pos_right _ hstep))

end WebZapret.Progression
