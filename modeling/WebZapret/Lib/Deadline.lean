import Mathlib.Algebra.Order.Field.Basic
import Mathlib.Algebra.BigOperators.Group.List.Basic
import Mathlib.Tactic.Linarith

/-!
# Steps under a deadline

Steps run one after the other, each for at most the time that is left until a deadline, but for a
floor at least. The steps after the first can then take a floor each on top of the deadline, and
no more (`sum_le_of_within`), and there are steps that take just that long (`within_late`).
-/

namespace WebZapret

section

variable {K : Type*} [Field K] [LinearOrder K] [IsStrictOrderedRing K] {floor deadline : K}

/-- From `now` on each step lasts at most the time that is left to it. -/
def Within (floor deadline : K) : K → List K → Prop
  | _, [] => True
  | now, d :: ds => 0 ≤ d ∧ d ≤ max floor (deadline - now) ∧ Within floor deadline (now + d) ds

/-- After a time that is no less than the deadline each step adds a floor at most. -/
theorem add_sum_le {now late : K} (hfloor : 0 ≤ floor) (hlate : deadline ≤ late) (hnow : now ≤ late)
    {ds : List K} (h : Within floor deadline now ds) :
    now + ds.sum ≤ late + floor * ds.length := by
  induction ds generalizing now late with
  | nil => simpa using hnow
  | cons d ds ih =>
    obtain ⟨_, hd, hds⟩ := h
    have hnext : now + d ≤ late + floor := by
      rcases le_max_iff.mp hd with hd | hd
      · exact add_le_add hnow hd
      · linarith
    have hrest := ih (le_add_of_le_of_nonneg hlate hfloor) hnext hds
    rw [List.sum_cons, List.length_cons, Nat.cast_succ]
    linarith

/-- **Steps under a deadline** last until the deadline and a floor more for each but the first. -/
theorem sum_le_of_within (hfloor : 0 ≤ floor) (hdeadline : floor ≤ deadline) {d : K} {ds : List K}
    (h : Within floor deadline 0 (d :: ds)) :
    (d :: ds).sum ≤ deadline + floor * ds.length := by
  obtain ⟨_, hd, hds⟩ := h
  rw [sub_zero, max_eq_right hdeadline] at hd
  rw [zero_add] at hds
  exact add_sum_le hfloor le_rfl hd hds

theorem within_floors (hfloor : 0 ≤ floor) {now : K} (hnow : deadline ≤ now) (n : Nat) :
    Within floor deadline now (List.replicate n floor) := by
  induction n generalizing now with
  | zero => trivial
  | succ n ih =>
    exact ⟨hfloor, le_max_left _ _, ih (le_add_of_le_of_nonneg hnow hfloor)⟩

/-- Steps that take all the time there is. -/
theorem within_late (hfloor : 0 ≤ floor) (hdeadline : 0 ≤ deadline) (n : Nat) :
    Within floor deadline 0 (deadline :: List.replicate n floor) := by
  refine ⟨hdeadline, le_max_of_le_right (sub_zero deadline).ge, ?_⟩
  rw [zero_add]
  exact within_floors hfloor le_rfl n

omit [LinearOrder K] [IsStrictOrderedRing K] in
theorem sum_late (n : Nat) : (deadline :: List.replicate n floor).sum = deadline + floor * n := by
  rw [List.sum_cons, List.sum_replicate, nsmul_eq_mul, mul_comm]

end

end WebZapret
