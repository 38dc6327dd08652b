import Mathlib.Data.List.Nodup
import Mathlib.Data.List.Perm.Subperm
import Mathlib.Tactic.Common

/-!
# The first candidate that is not taken

A search goes through numbered candidates until one is not in a list. When different numbers give
different candidates, one more candidate than the list has elements is enough.
-/

namespace WebZapret.Fresh

variable {α : Type} [DecidableEq α] {f : Nat → α} {taken : List α} {fuel n : Nat}

/-- The number of the first candidate from `n` on that is not taken, or the last one tried. -/
def search (f : Nat → α) (taken : List α) : Nat → Nat → Nat
  | 0, n => n
  | fuel + 1, n => if f n ∈ taken then search f taken fuel (n + 1) else n

/-- What is passed over is taken. -/
theorem mem_of_lt_search {i : Nat} (hn : n ≤ i) (hi : i < search f taken fuel n) : f i ∈ taken := by
  induction fuel generalizing n with
  | zero =>
    rw [search] at hi
    omega
  | succ fuel ih =>
    rw [search] at hi
    by_cases hmem : f n ∈ taken
    · rw [if_pos hmem] at hi
      by_cases heq : i = n
      · rw [heq]
        exact hmem
      · exact ih (by omega) hi
    · rw [if_neg hmem] at hi
      omega

/-- The search ends at a candidate that is not taken, or has tried them all. -/
theorem search_cases : f (search f taken fuel n) ∉ taken ∨ search f taken fuel n = n + fuel := by
  induction fuel generalizing n with
  | zero => exact .inr rfl
  | succ fuel ih =>
    rw [search]
    by_cases hmem : f n ∈ taken
    · rw [if_pos hmem]
      rcases ih (n := n + 1) with hfresh | hall
      · exact .inl hfresh
      · exact .inr (by omega)
    · rw [if_neg hmem]
      exact .inl hmem

/-- **The search finds a free candidate.** -/
theorem search_notMem (hinj : ∀ i j, n ≤ i → n ≤ j → f i = f j → i = j) :
    f (search f taken taken.length n) ∉ taken := by
  have hcases : f (search f taken taken.length n) ∉ taken ∨
      search f taken taken.length n = n + taken.length := search_cases
  rcases hcases with hfresh | hall
  · exact hfresh
  intro hlast
  -- all the candidates are taken, and there are more of them than elements
  have hmem : ∀ i, n ≤ i → i ≤ n + taken.length → f i ∈ taken := by
    intro i hn hi
    by_cases heq : i = n + taken.length
    · rw [heq, ← hall]
      exact hlast
    · have hlt : i < search f taken taken.length n := by omega
      exact mem_of_lt_search hn hlt
  have hnodup : ((List.range' n (taken.length + 1)).map f).Nodup := by
    refine List.Nodup.map_on ?_ List.nodup_range'
    intro i hi j hj heq
    rw [List.mem_range'_1] at hi hj
    exact hinj i j hi.1 hj.1 heq
  have hsubset : (List.range' n (taken.length + 1)).map f ⊆ taken := by
    intro a ha
    obtain ⟨i, hi, rfl⟩ := List.mem_map.mp ha
    rw [List.mem_range'_1] at hi
    exact hmem i hi.1 (by omega)
  have hlength := (List.subperm_of_subset hnodup hsubset).length_le
  rw [List.length_map, List.length_range'] at hlength
  omega

end WebZapret.Fresh
