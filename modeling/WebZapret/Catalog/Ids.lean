import WebZapret.Catalog.ImportJson
import WebZapret.Lib.Fresh
import WebZapret.Lib.Py.ReadBack

/-!
# The ids of imported strategies

Both importers number the strategies of one stem: `stem`, `stem_2`, `stem_3`, ... Different numbers
give different ids, so `import_strategy_from_json` makes distinct ones (`importId_injective`), and
the search of `plan_import` ends at one that the catalog does not have (`freshId_notMem`).
-/

namespace WebZapret.Catalog

open Py

theorem candidateId_injective {stem : Str} {i j : Nat} (hi : 1 ≤ i) (hj : 1 ≤ j)
    (h : candidateId stem i = candidateId stem j) : i = j := by
  unfold candidateId at h
  by_cases hi' : i ≤ 1
  · by_cases hj' : j ≤ 1
    · omega
    · rw [if_pos hi', if_neg hj', List.append_assoc] at h
      simp [lit] at h
  · by_cases hj' : j ≤ 1
    · rw [if_neg hi', if_pos hj', List.append_assoc] at h
      simp [lit] at h
    · rw [if_neg hi', if_neg hj'] at h
      exact intStr_injective (List.append_cancel_left h)

theorem importId_eq (idBase : Str) (idx : Nat) : importId idBase idx = candidateId idBase (idx + 1) := by
  cases idx with
  | zero => rfl
  | succ idx =>
    rw [importId, candidateId, if_neg (Nat.succ_ne_zero idx), if_neg (by omega)]

theorem importId_injective {idBase : Str} {i j : Nat} (h : importId idBase i = importId idBase j) :
    i = j := by
  rw [importId_eq, importId_eq] at h
  have hsucc := candidateId_injective (Nat.le_add_left 1 i) (Nat.le_add_left 1 j) h
  omega

theorem freshIdFrom_eq (known : List Str) (stem : Str) (fuel counter : Nat) :
    freshIdFrom known stem fuel counter =
      candidateId stem (Fresh.search (candidateId stem) known fuel counter) := by
  induction fuel generalizing counter with
  | zero => rfl
  | succ fuel ih =>
    rw [freshIdFrom, Fresh.search]
    split
    · exact ih (counter + 1)
    · rfl

/-- The id of an accepted row is none of the known ones. -/
theorem freshId_notMem (known : List Str) (stem : Str) : freshId known stem ∉ known := by
  rw [freshId, freshIdFrom_eq]
  exact Fresh.search_notMem fun i j hi hj h => candidateId_injective hi hj h

/-- It is the first one of its stem. -/
theorem freshId_eq (known : List Str) (stem : Str) :
    ∃ counter, freshId known stem = candidateId stem counter ∧
      ∀ i, 1 ≤ i → i < counter → candidateId stem i ∈ known := by
  refine ⟨_, freshIdFrom_eq known stem known.length 1, fun i hi hlt => ?_⟩
  exact Fresh.mem_of_lt_search hi hlt

end WebZapret.Catalog
