import WebZapret.Selection.Reports
import WebZapret.Lib.Py.Encodable
import Mathlib.Data.List.Sort

/-!
# The filter for false positives

`select_working`: the checked rows, best first, are split into the accepted ones and the refused
ones with the reason. Nothing is raised over clean settings (`selectWorking_ok`), and both parts are
made of rows of the report (`selectWorking_mem`).
-/

namespace WebZapret.Selection

open Py Failing

variable [Tables]

/-- `filter_reason`: none when the row passes every filter. -/
def filterReason (row : CheckRow) (settings : Dict) : Result (Option Str) := do
  let mirage := lit "mirage (authenticity refuted)"
  if ¬row.working then
    return some (if row.admits = [lit "Mirage"] then mirage
      else if row.observed = [] then lit "not working" else row.observed)
  if (settings.get0 (lit "exclude_mirage")).truthy ∧ row.admits = [lit "Mirage"] then
    return some mirage
  let minShare ← floatField settings "min_share"
  if (Flt.fin 0).lt minShare then
    return match row.medianShare with
      | none => some (lit "no volume reference (--reference-via needed to judge share)")
      | some share =>
        if share.lt minShare then
          some (lit "delivered " ++ share.mul100.format 0 ++ lit "% of the reference volume (< " ++
            minShare.mul100.format 0 ++ lit "%)")
        else none
  else return none

/-- `rank`'s key. -/
def rankingKey (row : CheckRow) : Nat × Flt × Flt × Int :=
  (if row.working then 0 else 1, row.successRate.neg, (row.medianShare.getD (.fin 0)).neg,
    row.medianLatencyMs)

/-- The order of the keys, if none of their numbers is a NaN. -/
def KeyBefore (a b : CheckRow) : Prop :=
  let (w, r, s, l) := rankingKey a
  let (w', r', s', l') := rankingKey b
  w < w' ∨ w = w' ∧ (¬r'.le r ∨ r.le r' ∧ (¬s'.le s ∨ s.le s' ∧ l ≤ l'))

instance : DecidableRel KeyBefore := fun a b => by
  unfold KeyBefore
  infer_instance

/-- What `sorted` does when the key of some row has a NaN: it puts them into some order. -/
abbrev SortNaN := (rows : List CheckRow) → { sorted : List CheckRow // sorted.Perm rows }

/-- `rank` -/
def rank (sortNaN : SortNaN) (rows : List CheckRow) : List CheckRow :=
  if ∀ row ∈ rows, row.successRate ≠ .nan ∧ row.medianShare ≠ some .nan then
    rows.insertionSort KeyBefore
  else (sortNaN rows).1

/-- A row of the loop of `select_working`. -/
def sortRow (settings : Dict) (acc : List CheckRow × List (CheckRow × Str)) (row : CheckRow) :
    Result (List CheckRow × List (CheckRow × Str)) := do
  match ← filterReason row settings with
  | none => return (acc.1 ++ [row], acc.2)
  | some reason => return (acc.1, acc.2 ++ [(row, reason)])

/-- `select_working` -/
def selectWorking (sortNaN : SortNaN) (rows : List CheckRow) (settings : Dict) :
    Result (List CheckRow × List (CheckRow × Str)) :=
  (rank sortNaN rows).foldlM (sortRow settings) ([], [])

/-! ## What the filter returns -/

section

variable {sortNaN : SortNaN} {rows : List CheckRow} {settings : Dict}

omit [Tables] in
theorem rank_perm (sortNaN : SortNaN) (rows : List CheckRow) : (rank sortNaN rows).Perm rows := by
  unfold rank
  split
  · exact List.perm_insertionSort _ _
  · exact (sortNaN rows).2

theorem filterReason_ok {x : Flt} (h : floatField settings "min_share" = .ok x) (row : CheckRow) :
    ∃ reason, filterReason row settings = .ok reason := by
  unfold filterReason
  dsimp only
  split
  · exact ⟨_, rfl⟩
  · split
    · exact ⟨_, rfl⟩
    · by_cases hshare : (Flt.fin 0).lt x = true
      · exact ⟨_, bind_eq_ok.mpr ⟨x, h, if_pos hshare⟩⟩
      · exact ⟨none, bind_eq_ok.mpr ⟨x, h, if_neg hshare⟩⟩

/-- A reason is a text of the filter, or what the row says was observed. -/
theorem filterReason_encodable {row : CheckRow} {reason : Str}
    (h : filterReason row settings = .ok (some reason)) (hrow : EncodableText row.observed) :
    EncodableText reason := by
  unfold filterReason at h
  dsimp only at h
  split at h
  · cases h
    split
    · decide
    · split
      · decide
      · exact hrow
  · split at h
    · cases h
      decide
    · obtain ⟨x, _, h⟩ := bind_eq_ok.mp h
      by_cases hshare : (Flt.fin 0).lt x = true
      · rw [if_pos hshare] at h
        cases hmedian : row.medianShare with
        | none =>
          rw [hmedian] at h
          cases h
          decide
        | some share =>
          rw [hmedian] at h
          by_cases hlt : share.lt x = true
          · obtain rfl : _ = reason := Option.some.inj ((if_pos hlt).symm.trans (Except.ok.inj h))
            simp [encodableText_append]
          · cases (if_neg hlt).symm.trans (Except.ok.inj h)
      · rw [if_neg hshare] at h
        cases h

theorem selectWorking_ok {x : Flt} (h : floatField settings "min_share" = .ok x)
    (sortNaN : SortNaN) (rows : List CheckRow) :
    ∃ r, selectWorking sortNaN rows settings = .ok r := by
  unfold selectWorking
  suffices hloop : ∀ rows acc, ∃ r, List.foldlM (sortRow settings) acc rows = .ok r from
    hloop _ _
  intro rows
  induction rows with
  | nil => exact fun acc => ⟨acc, rfl⟩
  | cons row rows ih =>
    intro acc
    obtain ⟨reason, hreason⟩ := filterReason_ok h row
    have hstep : ∃ acc', sortRow settings acc row = .ok acc' := by
      unfold sortRow
      rw [hreason]
      cases reason with
      | none => exact ⟨_, rfl⟩
      | some reason => exact ⟨_, rfl⟩
    obtain ⟨acc', hacc⟩ := hstep
    obtain ⟨r, hr⟩ := ih acc'
    exact ⟨r, by rw [List.foldlM_cons]; exact bind_eq_ok.mpr ⟨acc', hacc, hr⟩⟩

/-- Both parts are made of the rows of the report; a refused one has its reason. -/
theorem selectWorking_mem {r : List CheckRow × List (CheckRow × Str)}
    (h : selectWorking sortNaN rows settings = .ok r) :
    (∀ row ∈ r.1, row ∈ rows) ∧
      ∀ m ∈ r.2, m.1 ∈ rows ∧ filterReason m.1 settings = .ok (some m.2) := by
  refine foldlM_induct (P := fun acc : List CheckRow × List (CheckRow × Str) =>
    (∀ row ∈ acc.1, row ∈ rows) ∧
      ∀ m ∈ acc.2, m.1 ∈ rows ∧ filterReason m.1 settings = .ok (some m.2)) ?_
    ⟨by simp, by simp⟩ h
  rintro ⟨accepted, refused⟩ ⟨haccepted, hrefused⟩ row hrow acc' hstep
  have hmem : row ∈ rows := (rank_perm sortNaN rows).mem_iff.mp hrow
  obtain ⟨reason, hreason, hstep⟩ := bind_eq_ok.mp hstep
  cases reason with
  | none =>
    cases hstep
    refine ⟨?_, hrefused⟩
    intro a ha
    rcases List.mem_append.mp ha with ha | ha
    · exact haccepted a ha
    · rw [List.mem_singleton.mp ha]
      exact hmem
  | some reason =>
    cases hstep
    refine ⟨haccepted, ?_⟩
    intro m hm
    rcases List.mem_append.mp hm with hm | hm
    · exact hrefused m hm
    · rw [List.mem_singleton.mp hm]
      exact ⟨hmem, hreason⟩

end

end WebZapret.Selection
