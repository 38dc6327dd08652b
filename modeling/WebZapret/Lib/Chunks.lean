import Mathlib.Data.List.Basic

/-!
# Terminated chunks

A stream of chunks that each end with a terminator. A reader takes what stands before every
terminator, and what stands after the last one when that is not empty.

A writer that joins its chunks with the terminator and adds one at the end is read back as it wrote
(`chunks_joined`), unless it has no chunk: then there is one terminator too many, and an empty chunk
is read (`chunks_joined_nil`).
-/

namespace WebZapret

variable {α : Type*} {t : α} {cs : List (List α)}

/-- The chunks of a stream; the last one may lack its terminator. -/
def chunks [BEq α] (t : α) (s : List α) : List (List α) :=
  let parts := s.splitOn t
  if parts.getLast?.any List.isEmpty then parts.dropLast else parts

/-- The chunks with the terminator between them, and once more at the end. -/
def joined (t : α) (cs : List (List α)) : List α := [t].intercalate cs ++ [t]

/-- The terminator at the end makes one more chunk, which is empty. -/
theorem joined_eq (hne : cs ≠ []) : joined t cs = [t].intercalate (cs ++ [[]]) := by
  unfold joined
  induction cs with
  | nil => exact absurd rfl hne
  | cons c cs ih =>
    cases cs with
    | nil => simp
    | cons d cs =>
      have hrest := ih (List.cons_ne_nil d cs)
      rw [List.cons_append, List.cons_append, List.intercalate_cons_cons,
        List.intercalate_cons_cons, List.append_assoc, hrest, List.cons_append]

variable [BEq α] [LawfulBEq α]

/-- The separator is in no part. -/
theorem notMem_of_mem_splitOn {s part : List α} (h : part ∈ s.splitOn t) : t ∉ part := by
  induction s generalizing part with
  | nil =>
    rw [List.splitOn_nil, List.mem_singleton] at h
    rw [h]
    exact List.not_mem_nil
  | cons x s ih =>
    rw [List.splitOn_cons_eq_if_modifyHead] at h
    split at h
    · rcases List.mem_cons.mp h with rfl | h
      · exact List.not_mem_nil
      · exact ih h
    · rename_i hx
      cases hparts : s.splitOn t with
      | nil => exact absurd hparts (List.splitOn_ne_nil t s)
      | cons first parts =>
        rw [hparts, List.modifyHead_cons] at h
        rw [hparts] at ih
        rcases List.mem_cons.mp h with rfl | h
        · have hfirst := ih List.mem_cons_self
          have hne : t ≠ x := fun heq => hx (by simp [heq])
          exact List.not_mem_cons_of_ne_of_not_mem hne hfirst
        · exact ih (List.mem_cons_of_mem _ h)

theorem chunks_joined (hne : cs ≠ []) (h : ∀ c ∈ cs, t ∉ c) : chunks t (joined t cs) = cs := by
  have hall : ∀ c ∈ cs ++ [[]], t ∉ c := by
    intro c hc
    rcases List.mem_append.mp hc with hc | hc
    · exact h c hc
    · rw [List.mem_singleton.mp hc]
      exact List.not_mem_nil
  have hsplit : ([t].intercalate (cs ++ [[]])).splitOn t = cs ++ [[]] :=
    List.splitOn_intercalate t hall (by simp)
  rw [joined_eq hne, chunks, hsplit]
  simp

theorem chunks_joined_nil : chunks t (joined t []) = [[]] := by
  have hsplit : [t].splitOn t = [[], []] :=
    @List.splitOn_intercalate _ [[], []] _ _ t (by simp) (by simp)
  rw [joined, List.intercalate_nil, List.nil_append, chunks, hsplit]
  simp

/-- **What was written is read back unless it was nothing.** -/
theorem chunks_joined_iff (h : ∀ c ∈ cs, t ∉ c) : chunks t (joined t cs) = cs ↔ cs ≠ [] := by
  constructor
  · rintro heq rfl
    rw [chunks_joined_nil] at heq
    cases heq
  · exact fun hne => chunks_joined hne h

end WebZapret
