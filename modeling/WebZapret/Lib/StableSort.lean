import Mathlib.Data.List.Sort
import Mathlib.Order.Lattice

/-!
# Stable sorting by a key

A stable sort puts a list into the order of a key and keeps the order of the elements of one key.
The two together determine it, so it says nothing about how the list is sorted. Insertion by the
order of the keys is one (`stableSort_insertionSort`), and a part of a stably sorted list is the
stable sort of that part (`StableSort.filter`).

In a strictly sorted list, two elements with none between them are neighbours (`exists_adjacent`).
-/

namespace WebZapret

section

variable {α κ : Type*} [LinearOrder κ] (key : α → κ)

/-- `out` is `l`, stably sorted by the key. -/
structure StableSort (l out : List α) : Prop where
  perm : out.Perm l
  sorted : out.Pairwise fun a b => key a ≤ key b
  stable : ∀ k, out.filter (key · = k) = l.filter (key · = k)

variable {key} {l out : List α}

/-- Elements of one key stay in their order. -/
theorem filter_insertionSort (l : List α) (k : κ) :
    (l.insertionSort fun a b => key a ≤ key b).filter (key · = k) = l.filter (key · = k) := by
  have hsame : (l.filter (key · = k)).Pairwise fun a b => key a ≤ key b := by
    refine List.pairwise_of_forall_mem_list ?_
    intro a ha b hb
    have ha : key a = k := by simpa using List.of_mem_filter ha
    have hb : key b = k := by simpa using List.of_mem_filter hb
    rw [ha, hb]
  have hsub := List.sublist_insertionSort hsame List.filter_sublist
  have hkept := hsub.filter (key · = k)
  rw [List.filter_filter] at hkept
  simp only [Bool.and_self] at hkept
  have hperm := (List.perm_insertionSort (fun a b => key a ≤ key b) l).filter (key · = k)
  exact (hkept.eq_of_length hperm.length_eq.symm).symm

theorem stableSort_insertionSort (l : List α) :
    StableSort key l (l.insertionSort fun a b => key a ≤ key b) := by
  have htotal : Std.Total fun a b : α => key a ≤ key b := ⟨fun a b => le_total (key a) (key b)⟩
  have htrans : IsTrans α fun a b => key a ≤ key b := ⟨fun _ _ _ => le_trans⟩
  exact ⟨List.perm_insertionSort _ l, List.pairwise_insertionSort _ l, filter_insertionSort l⟩

/-- Sorting by a relation that agrees with the order of the keys on the elements. -/
theorem stableSort_of_agree {r : α → α → Prop} [DecidableRel r]
    (h : ∀ a ∈ l, ∀ b ∈ l, r a b ↔ key a ≤ key b) : StableSort key l (l.insertionSort r) := by
  have heq := List.map_insertionSort r (fun a b => key a ≤ key b) id l h
  rw [List.map_id, List.map_id] at heq
  rw [heq]
  exact stableSort_insertionSort l

/-- A part of a stably sorted list is stably sorted. -/
theorem StableSort.filter (h : StableSort key l out) (p : α → Bool) :
    StableSort key (l.filter p) (out.filter p) where
  perm := h.perm.filter p
  sorted := h.sorted.filter p
  stable k := by
    rw [List.filter_comm _ p out, h.stable k, List.filter_comm _ p l]

end

/-- What is between two elements of a strictly sorted list is so in the order. -/
theorem exists_adjacent {α : Type*} {r : α → α → Prop} (hasymm : ∀ a b, r a b → ¬r b a) {l : List α}
    {a b : α} (h : l.Pairwise r) (ha : a ∈ l) (hb : b ∈ l) (hab : r a b)
    (hnone : ∀ c ∈ l, r a c → ¬r c b) : ∃ pre post, l = pre ++ a :: b :: post := by
  obtain ⟨pre, rest, rfl⟩ := List.append_of_mem ha
  obtain ⟨_, hrest, hpre⟩ := List.pairwise_append.mp h
  obtain ⟨harest, hrest⟩ := List.pairwise_cons.mp hrest
  have hmem : b ∈ rest := by
    rcases List.mem_append.mp hb with hb | hb
    · exact absurd (hpre b hb a List.mem_cons_self) (hasymm a b hab)
    · refine (List.mem_cons.mp hb).resolve_left ?_
      rintro rfl
      exact hasymm _ _ hab hab
  cases rest with
  | nil => cases hmem
  | cons c rest =>
    rcases List.mem_cons.mp hmem with rfl | hmem
    · exact ⟨pre, rest, rfl⟩
    · have hc : c ∈ pre ++ a :: c :: rest := by simp
      have hcb : r c b := (List.pairwise_cons.mp hrest).1 b hmem
      exact absurd hcb (hnone c hc (harest c List.mem_cons_self))

end WebZapret
