import Mathlib.Logic.Function.Basic
import Mathlib.Data.List.Nodup
import Mathlib.Tactic.Common

/-!
# Singly linked lists

Nodes are linked by a map to their successors, which is all that a store with `next` pointers is.
`Linked link p xs` says that following the pointers from `p` visits `xs` and then ends. A program
that follows the pointers sees the list `walk`, which is the list of the chain as soon as it may
take enough steps.

A chain changes only where a link of a visited node changes (`Linked.congr`). A node is put in
front (`Linked.push`) or at the end (`Linked.concat`), and taken out by redirecting the pointer to
it: the head pointer, or the link of the node before it (`Linked.skip`), which is found by its link
(`Linked.find_prev`).
-/

namespace WebZapret

variable {ν : Type*}

/-- Following `link` from `p` visits `xs` and then ends. -/
def Linked (link : ν → Option ν) : Option ν → List ν → Prop
  | p, [] => p = none
  | p, x :: xs => p = some x ∧ Linked link (link x) xs

/-- The nodes that are visited from `p` in at most the given number of steps. -/
def walk (link : ν → Option ν) : Nat → Option ν → List ν
  | 0, _ => []
  | _ + 1, none => []
  | n + 1, some x => x :: walk link n (link x)

namespace Linked

variable {link link' : ν → Option ν} {p q : Option ν} {x y : ν} {xs ys : List ν}

/-- The walk is the chain. -/
theorem walk_eq {n : Nat} (h : Linked link p xs) (hn : xs.length ≤ n) : walk link n p = xs := by
  induction xs generalizing p n with
  | nil =>
    rw [show p = none from h]
    cases n <;> rfl
  | cons x xs ih =>
    obtain ⟨rfl, hrest⟩ := h
    cases n with
    | zero => simp at hn
    | succ n => rw [walk, ih hrest (Nat.le_of_succ_le_succ hn)]

theorem head_eq (h : Linked link p xs) : p = xs.head? := by
  cases xs with
  | nil => exact h
  | cons x xs => exact h.1

/-- Only the links of the visited nodes matter. -/
theorem congr (hlinks : ∀ x ∈ xs, link' x = link x) (h : Linked link p xs) :
    Linked link' p xs := by
  induction xs generalizing p with
  | nil => exact h
  | cons x xs ih =>
    refine ⟨h.1, ?_⟩
    rw [hlinks x List.mem_cons_self]
    exact ih (fun y hy => hlinks y (List.mem_cons_of_mem x hy)) h.2

/-- `tail->next = x`, where `x` has no next node. -/
theorem concat (hlinks : ∀ z ∈ xs, link' z = link z) (hy : link' y = some x) (hx : link' x = none)
    (h : Linked link p (xs ++ [y])) : Linked link' p (xs ++ [y, x]) := by
  induction xs generalizing p with
  | nil => exact ⟨h.1, hy, hx⟩
  | cons z xs ih =>
    refine ⟨h.1, ?_⟩
    rw [hlinks z List.mem_cons_self]
    exact ih (fun w hw => hlinks w (List.mem_cons_of_mem z hw)) h.2

variable [DecidableEq ν]

/-- A new link of a node that is not visited. -/
theorem update (hx : x ∉ xs) (q : Option ν) (h : Linked link p xs) :
    Linked (Function.update link x q) p xs := by
  refine congr (fun y hy => Function.update_of_ne ?_ ..) h
  rintro rfl
  exact hx hy

/-- `x->next = head; head = x` -/
theorem push (hx : x ∉ xs) (h : Linked link p xs) :
    Linked (Function.update link x p) (some x) (x :: xs) := by
  refine ⟨rfl, ?_⟩
  rw [Function.update_self]
  exact h.update hx p

/-- `y->next = z->next`, when `z` comes after `y`. -/
theorem skip {z : ν} (hnodup : (xs ++ y :: z :: ys).Nodup) (h : Linked link p (xs ++ y :: z :: ys)) :
    Linked (Function.update link y (link z)) p (xs ++ y :: ys) := by
  induction xs generalizing p with
  | nil =>
    obtain ⟨hp, -, hrest⟩ := h
    have hy : y ∉ ys := fun hmem =>
      (List.nodup_cons.mp hnodup).1 (List.mem_cons_of_mem z hmem)
    refine ⟨hp, ?_⟩
    rw [Function.update_self]
    exact hrest.update hy (link z)
  | cons x xs ih =>
    obtain ⟨hx, hnodup⟩ := List.nodup_cons.mp hnodup
    have hxy : x ≠ y := fun heq => hx (heq ▸ List.mem_append_right xs List.mem_cons_self)
    refine ⟨h.1, ?_⟩
    rw [Function.update_of_ne hxy]
    exact ih hnodup h.2

/-- The node before `z` is the first one whose link leads to it. -/
theorem find_prev {z : ν} (hnodup : (xs ++ y :: z :: ys).Nodup)
    (h : Linked link p (xs ++ y :: z :: ys)) :
    (xs ++ y :: z :: ys).find? (fun s => link s = some z) = some y := by
  induction xs generalizing p with
  | nil =>
    refine List.find?_cons_of_pos ?_
    exact decide_eq_true h.2.1
  | cons x xs ih =>
    obtain ⟨-, hnodup'⟩ := List.nodup_cons.mp hnodup
    have hz : link x ≠ some z := by
      rw [h.2.head_eq]
      cases xs with
      | nil =>
        have hyz : y ≠ z := fun heq => (List.nodup_cons.mp hnodup').1 (heq ▸ List.mem_cons_self)
        exact fun heq => hyz (Option.some.inj heq)
      | cons w xs =>
        have hwz : w ≠ z := fun heq => (List.nodup_cons.mp hnodup').1 (by
          rw [heq]
          exact List.mem_append_right xs (List.mem_cons_of_mem y List.mem_cons_self))
        exact fun heq => hwz (Option.some.inj heq)
    rw [List.cons_append, List.find?_cons_of_neg (by simpa using hz)]
    exact ih hnodup' h.2

end Linked

end WebZapret
