import Mathlib.Data.List.ReduceOption

/-!
# Bounded queues

A queue of at most `cap` elements: what is pushed onto a full queue displaces the oldest element.
`run` is a sequence of pushes and pops, with the answers of the pops.

The elements that are popped, and then those that are left, are some of the pushed ones in the order
in which they were pushed (`run_sublist`): each at most once.
-/

namespace WebZapret.Fifo

variable {α : Type*} {cap : Nat}

def push (cap : Nat) (q : List α) (x : α) : List α :=
  (if q.length ≥ cap then q.tail else q) ++ [x]

inductive Op (α : Type*)
  | push (x : α)
  | pop

/-- The element that an operation pushes. -/
def Op.pushed : Op α → Option α
  | .push x => some x
  | .pop => none

/-- The queue and the answers so far, after one more operation. -/
def step (cap : Nat) (s : List α × List (Option α)) : Op α → List α × List (Option α)
  | .push x => (push cap s.1 x, s.2)
  | .pop => (s.1.tail, s.2 ++ [s.1.head?])

def run (cap : Nat) (s : List α × List (Option α)) (ops : List (Op α)) :
    List α × List (Option α) :=
  ops.foldl (step cap) s

/-- One operation keeps the order of the answers, the queue and what has been pushed since. -/
theorem step_sublist (s : List α × List (Option α)) (op : Op α) :
    ((step cap s op).2.reduceOption ++ (step cap s op).1).Sublist
      (s.2.reduceOption ++ s.1 ++ op.pushed.toList) := by
  cases op with
  | push x =>
    have hdrop : (if s.1.length ≥ cap then s.1.tail else s.1).Sublist s.1 := by
      split
      · exact List.tail_sublist s.1
      · exact List.Sublist.refl s.1
    rw [step, push, ← List.append_assoc]
    exact (hdrop.append_left _).append_right _
  | pop =>
    obtain ⟨q, answers⟩ := s
    cases q with
    | nil => simp [step, Op.pushed, List.reduceOption_append]
    | cons x q => simp [step, Op.pushed, List.reduceOption_append]

/-- **What is popped is what was pushed, in order and each at most once.** -/
theorem run_sublist (s : List α × List (Option α)) (ops : List (Op α)) :
    ((run cap s ops).2.reduceOption ++ (run cap s ops).1).Sublist
      (s.2.reduceOption ++ s.1 ++ ops.filterMap Op.pushed) := by
  induction ops generalizing s with
  | nil =>
    rw [List.filterMap_nil, List.append_nil]
    exact List.Sublist.refl _
  | cons op ops ih =>
    have hstep := (@step_sublist α cap s op).append_right (ops.filterMap Op.pushed)
    have hpushed : (op :: ops).filterMap Op.pushed =
        op.pushed.toList ++ ops.filterMap Op.pushed := by
      cases op <;> rfl
    rw [hpushed, ← List.append_assoc]
    exact (ih (step cap s op)).trans hstep

end WebZapret.Fifo
