import Mathlib.Data.List.Infix

/-!
# Messages in a stream

A reader takes messages from a stream: it finds the head of the next one, takes as many bytes of the
body as the head makes it, and goes on with what follows. Where it leaves a body in the stream, the next
head is looked for there. The messages that it takes are the ones that were sent up to the first one
that does not pass (`serve_stream`), so they are all exactly if every message passes, perhaps apart from
the last one (`serve_eq_iff`).
-/

namespace WebZapret

structure Reader (H : Type) where
  /-- the head of the next message, if there is one, and what follows the head -/
  next : List Nat → Option (H × List Nat)
  /-- how many bytes of the `i`-th message's body are taken -/
  takes : (i : Nat) → H → Nat
  /-- whether it goes on after the `i`-th message, of which it has taken these bytes -/
  goesOn : (i : Nat) → H → List Nat → Bool

structure Message (H : Type) where
  head : H
  bytes : List Nat
  body : List Nat

namespace Reader

variable {H : Type} (R : Reader H)

/-- The heads of the messages that the reader takes, at most so many; the next one is the `i`-th. -/
def serve : Nat → Nat → List Nat → List H
  | 0, _, _ => []
  | n + 1, i, s =>
    match R.next s with
    | none => []
    | some (h, rest) =>
      h :: if R.goesOn i h (rest.take (R.takes i h)) then
        serve n (i + 1) (rest.drop (R.takes i h)) else []

def stream (ms : List (Message H)) : List Nat := ms.flatMap fun m => m.bytes ++ m.body

/-- The reader knows where the head ends, and a body that it does not take begins no other message. -/
structure Frames (m : Message H) : Prop where
  next : ∀ rest, R.next (m.bytes ++ rest) = some (m.head, rest)
  unread : ∀ i, R.takes i m.head ≠ m.body.length →
    R.takes i m.head = 0 ∧ ∀ rest, R.next (m.body ++ rest) = none

/-- The reader takes the body and goes on. -/
def Passes (i : Nat) (m : Message H) : Prop :=
  R.takes i m.head = m.body.length ∧ R.goesOn i m.head m.body = true

instance (i : Nat) (m : Message H) : Decidable (R.Passes i m) :=
  inferInstanceAs (Decidable (_ ∧ _))

/-- The messages up to the first one that does not pass. -/
def taken : Nat → List (Message H) → List (Message H)
  | _, [] => []
  | i, m :: ms => m :: if R.Passes i m then taken (i + 1) ms else []

variable {R}

theorem serve_of_none {n i : Nat} {s : List Nat} (h : R.next s = none) : R.serve n i s = [] := by
  cases n with
  | zero => rfl
  | succ n => simp [serve, h]

theorem serve_cons {m : Message H} (hm : R.Frames m) (n i : Nat) (later : List Nat) :
    R.serve (n + 1) i (m.bytes ++ (m.body ++ later)) = m.head ::
      if R.goesOn i m.head ((m.body ++ later).take (R.takes i m.head)) then
        R.serve n (i + 1) ((m.body ++ later).drop (R.takes i m.head)) else [] := by
  simp only [serve, hm.next]

/-- After a message that passes, the reader is at the next one. -/
theorem serve_of_passes {m : Message H} (hm : R.Frames m) {i : Nat} (hpass : R.Passes i m) (n : Nat)
    (later : List Nat) :
    R.serve (n + 1) i (m.bytes ++ (m.body ++ later)) = m.head :: R.serve n (i + 1) later := by
  rw [serve_cons hm, hpass.1, List.take_left, List.drop_left, if_pos hpass.2]

/-- After one that does not, it takes no other. -/
theorem serve_of_not_passes {m : Message H} (hm : R.Frames m) {i : Nat} (hpass : ¬R.Passes i m)
    (n : Nat) (later : List Nat) :
    R.serve (n + 1) i (m.bytes ++ (m.body ++ later)) = [m.head] := by
  rw [serve_cons hm]
  by_cases htakes : R.takes i m.head = m.body.length
  · have hends : R.goesOn i m.head m.body ≠ true := fun h => hpass ⟨htakes, h⟩
    rw [htakes, List.take_left, if_neg hends]
  · obtain ⟨hzero, hnone⟩ := hm.unread i htakes
    rw [hzero, List.drop_zero, serve_of_none (hnone later), ite_self]

/-- **What the reader takes.** -/
theorem serve_stream (hempty : R.next [] = none) {ms : List (Message H)}
    (hms : ∀ m ∈ ms, R.Frames m) {n : Nat} (hn : ms.length ≤ n) (i : Nat) :
    R.serve n i (stream ms) = (R.taken i ms).map Message.head := by
  induction ms generalizing n i with
  | nil => simp [stream, taken, serve_of_none hempty]
  | cons m ms ih =>
    have hm := hms m List.mem_cons_self
    have hstream : stream (m :: ms) = m.bytes ++ (m.body ++ stream ms) := by
      simp [stream, List.append_assoc]
    obtain ⟨n, rfl⟩ : ∃ k, n = k + 1 := ⟨n - 1, by simp at hn; omega⟩
    have hn : ms.length ≤ n := by simpa using hn
    rw [hstream, taken, List.map_cons]
    by_cases hpass : R.Passes i m
    · rw [serve_of_passes hm hpass, if_pos hpass,
        ih (fun m' hm' => hms m' (List.mem_cons_of_mem _ hm')) hn]
    · rw [serve_of_not_passes hm hpass, if_neg hpass]
      rfl

theorem isPrefix_taken (i : Nat) (ms : List (Message H)) : R.taken i ms <+: ms := by
  induction ms generalizing i with
  | nil => exact List.prefix_refl []
  | cons m ms ih =>
    rw [taken]
    split
    · exact (List.prefix_cons_inj m).mpr (ih (i + 1))
    · exact (List.prefix_cons_inj m).mpr (List.nil_prefix)

theorem taken_eq_self_iff (i : Nat) (ms : List (Message H)) :
    R.taken i ms = ms ↔ ∀ j m, ms.dropLast[j]? = some m → R.Passes (i + j) m := by
  induction ms generalizing i with
  | nil => simp [taken]
  | cons m ms ih =>
    rw [taken, List.cons_inj_right]
    cases ms with
    | nil => simp [taken]
    | cons m' ms =>
      rw [List.dropLast_cons_cons]
      constructor
      · intro h j m₁ hget
        by_cases hpass : R.Passes i m
        · rw [if_pos hpass] at h
          cases j with
          | zero =>
            cases hget
            exact hpass
          | succ j =>
            rw [← Nat.succ_add_eq_add_succ]
            exact (ih (i + 1)).mp h j m₁ hget
        · rw [if_neg hpass] at h
          cases h
      · intro h
        have hpass : R.Passes i m := h 0 m rfl
        rw [if_pos hpass, ih]
        intro j m₁ hget
        have hpass := h (j + 1) m₁ hget
        rwa [← Nat.succ_add_eq_add_succ] at hpass

/-- **In step.** The reader takes the messages that were sent exactly if all but the last one pass. -/
theorem serve_eq_iff (hempty : R.next [] = none) {ms : List (Message H)}
    (hms : ∀ m ∈ ms, R.Frames m) {n : Nat} (hn : ms.length ≤ n) :
    R.serve n 0 (stream ms) = ms.map Message.head ↔
      ∀ i m, ms.dropLast[i]? = some m → R.Passes i m := by
  have hself : (R.taken 0 ms).map Message.head = ms.map Message.head ↔ R.taken 0 ms = ms := by
    constructor
    · intro h
      refine (isPrefix_taken 0 ms).eq_of_length ?_
      have hlength := congrArg List.length h
      rwa [List.length_map, List.length_map] at hlength
    · exact congrArg _
  rw [serve_stream hempty hms hn, hself, taken_eq_self_iff]
  simp only [Nat.zero_add]

end Reader

end WebZapret
