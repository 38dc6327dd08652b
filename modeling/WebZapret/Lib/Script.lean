import Mathlib.Control.Monad.Basic
import Mathlib.Data.Option.Basic

/-!
# Shell scripts

A script runs commands one after another on some system state. A command is a partial function on
that state, `none` being a non-zero exit that leaves the state as it was. `Sys` also carries a
stream of faults: the command that finds `true` at the head of the stream fails for a reason of
its own, whatever the state.

`Yields` is the script's behaviour without faults, and `Runs` its behaviour with given ones and the
number of commands it runs; both compose along `bind`.
-/

namespace WebZapret

/-- A system state with the faults that the next commands meet. -/
structure Sys (S : Type) where
  state : S
  faults : Nat → Bool

/-- No command fails for a reason of its own. -/
def noFaults : Nat → Bool := fun _ => false

abbrev Script (S : Type) := StateM (Sys S)

namespace Script

variable {S α β : Type}

/-- Run one command; the answer says whether it exited with status 0. -/
def cmd (f : S → Option S) : Script S Bool := fun s =>
  match s.faults 0, f s.state with
  | false, some t => (true, ⟨t, fun n => s.faults (n + 1)⟩)
  | _, _ => (false, ⟨s.state, fun n => s.faults (n + 1)⟩)

/-- A script on a part of the state. -/
def within {T : Type} (get : T → S) (put : S → T → T) (p : Script S α) : Script T α := fun s =>
  let r := p ⟨get s.state, s.faults⟩
  (r.1, ⟨put r.2.state s.state, r.2.faults⟩)

/-- The state a script leaves when no command meets a fault. -/
def exec (p : Script S α) (s : S) : S := (p ⟨s, noFaults⟩).2.state

/-- Without faults the script answers `a` and leaves `t`. -/
def Yields (p : Script S α) (s : S) (a : α) (t : S) : Prop :=
  p ⟨s, noFaults⟩ = (a, ⟨t, noFaults⟩)

theorem Yields.exec {p : Script S α} {s t : S} {a : α} (h : Yields p s a t) :
    exec p s = t := by
  rw [Script.exec, h]

theorem yields_pure (a : α) (s : S) : Yields (pure a : Script S α) s a s := rfl

theorem yields_bind {p : Script S α} {f : α → Script S β} {s t u : S} {a : α} {b : β}
    (hp : Yields p s a t) (hf : Yields (f a) t b u) : Yields (p >>= f) s b u := by
  show (let r := p ⟨s, noFaults⟩; f r.1 r.2) = _
  rw [hp]
  exact hf

theorem yields_discard {p : Script S α} {s t : S} {a : α} (hp : Yields p s a t) :
    Yields (discard p) s () t := by
  show (let r := p ⟨s, noFaults⟩; ((), r.2)) = _
  rw [hp]

theorem yields_cmd {f : S → Option S} {s t : S} (h : f s = some t) :
    Yields (cmd f) s true t := by
  simp only [Yields, cmd, h]
  rfl

theorem yields_cmd_none {f : S → Option S} {s : S} (h : f s = none) :
    Yields (cmd f) s false s := by
  simp only [Yields, cmd, h]
  rfl

/-! ## With faults -/

/-- The faults that are left after `n` commands. -/
def later (n : Nat) (f : Nat → Bool) : Nat → Bool := fun i => f (i + n)

@[simp] theorem later_apply (n : Nat) (f : Nat → Bool) (i : Nat) : later n f i = f (i + n) := rfl

@[simp] theorem later_zero (f : Nat → Bool) : later 0 f = f := rfl

theorem later_later (m n : Nat) (f : Nat → Bool) : later m (later n f) = later (n + m) f := by
  funext i
  rw [later_apply, later_apply, later_apply]
  congr 1
  omega

/-- The state after a command that may meet a fault. -/
def attempt (fault : Bool) (f : S → Option S) (s : S) : S := if fault then s else (f s).getD s

/-- With the faults `f` the script answers `a`, leaves `t` and runs `n` commands. -/
def Runs (p : Script S α) (s : S) (f : Nat → Bool) (a : α) (t : S) (n : Nat) : Prop :=
  p ⟨s, f⟩ = (a, ⟨t, later n f⟩)

theorem runs_pure (a : α) (s : S) (f : Nat → Bool) : Runs (pure a : Script S α) s f a s 0 := rfl

theorem runs_bind {p : Script S α} {q : α → Script S β} {s t u : S} {f : Nat → Bool} {a : α}
    {b : β} {m n : Nat} (hp : Runs p s f a t m) (hq : Runs (q a) t (later m f) b u n) :
    Runs (p >>= q) s f b u (m + n) := by
  show (let r := p ⟨s, f⟩; q r.1 r.2) = _
  rw [hp, ← later_later]
  exact hq

theorem runs_seq {p : Script S α} {q : Script S β} {s t u : S} {f : Nat → Bool} {a : α} {b : β}
    {m n : Nat} (hp : Runs p s f a t m) (hq : Runs q t (later m f) b u n) :
    Runs (p >>= fun _ => q) s f b u (m + n) := runs_bind hp hq

theorem runs_discard {p : Script S α} {s t : S} {f : Nat → Bool} {a : α} {n : Nat}
    (hp : Runs p s f a t n) : Runs (discard p) s f () t n := by
  show (let r := p ⟨s, f⟩; ((), r.2)) = _
  rw [hp]

theorem runs_cmd (c : S → Option S) (s : S) (f : Nat → Bool) :
    Runs (cmd c) s f (!f 0 && (c s).isSome) (attempt (f 0) c s) 1 := by
  cases hf : f 0 with
  | true =>
    simp only [Runs, cmd, attempt, hf]
    rfl
  | false =>
    cases hc : c s with
    | none =>
      simp only [Runs, cmd, attempt, hf, hc]
      rfl
    | some t =>
      simp only [Runs, cmd, attempt, hf, hc]
      rfl

end Script

end WebZapret
