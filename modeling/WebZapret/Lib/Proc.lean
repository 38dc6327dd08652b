import WebZapret.Lib.Script
import WebZapret.Lib.Tasks

/-!
# Processes

A process is a program whose steps read or change a state that others change too. A `call` is a
script with faults of its own; the site names the place in the program that makes it, so that a
program that makes each call once can be given its faults by site.

* `run` is the process alone.
* `step` is its next step, for running processes together.
* `Safe R Q` says that, whatever others do within `R` between its steps, the process ends with `Q`.
* `Guarantees A G` says that its own steps are within `G`, given what it has read last and that all
  its reads find a state in `A`.

`Safe` is kept by the steps of the process (`safe_step`) and of the others (`safe_env`), and composes
along `bind` (`safe_bind`).
-/

namespace WebZapret

/-- A process with call sites in `L` on states `S` that returns an `α`. -/
inductive Proc (L S α : Type) where
  | ret (a : α)
  | read (k : S → Proc L S α)
  | write (f : S → S) (k : Proc L S α)
  | call (site : L) (p : Script S Bool) (k : Bool → Proc L S α)

namespace Proc

variable {L S α β : Type}

def bind : Proc L S α → (α → Proc L S β) → Proc L S β
  | .ret a, q => q a
  | .read k, q => .read fun s => (k s).bind q
  | .write f k, q => .write f (k.bind q)
  | .call site p k, q => .call site p fun b => (k b).bind q

instance : Monad (Proc L S) where
  pure := .ret
  bind := bind

/-- Read a part of the state. -/
def ask (f : S → α) : Proc L S α := .read fun s => .ret (f s)

/-- Change the state. -/
def change (f : S → S) : Proc L S Unit := .write f (.ret ())

/-- Run a script; the answer is its exit status. -/
def invoke (site : L) (p : Script S Bool) : Proc L S Bool := .call site p .ret

/-- A process on a part of the state. -/
def within {T : Type} (get : T → S) (put : S → T → T) : Proc L S α → Proc L T α
  | .ret a => .ret a
  | .read k => .read fun t => within get put (k (get t))
  | .write f k => .write (fun t => put (f (get t)) t) (within get put k)
  | .call site p k => .call site (p.within get put) fun b => within get put (k b)

/-! ## Alone -/

/-- The process alone, with the faults that the call at each site meets. -/
def run (F : L → Nat → Bool) : Proc L S α → S → α × S
  | .ret a, s => (a, s)
  | .read k, s => run F (k s) s
  | .write f k, s => run F k (f s)
  | .call site p k, s => run F (k (p ⟨s, F site⟩).1) (p ⟨s, F site⟩).2.state

section Run

variable (F : L → Nat → Bool) (s : S)

@[simp] theorem run_pure (a : α) : run F (pure a : Proc L S α) s = (a, s) := rfl

@[simp] theorem run_bind (p : Proc L S α) (q : α → Proc L S β) :
    run F (p >>= q) s = run F (q (run F p s).1) (run F p s).2 := by
  show run F (p.bind q) s = _
  induction p generalizing s with
  | ret a => rfl
  | read k ih => exact ih s s
  | write f k ih => exact ih (f s)
  | call site p k ih => exact ih _ _

@[simp] theorem run_ask (f : S → α) : run F (ask f : Proc L S α) s = (f s, s) := rfl

@[simp] theorem run_change (f : S → S) : run F (change f : Proc L S Unit) s = ((), f s) := rfl

@[simp] theorem run_invoke (site : L) (p : Script S Bool) :
    run F (invoke site p) s = ((p ⟨s, F site⟩).1, (p ⟨s, F site⟩).2.state) := rfl

end Run

/-! ## Among others -/

/-- The next step, with the faults that a call meets. -/
def step (g : Nat → Bool) : Proc L S α → S → Option (Proc L S α × S)
  | .ret _, _ => none
  | .read k, s => some (k s, s)
  | .write f k, s => some (k, f s)
  | .call _ p k, s => some (k (p ⟨s, g⟩).1, (p ⟨s, g⟩).2.state)

/-- Whatever others do within `R` between the steps, the process ends with `Q`, and that stays so. -/
def Safe (R : S → S → Prop) (Q : α → S → Prop) : Proc L S α → S → Prop
  | .ret a, s => ∀ t, R s t → Q a t
  | .read k, s => ∀ t, R s t → Safe R Q (k t) t
  | .write f k, s => ∀ t, R s t → Safe R Q k (f t)
  | .call _ p k, s => ∀ t, R s t → ∀ g, Safe R Q (k (p ⟨t, g⟩).1) (p ⟨t, g⟩).2.state

section Safe

variable {R : S → S → Prop} {Q : α → S → Prop} {Q' : β → S → Prop} {s t : S}

/-- Others may go on. -/
theorem safe_env (htrans : ∀ s t u, R s t → R t u → R s u) {p : Proc L S α} (h : Safe R Q p s)
    (hst : R s t) : Safe R Q p t := by
  cases p with
  | ret a => exact fun u htu => h u (htrans s t u hst htu)
  | read k => exact fun u htu => h u (htrans s t u hst htu)
  | write f k => exact fun u htu => h u (htrans s t u hst htu)
  | call site p k => exact fun u htu => h u (htrans s t u hst htu)

/-- So may the process. -/
theorem safe_step (hrefl : ∀ s, R s s) {p p' : Proc L S α} {g : Nat → Bool} (h : Safe R Q p s)
    (hstep : p.step g s = some (p', t)) : Safe R Q p' t := by
  cases p with
  | ret a => cases hstep
  | read k =>
    cases hstep
    exact h s (hrefl s)
  | write f k =>
    cases hstep
    exact h s (hrefl s)
  | call site p k =>
    cases hstep
    exact h s (hrefl s) g

/-- What a process that has ended has reached. -/
theorem safe_ret (hrefl : ∀ s, R s s) {a : α} (h : Safe R Q (.ret a : Proc L S α) s) : Q a s :=
  h s (hrefl s)

theorem safe_mono {Q₁ Q₂ : α → S → Prop} (hQ : ∀ a t, Q₁ a t → Q₂ a t) {p : Proc L S α}
    (h : Safe R Q₁ p s) : Safe R Q₂ p s := by
  induction p generalizing s with
  | ret a => exact fun t hst => hQ a t (h t hst)
  | read k ih => exact fun t hst => ih t (h t hst)
  | write f k ih => exact fun t hst => ih (h t hst)
  | call site p k ih => exact fun t hst g => ih _ (h t hst g)

theorem safe_bind {p : Proc L S α} {q : α → Proc L S β}
    (h : Safe R (fun a t => Safe R Q' (q a) t) p s) (hrefl : ∀ s, R s s) :
    Safe R Q' (p >>= q) s := by
  show Safe R Q' (p.bind q) s
  induction p generalizing s with
  | ret a => exact h s (hrefl s)
  | read k ih => exact fun t hst => ih t (h t hst)
  | write f k ih => exact fun t hst => ih (h t hst)
  | call site p k ih => exact fun t hst g => ih _ (h t hst g)

end Safe

/-! ### Stable assertions -/

section Stable

variable {R : S → S → Prop} {Q : α → S → Prop} {I : S → Prop} {s : S}

/-- Others do not break the assertion. -/
def Stable (R : S → S → Prop) (I : S → Prop) : Prop := ∀ s t, I s → R s t → I t

theorem safe_pure (hI : Stable R I) (hs : I s) {a : α} (h : ∀ t, I t → Q a t) :
    Safe R Q (pure a : Proc L S α) s := fun t hst => h t (hI s t hs hst)

theorem safe_ask (hI : Stable R I) (hs : I s) {f : S → β} {q : β → Proc L S α}
    (h : ∀ t, I t → Safe R Q (q (f t)) t) : Safe R Q (ask f >>= q) s :=
  fun t hst => h t (hI s t hs hst)

theorem safe_change (hI : Stable R I) (hs : I s) {f : S → S} {q : Unit → Proc L S α}
    (h : ∀ t, I t → Safe R Q (q ()) (f t)) : Safe R Q (change f >>= q) s :=
  fun t hst => h t (hI s t hs hst)

theorem safe_invoke (hI : Stable R I) (hs : I s) {site : L} {p : Script S Bool}
    {q : Bool → Proc L S α} (h : ∀ t, I t → ∀ g, Safe R Q (q (p ⟨t, g⟩).1) (p ⟨t, g⟩).2.state) :
    Safe R Q (invoke site p >>= q) s :=
  fun t hst g => h t (hI s t hs hst) g

end Stable

/-! ## What a process does to others -/

/-- The state that the process has read last, once it has made its next step. -/
def lastRead : Proc L S α → S → S → S
  | .read _, _, s => s
  | _, seen, _ => seen

/-- Every step of the process is within `G`, which also knows the state that was read last, as long as
all reads find a state in `A`. -/
def Guarantees (A : S → Prop) (G : S → S → S → Prop) : S → Proc L S α → Prop
  | _, .ret _ => True
  | _, .read k => ∀ s, A s → Guarantees A G s (k s)
  | seen, .write f k => (∀ s, G seen s (f s)) ∧ Guarantees A G seen k
  | seen, .call _ p k => (∀ s g, G seen s (p ⟨s, g⟩).2.state) ∧ ∀ b, Guarantees A G seen (k b)

theorem guarantees_step {A : S → Prop} {G : S → S → S → Prop} (hrefl : ∀ seen s, G seen s s)
    {p p' : Proc L S α} {seen s t : S} {g : Nat → Bool} (h : p.Guarantees A G seen) (hs : A s)
    (hstep : p.step g s = some (p', t)) : G seen s t ∧ p'.Guarantees A G (p.lastRead seen s) := by
  cases p with
  | ret a => cases hstep
  | read k =>
    cases hstep
    exact ⟨hrefl seen s, h s hs⟩
  | write f k =>
    cases hstep
    exact ⟨h.1 s, h.2⟩
  | call site p k =>
    cases hstep
    exact ⟨h.1 s g, h.2 _⟩

end Proc

/-! ## Tasks on a part of the state -/

namespace Task

variable {L S σ α : Type}

/-- A task on the part of the state that `get` reads and `put` writes; a write that meets a fault
fails. -/
def toProc (site : L) (get : S → σ) (put : σ → S → S) : Task σ α → Proc L S α
  | .ret a => .ret a
  | .read k => .read fun s => toProc site get put (k (get s))
  | .write v k => .call site (Script.cmd fun s => some (put v s)) fun b => toProc site get put (k b)

theorem toProc_guarantees {site : L} {get : S → σ} {put : σ → S → S} {A : S → Prop} {B : σ → Prop}
    (hAB : ∀ s, A s → B (get s)) {P : σ → σ → Prop} {G : S → S → S → Prop}
    (hrefl : ∀ seen s, G seen s s) (hput : ∀ seen s v, P (get seen) v → G seen s (put v s))
    {t : Task σ α} {seen : S} (h : t.Based B P (get seen)) :
    (t.toProc site get put).Guarantees A G seen := by
  induction t generalizing seen with
  | ret a => trivial
  | read k ih => exact fun s hs => ih (get s) (h (get s) (hAB s hs))
  | write v k ih =>
    refine ⟨fun s g => ?_, fun b => ih b (h.2 b)⟩
    have hruns := Script.runs_cmd (fun s => some (put v s)) s g
    rw [hruns]
    show G seen s (Script.attempt (g 0) (fun s => some (put v s)) s)
    cases g 0 with
    | true => exact hrefl seen s
    | false => exact hput seen s v h.1

end Task

end WebZapret
