import Mathlib.Data.List.Basic
import Mathlib.Data.Option.Basic

/-!
# Guarded transition systems

A machine is a partial step function: `step s a = some t` when the step labelled `a` can be
taken in `s`. Nondeterminism (which actor moves next, what the environment answers) lives in
the labels, so a run is determined by its start and its labels, and can be evaluated.

* `run` executes a list of labels.
* `Always P` says that `P` holds in every state a run visits.
* `Guarded G` says that every step of a run is taken in a state its guard allows.

The rules: an invariant of each step holds in every state of a run (`always_of_step`), an invariant
of each guarded step in every state of a guarded run (`always_of_guarded`), and where a step keeps the
property exactly when its guard allows it, the runs that keep the property are exactly the guarded
ones (`always_iff_guarded`).
-/

namespace WebZapret

/-- A transition system whose steps are labelled partial functions. -/
structure Machine (σ ℓ : Type*) where
  step : σ → ℓ → Option σ

namespace Machine

variable {σ ℓ : Type*} (M : Machine σ ℓ)

/-- Execute a list of labels; `none` when one of them is not enabled. -/
def run : σ → List ℓ → Option σ
  | s, [] => some s
  | s, a :: as => (M.step s a).bind fun t => run t as

theorem run_cons (s : σ) (a : ℓ) (as : List ℓ) :
    M.run s (a :: as) = (M.step s a).bind fun t => M.run t as := rfl

/-- Expose the first step of a run. -/
theorem run_cons_eq_some {s u : σ} {a : ℓ} {as : List ℓ} :
    M.run s (a :: as) = some u ↔ ∃ t, M.step s a = some t ∧ M.run t as = some u := by
  rw [run_cons, Option.bind_eq_some_iff]

/-! ## Properties of every state of a run -/

/-- `P` holds in every state that the run from `s` along the labels visits. -/
def Always (P : σ → Prop) : σ → List ℓ → Prop
  | s, [] => P s
  | s, a :: as => P s ∧ ∀ t, M.step s a = some t → Always P t as

/-- Every step that the run from `s` along the labels takes is allowed by the guard. -/
def Guarded (G : σ → ℓ → Prop) : σ → List ℓ → Prop
  | _, [] => True
  | s, a :: as => ∀ t, M.step s a = some t → G s a ∧ Guarded G t as

variable {M} in
/-- The steps of a concrete run, one by one. -/
theorem Guarded.cons {G : σ → ℓ → Prop} {s t : σ} {a : ℓ} {as : List ℓ}
    (hstep : M.step s a = some t) (hg : G s a) (hrest : M.Guarded G t as) :
    M.Guarded G s (a :: as) := by
  intro u hu
  rw [hstep] at hu
  cases hu
  exact ⟨hg, hrest⟩

variable {M} in
theorem Always.head {P : σ → Prop} {s : σ} {as : List ℓ} (h : M.Always P s as) : P s := by
  cases as with
  | nil => exact h
  | cons a as => exact h.1

variable {M} in
/-- The last state of a run is one of the states it visits. -/
theorem Always.last {P : σ → Prop} {s t : σ} {as : List ℓ} (h : M.Always P s as)
    (hrun : M.run s as = some t) : P t := by
  induction as generalizing s with
  | nil => exact Option.some.inj hrun ▸ h
  | cons a as ih =>
    obtain ⟨u, hu, hrun⟩ := M.run_cons_eq_some.mp hrun
    exact ih (h.2 u hu) hrun

variable {M} in
theorem Always.mono {P Q : σ → Prop} (hPQ : ∀ s, P s → Q s) {s : σ} {as : List ℓ}
    (h : M.Always P s as) : M.Always Q s as := by
  induction as generalizing s with
  | nil => exact hPQ s h
  | cons a as ih => exact ⟨hPQ s h.1, fun t ht => ih (h.2 t ht)⟩

/-- **Invariants.** What every step preserves holds in every state of a run. -/
theorem always_of_step {I : σ → Prop} (hstep : ∀ s a t, I s → M.step s a = some t → I t)
    {s : σ} (hs : I s) (as : List ℓ) : M.Always I s as := by
  induction as generalizing s with
  | nil => exact hs
  | cons a as ih => exact ⟨hs, fun t ht => ih (hstep s a t hs ht)⟩

/-- **Guarded invariants.** What every guarded step preserves holds in every state of a
guarded run. -/
theorem always_of_guarded {I : σ → Prop} {G : σ → ℓ → Prop}
    (hstep : ∀ s a t, I s → G s a → M.step s a = some t → I t)
    {s : σ} {as : List ℓ} (hs : I s) (h : M.Guarded G s as) : M.Always I s as := by
  induction as generalizing s with
  | nil => exact hs
  | cons a as ih =>
    exact ⟨hs, fun t ht => ih (hstep s a t hs (h t ht).1 ht) (h t ht).2⟩

variable {M} in
/-- What holds of every step that is taken where the invariant does. -/
theorem Always.guarded {I : σ → Prop} {G : σ → ℓ → Prop} (hstep : ∀ s a, I s → G s a) {s : σ}
    {as : List ℓ} (h : M.Always I s as) : M.Guarded G s as := by
  induction as generalizing s with
  | nil => exact trivial
  | cons a as ih => exact fun t ht => ⟨hstep s a h.1, ih (h.2 t ht)⟩

/-- **Exact guards.** Let `I` be an invariant of all good steps. If a step from a good state
leads to a good state exactly when the guard allows it, then a run visits good states only
exactly when all its steps are guarded. -/
theorem always_iff_guarded {I P : σ → Prop} {G : σ → ℓ → Prop}
    (hinv : ∀ s a t, I s → P s → M.step s a = some t → P t → I t)
    (hexact : ∀ s a t, I s → P s → M.step s a = some t → (P t ↔ G s a))
    {s : σ} {as : List ℓ} (hI : I s) (hP : P s) : M.Always P s as ↔ M.Guarded G s as := by
  induction as generalizing s with
  | nil => exact ⟨fun _ => trivial, fun _ => hP⟩
  | cons a as ih =>
    constructor
    · rintro ⟨-, h⟩ t ht
      have hPt : P t := (h t ht).head
      exact ⟨(hexact s a t hI hP ht).mp hPt, (ih (hinv s a t hI hP ht hPt) hPt).mp (h t ht)⟩
    · intro h
      refine ⟨hP, fun t ht => ?_⟩
      have hPt : P t := (hexact s a t hI hP ht).mpr (h t ht).1
      exact (ih (hinv s a t hI hP ht hPt) hPt).mpr (h t ht).2

end Machine

end WebZapret
