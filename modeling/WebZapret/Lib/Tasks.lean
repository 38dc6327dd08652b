import WebZapret.Lib.Machine
import Mathlib.Logic.Function.Basic
import Mathlib.Tactic.Common

/-!
# Tasks on a shared cell

A task is a program whose only effects are reads and writes of one shared cell (a file), each one
atomic step. A write may fail. `effect` and `result` are what a task does when it runs alone.

Two tasks that write at most once, at their end, are run together by `machine`. If what a task
read before its deciding read does not matter (`Late`), it is enough that no write of the other
one lands between the deciding read and the task's own write (`Apart`): the outcome is then the
one of the two sequential orders (`serial_of_apart`).
-/

namespace WebZapret

/-- A program over one shared cell. -/
inductive Task (σ α : Type) where
  | ret (a : α)
  | read (k : σ → Task σ α)
  /-- write the cell; the argument of `k` says whether that succeeded -/
  | write (v : σ) (k : Bool → Task σ α)

namespace Task

variable {σ α : Type}

/-- The cell after the task has run alone, without failures. -/
def effect (s : σ) : Task σ α → σ
  | .ret _ => s
  | .read k => effect s (k s)
  | .write v k => effect v (k true)

/-- What the task returns when it runs alone, without failures. -/
def result (s : σ) : Task σ α → α
  | .ret a => a
  | .read k => result s (k s)
  | .write v k => result v (k true)

/-- What the task returns when it runs alone, and a write of `v` succeeds if `saves v`. -/
def answer (saves : σ → Bool) (s : σ) : Task σ α → α
  | .ret a => a
  | .read k => answer saves s (k s)
  | .write v k => if saves v then answer saves v (k true) else answer saves s (k false)

/-- The cell and the answer of a task that runs alone, with failures: a read that fails gets `lost`,
and a write that fails leaves the cell. Each call takes the next element of its list, and succeeds
where there is none. -/
def exec (lost : σ) (reads writes : List Bool) (s : σ) : Task σ α → σ × α
  | .ret a => (s, a)
  | .read k => exec lost reads.tail writes s (k (if reads.headD true then s else lost))
  | .write v k =>
    if writes.headD true then exec lost reads writes.tail v (k true)
    else exec lost reads writes.tail s (k false)

/-- The rest of a task after a number of reads that all got the same value. -/
def feed (c : σ) : Nat → Task σ α → Option (Task σ α)
  | 0, t => some t
  | n + 1, .read k => feed c n (k c)
  | _ + 1, _ => none

/-- A task that reads nothing but `c` writes `v`. -/
def Writes (t : Task σ α) (c v : σ) : Prop := ∃ n k, t.feed c n = some (.write v k)

/-- The task writes at most once, at its end, and its result is `ok` only after it has written. -/
def WritesLast (ok : α → Prop) : Task σ α → Prop
  | .ret a => ¬ok a
  | .read k => ∀ s, WritesLast ok (k s)
  | .write _ k => ∀ b, ∃ a, k b = .ret a

/-- The task writes at most once, at its end, and its result is `ok` exactly when it has written. -/
def Reports (ok : α → Prop) : Task σ α → Prop
  | .ret a => ¬ok a
  | .read k => ∀ s, Reports ok (k s)
  | .write _ k => (∃ a, k true = .ret a ∧ ok a) ∧ ∃ a, k false = .ret a ∧ ¬ok a

/-- The first `n` reads of `t` do not decide what it does: when they came before a write of `u`
and the later ones after it, and the result is `ok`, the effect is that of running after `u`. -/
def Late (ok : α → Prop) (t u : Task σ α) (n : Nat) : Prop :=
  ∀ c v, u.Writes c v → ∀ m ≤ n, ∀ rest, t.feed c m = some rest →
    ok (rest.result v) → rest.effect v = t.effect v

/-- Every write is within `P` of the value that was read last, as long as all reads are in `A`. -/
def Based (A : σ → Prop) (P : σ → σ → Prop) : σ → Task σ α → Prop
  | _, .ret _ => True
  | _, .read k => ∀ s, A s → Based A P s (k s)
  | seen, .write v k => P seen v ∧ ∀ b, Based A P seen (k b)

theorem effect_feed {c : σ} {n : Nat} {t rest : Task σ α} (h : t.feed c n = some rest) :
    rest.effect c = t.effect c := by
  induction n generalizing t with
  | zero =>
    cases h
    rfl
  | succ n ih =>
    cases t with
    | ret a => cases h
    | read k =>
      have heffect : rest.effect c = (k c).effect c := ih h
      exact heffect
    | write v k => cases h

theorem Reports.writesLast {ok : α → Prop} {t : Task σ α} (h : t.Reports ok) : t.WritesLast ok := by
  induction t with
  | ret a => exact h
  | read k ih => exact fun s => ih s (h s)
  | write v k ih =>
    obtain ⟨⟨a, ha, _⟩, b, hb, _⟩ := h
    intro saved
    cases saved with
    | true => exact ⟨a, ha⟩
    | false => exact ⟨b, hb⟩

/-- With its reads succeeding, a task reports a failure and leaves the cell, or reports a success and
has written what it writes alone. -/
theorem Reports.exec_cases {ok : α → Prop} {t : Task σ α} (h : t.Reports ok) (lost : σ)
    (writes : List Bool) (s : σ) :
    (¬ok (t.exec lost [] writes s).2 ∧ (t.exec lost [] writes s).1 = s) ∨
      ok (t.exec lost [] writes s).2 ∧ t.Writes s (t.exec lost [] writes s).1 := by
  induction t with
  | ret a => exact .inl ⟨h, rfl⟩
  | read k ih =>
    rcases ih s (h s) with hfailed | ⟨hok, n, j, hfeed⟩
    · exact .inl hfailed
    · exact .inr ⟨hok, n + 1, j, hfeed⟩
  | write v k ih =>
    obtain ⟨⟨a, ha, hok⟩, b, hb, hfailed⟩ := h
    rw [exec]
    split
    · rw [ha, exec]
      exact .inr ⟨hok, 0, k, rfl⟩
    · rw [hb, exec]
      exact .inl ⟨hfailed, rfl⟩

theorem writesLast_feed {ok : α → Prop} {c : σ} {n : Nat} {t rest : Task σ α}
    (ht : t.WritesLast ok) (h : t.feed c n = some rest) : rest.WritesLast ok := by
  induction n generalizing t with
  | zero =>
    cases h
    exact ht
  | succ n ih =>
    cases t with
    | ret a => cases h
    | read k => exact ih (ht c) h
    | write v k => cases h

/-- One more read of the same value. -/
theorem feed_read {c : σ} {n : Nat} {t : Task σ α} {k : σ → Task σ α}
    (h : t.feed c n = some (.read k)) : t.feed c (n + 1) = some (k c) := by
  induction n generalizing t with
  | zero =>
    cases h
    rfl
  | succ n ih =>
    cases t with
    | ret a => cases h
    | read j => exact ih h
    | write v j => cases h

theorem not_writes_ret {a : α} {c v : σ} : ¬(Task.ret a).Writes c v := by
  rintro ⟨n, k, hfeed⟩
  cases n <;> cases hfeed

theorem writes_of_read {k : σ → Task σ α} {c v : σ} (h : (Task.read k).Writes c v) :
    (k c).Writes c v := by
  obtain ⟨n, j, hfeed⟩ := h
  cases n with
  | zero => cases hfeed
  | succ n => exact ⟨n, j, hfeed⟩

theorem eq_of_writes {k : Bool → Task σ α} {c v w : σ} (h : (Task.write w k).Writes c v) :
    w = v := by
  obtain ⟨n, j, hfeed⟩ := h
  cases n with
  | zero =>
    cases hfeed
    rfl
  | succ n => cases hfeed

/-- What a task writes when it reads nothing but `c`. -/
theorem based_writes {A : σ → Prop} {P : σ → σ → Prop} {t : Task σ α} {c v : σ} (hc : A c)
    (ht : t.Based A P c) (h : t.Writes c v) : P c v := by
  obtain ⟨n, j, hfeed⟩ := h
  induction n generalizing t with
  | zero =>
    cases hfeed
    exact ht.1
  | succ n ih =>
    cases t with
    | ret a => cases hfeed
    | read k => exact ih (ht c hc) hfeed
    | write w k => cases hfeed

theorem Based.mono {A : σ → Prop} {P Q : σ → σ → Prop} (hPQ : ∀ s v, P s v → Q s v)
    {t : Task σ α} {seen : σ} (h : t.Based A P seen) : t.Based A Q seen := by
  induction t generalizing seen with
  | ret a => trivial
  | read k ih => exact fun s hs => ih s (h s hs)
  | write v k ih => exact ⟨hPQ seen v h.1, fun b => ih b (h.2 b)⟩

/-- What a task writes is its effect. -/
theorem effect_eq_of_writes {ok : α → Prop} {t : Task σ α} {c v : σ} (ht : t.WritesLast ok)
    (h : t.Writes c v) : t.effect c = v := by
  obtain ⟨n, k, hfeed⟩ := h
  have hrest := writesLast_feed ht hfeed
  obtain ⟨a, ha⟩ := hrest true
  rw [← effect_feed hfeed, effect, ha, effect]

/-- With no reads before the deciding one there is nothing to show. -/
theorem late_zero (ok : α → Prop) (t u : Task σ α) : t.Late ok u 0 := by
  intro c v _ m hm rest hrest _
  rw [Nat.le_zero.mp hm] at hrest
  cases hrest
  rfl

end Task

/-! ## Two tasks -/

/-- The cell, what is left of the two tasks, and how many steps each has made. -/
structure Pair (σ α : Type) where
  cell : σ
  task : Bool → Task σ α
  steps : Bool → Nat

namespace Pair

variable {σ α : Type}

def start (c : σ) (t : Bool → Task σ α) : Pair σ α := ⟨c, t, fun _ => 0⟩

/-- Task `i` goes on to `t`. -/
def advance (s : Pair σ α) (i : Bool) (t : Task σ α) : Pair σ α :=
  { s with
    task := Function.update s.task i t
    steps := Function.update s.steps i (s.steps i + 1) }

/-- Task `i` makes a step, which succeeds. -/
def step (s : Pair σ α) (i : Bool) : Option (Pair σ α) :=
  match s.task i with
  | .ret _ => none
  | .read k => some (s.advance i (k s.cell))
  | .write v k => some { s.advance i (k true) with cell := v }

def machine : Machine (Pair σ α) Bool := ⟨step⟩

/-- No write lands between the deciding read of the other task and the end of that task; `late i`
is the number of reads of task `i` that decide nothing. -/
def Apart (late : Bool → Nat) (s : Pair σ α) (i : Bool) : Prop :=
  ∀ v k, s.task i = .write v k → s.steps (!i) ≤ late (!i) ∨ ∃ a, s.task (!i) = .ret a

/-- Once both tasks have returned an `ok` result, the cell is what one of the sequential orders
leaves. -/
def Serial (ok : α → Prop) (c : σ) (t : Bool → Task σ α) (s : Pair σ α) : Prop :=
  (∀ i, ∃ a, s.task i = .ret a ∧ ok a) →
    s.cell = (t true).effect ((t false).effect c) ∨ s.cell = (t false).effect ((t true).effect c)

/-- How far a run of tasks that stay apart is. -/
inductive Inv (ok : α → Prop) (c : σ) (t : Bool → Task σ α) (s : Pair σ α) : Prop where
  /-- nobody has written -/
  | fresh (hcell : s.cell = c) (hfeed : ∀ i, (t i).feed c (s.steps i) = some (s.task i))
  /-- task `i` has written and is done, and the other one will do as if it had run after it -/
  | half (i : Bool) (a : α) (hcell : s.cell = (t i).effect c) (hret : s.task i = .ret a)
      (hlast : (s.task (!i)).WritesLast ok)
      (hlate : ok ((s.task (!i)).result s.cell) →
        (s.task (!i)).effect s.cell = (t !i).effect s.cell)
  /-- both are done -/
  | done (i : Bool) (a b : α) (hret : s.task i = .ret a) (hret' : s.task (!i) = .ret b)
      (hcell : ok b → s.cell = (t !i).effect ((t i).effect c))

theorem advance_task_self (s : Pair σ α) (i : Bool) (t : Task σ α) :
    (s.advance i t).task i = t := Function.update_self ..

theorem advance_steps_self (s : Pair σ α) (i : Bool) (t : Task σ α) :
    (s.advance i t).steps i = s.steps i + 1 := Function.update_self ..

theorem advance_task_ne (s : Pair σ α) {i j : Bool} (h : j ≠ i) (t : Task σ α) :
    (s.advance i t).task j = s.task j := Function.update_of_ne h ..

theorem advance_steps_ne (s : Pair σ α) {i j : Bool} (h : j ≠ i) (t : Task σ α) :
    (s.advance i t).steps j = s.steps j := Function.update_of_ne h ..

/-- What a step does: the task that moves goes on with what it read, or has written; the other
one stays. -/
theorem step_cases {s s' : Pair σ α} {i : Bool} (h : s.step i = some s') :
    s'.task (!i) = s.task (!i) ∧ s'.steps (!i) = s.steps (!i) ∧ s'.steps i = s.steps i + 1 ∧
      ((∃ k, s.task i = .read k ∧ s'.task i = k s.cell ∧ s'.cell = s.cell) ∨
        ∃ v k, s.task i = .write v k ∧ s'.task i = k true ∧ s'.cell = v) := by
  have hne : (!i) ≠ i := by cases i <;> decide
  unfold step at h
  split at h
  · cases h
  · rename_i k hk
    cases h
    exact ⟨advance_task_ne s hne _, advance_steps_ne s hne _, advance_steps_self s i _,
      .inl ⟨k, hk, advance_task_self s i _, rfl⟩⟩
  · rename_i v k hk
    cases h
    exact ⟨advance_task_ne s hne (k true), advance_steps_ne s hne (k true),
      advance_steps_self s i (k true), .inr ⟨v, k, hk, advance_task_self s i (k true), rfl⟩⟩

variable {ok : α → Prop} {c : σ} {t : Bool → Task σ α} {late : Bool → Nat} {s s' : Pair σ α}

theorem Inv.serial (h : Inv ok c t s) (hlast : ∀ i, (t i).WritesLast ok) : Serial ok c t s := by
  intro hdone
  cases h with
  | fresh hcell hfeed =>
    -- no result is ok before its task has written
    obtain ⟨a, ha, hok⟩ := hdone false
    have hwrites := Task.writesLast_feed (hlast false) (hfeed false)
    rw [ha] at hwrites
    exact absurd hok hwrites
  | half i a hcell hret hwrites hlate =>
    obtain ⟨b, hb, hok⟩ := hdone (!i)
    rw [hb] at hwrites
    exact absurd hok hwrites
  | done i a b hret hret' hcell =>
    obtain ⟨b', hb', hok⟩ := hdone (!i)
    rw [hret'] at hb'
    cases hb'
    cases i with
    | false => exact .inl (hcell hok)
    | true => exact .inr (hcell hok)

theorem both_returned {i : Bool} {a b : α} (hret : s.task i = .ret a)
    (hret' : s.task (!i) = .ret b) (j : Bool) : ∃ a, s.task j = .ret a := by
  by_cases hij : j = i
  · exact ⟨a, by rw [hij, hret]⟩
  · have hij' : j = !i := by cases i <;> cases j <;> first | rfl | exact absurd rfl hij
    exact ⟨b, by rw [hij', hret']⟩

/-- Only the other task can still move when one has returned. -/
theorem eq_not_of_ret {i j : Bool} {a : α} (hret : s.task j = .ret a)
    (hi : ∀ a, s.task i ≠ .ret a) : i = !j := by
  by_cases hij : i = j
  · exact absurd (hij ▸ hret) (hi a)
  · cases i <;> cases j <;> first | rfl | exact absurd rfl hij

/-- A read keeps the invariant. -/
theorem inv_read {i : Bool} {k : σ → Task σ α} (h : Inv ok c t s)
    (hi : s.task i = .read k) : Inv ok c t (s.advance i (k s.cell)) := by
  cases h with
  | fresh hcell hfeed =>
    refine .fresh hcell fun j => ?_
    by_cases hj : j = i
    · subst hj
      have hbefore := hfeed j
      rw [hi] at hbefore
      rw [advance_steps_self, advance_task_self, hcell]
      exact Task.feed_read hbefore
    · rw [advance_steps_ne s hj, advance_task_ne s hj]
      exact hfeed j
  | half j a hcell hret hwrites hlate =>
    have hij : i = !j := eq_not_of_ret hret (by simp [hi])
    subst hij
    have hne : j ≠ !j := by cases j <;> decide
    rw [hi] at hwrites hlate
    refine .half j a hcell (by rw [advance_task_ne s hne, hret]) ?_ ?_
    · rw [advance_task_self]
      exact hwrites s.cell
    · rw [advance_task_self]
      exact hlate
  | done j a b hret hret' hcell =>
    obtain ⟨a', ha'⟩ := both_returned hret hret' i
    rw [hi] at ha'
    cases ha'

/-- A write that stays apart keeps the invariant. -/
theorem inv_write {i : Bool} {v : σ} {k : Bool → Task σ α} (h : Inv ok c t s)
    (hlast : ∀ i, (t i).WritesLast ok) (hlate : ∀ i, (t i).Late ok (t !i) (late i))
    (hg : s.steps (!i) ≤ late (!i) ∨ ∃ a, s.task (!i) = .ret a) (hi : s.task i = .write v k) :
    Inv ok c t { s.advance i (k true) with cell := v } := by
  cases h with
  | fresh hcell hfeed =>
    have hwritten : (t i).Writes c v := ⟨s.steps i, k, by rw [hfeed i, hi]⟩
    have heffect := Task.effect_eq_of_writes (hlast i) hwritten
    have hwrites := Task.writesLast_feed (hlast i) (hfeed i)
    have hother := Task.writesLast_feed (hlast !i) (hfeed !i)
    rw [hi] at hwrites
    obtain ⟨a, ha⟩ := hwrites true
    have hne : (!i) ≠ i := by cases i <;> decide
    refine .half i a heffect.symm ?_ ?_ ?_
    · rw [← ha]
      exact advance_task_self s i (k true)
    · have htask := advance_task_ne s hne (k true)
      rwa [← htask] at hother
    · have htask : (s.advance i (k true)).task (!i) = s.task (!i) := advance_task_ne s hne (k true)
      intro hok
      rw [htask] at hok ⊢
      rcases hg with hsteps | ⟨b, hb⟩
      · rw [← Bool.not_not i] at hwritten
        exact hlate (!i) c v hwritten _ hsteps _ (hfeed !i) hok
      · rw [hb] at hother hok
        exact absurd hok hother
  | half j a hcell hret hwrites hlate' =>
    have hij : i = !j := eq_not_of_ret hret (by simp [hi])
    subst hij
    have hne : j ≠ !j := by cases j <;> decide
    rw [hi] at hwrites hlate'
    obtain ⟨b, hb⟩ := hwrites true
    refine .done j a b ?_ ?_ ?_
    · rw [← hret]
      exact advance_task_ne s hne (k true)
    · rw [← hb]
      exact advance_task_self s (!j) (k true)
    · intro hok
      rw [Task.result, Task.effect, hb] at hlate'
      rw [← hcell]
      exact hlate' hok
  | done j a b hret hret' hcell =>
    obtain ⟨a', ha'⟩ := both_returned hret hret' i
    rw [hi] at ha'
    cases ha'

/-- **Tasks that stay apart are serial.** -/
theorem serial_of_apart (hlast : ∀ i, (t i).WritesLast ok) (hlate : ∀ i, (t i).Late ok (t !i) (late i))
    {labels : List Bool} (h : machine.Guarded (Apart late) (start c t) labels) :
    machine.Always (Serial ok c t) (start c t) labels := by
  have hinv : machine.Always (Inv ok c t) (start c t) labels := by
    refine machine.always_of_guarded ?_ (.fresh rfl fun _ => rfl) h
    intro s i s' hs hg hstep
    simp only [machine, step] at hstep
    split at hstep
    · cases hstep
    · rename_i k hk
      cases hstep
      exact inv_read hs hk
    · rename_i v k hk
      cases hstep
      exact inv_write hs hlast hlate (hg v k hk) hk
  exact hinv.mono fun _ hs => hs.serial hlast

end Pair

end WebZapret
