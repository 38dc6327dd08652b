import WebZapret.Lib.Machine
import WebZapret.Lib.Script

/-!
# Programs of commands

A program runs commands one after another and goes on as their exit statuses say. It is a script whose
commands can be taken one at a time, so that other programs run between them.

Two programs share a state. The second one is *invisible* if a view of the state is the same before and
after each of its commands. If the commands of the first one do to the view what their images do, the
view never tells whether the second program is there (`view_of_run`): the first program goes through the
same commands as its image does alone, and those whose exit statuses it goes by have the same ones. The
second program may be killed and started again at any time.
-/

namespace WebZapret

/-- A program of commands on states `S` that returns an `α`. -/
inductive Commands (S α : Type) where
  | ret (a : α)
  | cmd (f : S → Option S) (k : Bool → Commands S α)

namespace Commands

variable {S V α β : Type}

def bind : Commands S α → (α → Commands S β) → Commands S β
  | .ret a, q => q a
  | .cmd f k, q => .cmd f fun b => (k b).bind q

instance : Monad (Commands S) where
  pure := .ret
  bind := bind

/-- One command; the answer is its exit status. -/
def invoke (f : S → Option S) : Commands S Bool := .cmd f .ret

/-- The program as a script. -/
def toScript : Commands S α → Script S α
  | .ret a => pure a
  | .cmd f k => do
    let b ← Script.cmd f
    toScript (k b)

@[simp] theorem toScript_pure (a : α) : (pure a : Commands S α).toScript = pure a := rfl

@[simp] theorem toScript_invoke (f : S → Option S) : (invoke f).toScript = Script.cmd f := rfl

@[simp] theorem toScript_bind (p : Commands S α) (q : α → Commands S β) :
    (p >>= q).toScript = p.toScript >>= fun a => (q a).toScript := by
  show (p.bind q).toScript = _
  induction p with
  | ret a => rfl
  | cmd f k ih =>
    show (do
      let b ← Script.cmd f
      ((k b).bind q).toScript) = _
    simp only [ih]
    rfl

/-- One program after another. -/
def all : List (Commands S Unit) → Commands S Unit
  | [] => pure ()
  | p :: ps => do
    p
    all ps

/-- The next command, which fails for a reason of its own if there is a fault. -/
def step (fault : Bool) : Commands S α → S → Option (Commands S α × S)
  | .ret _, _ => none
  | .cmd f k, s =>
    match fault, f s with
    | false, some t => some (k true, t)
    | _, _ => some (k false, s)

/-- The program alone, for as many commands as there are faults. -/
def runFor : List Bool → Commands S α → S → Option (Commands S α × S)
  | [], p, s => some (p, s)
  | fault :: faults, p, s => (p.step fault s).bind fun (p, s) => runFor faults p s

/-! ## What is seen of a program -/

section View

variable (I : S → Prop) (view : S → V)

/-- The command does to the view what its image does. -/
def Mirrored (f : S → Option S) (f' : V → Option V) : Prop :=
  ∀ s, I s → (f s).map view = f' (view s) ∧ ∀ t ∈ f s, I t

/-- The view is the same after the command. -/
def Invisible (f : S → Option S) : Prop := ∀ s, I s → ∀ t ∈ f s, view t = view s ∧ I t

/-- Every command is invisible. -/
def Hidden : Commands S β → Prop
  | .ret _ => True
  | .cmd f k => Invisible I view f ∧ ∀ b, Hidden (k b)

/-- The image makes the same commands on views. Where a command is invisible, neither program goes by
its exit status. -/
def Mirrors : Commands S α → Commands V α → Prop
  | .ret a, .ret b => a = b
  | .cmd f k, .cmd f' k' =>
    Mirrored I view f f' ∧ (∀ b, Mirrors (k b) (k' b)) ∨
      Invisible I view f ∧ (∀ s, I s → ∀ v ∈ f' (view s), v = view s) ∧ ∀ b b', Mirrors (k b) (k' b')
  | _, _ => False

end View

/-! ## Two programs -/

/-- A state that two programs share. -/
structure Pair (S α β : Type) where
  state : S
  first : Commands S α
  second : Commands S β

inductive Turn (S β : Type) where
  | first (fault : Bool)
  | second (fault : Bool)
  /-- the second program is killed, wherever it is, and another one is started -/
  | restart (q : Commands S β)

/-- The two programs, a command at a time. -/
def together (S α β : Type) : Machine (Pair S α β) (Turn S β) where
  step s
    | .first fault => (s.first.step fault s.state).map fun (p, t) => { s with state := t, first := p }
    | .second fault => (s.second.step fault s.state).map fun (q, t) => { s with state := t, second := q }
    | .restart q => some { s with second := q }

/-- The faults that the first program meets. -/
def firstFaults : List (Turn S β) → List Bool
  | [] => []
  | .first fault :: turns => fault :: firstFaults turns
  | _ :: turns => firstFaults turns

section

variable {I : S → Prop} {view : S → V}

/-! ## The rules -/

theorem mirrors_pure (a : α) : Mirrors I view (pure a : Commands S α) (pure a : Commands V α) := rfl

theorem mirrors_invoke {f : S → Option S} {f' : V → Option V} (h : Mirrored I view f f') :
    Mirrors I view (invoke f) (invoke f') := .inl ⟨h, fun _ => rfl⟩

theorem mirrors_bind {p : Commands S α} {p' : Commands V α} {q : α → Commands S β}
    {q' : α → Commands V β} (hp : Mirrors I view p p') (hq : ∀ a, Mirrors I view (q a) (q' a)) :
    Mirrors I view (p >>= q) (p' >>= q') := by
  show Mirrors I view (p.bind q) (p'.bind q')
  induction p generalizing p' with
  | ret a =>
    cases p' with
    | ret b =>
      cases hp
      exact hq a
    | cmd f' k' => exact hp.elim
  | cmd f k ih =>
    cases p' with
    | ret b => exact hp.elim
    | cmd f' k' =>
      rcases hp with ⟨hf, hk⟩ | ⟨hf, hf', hk⟩
      · exact .inl ⟨hf, fun b => ih b (hk b)⟩
      · exact .inr ⟨hf, hf', fun b b' => ih b (hk b b')⟩

/-- An invisible command whose exit status nobody reads. -/
theorem mirrors_discard_invoke {f : S → Option S} {f' : V → Option V} (hf : Invisible I view f)
    (hf' : ∀ s, I s → ∀ v ∈ f' (view s), v = view s) :
    Mirrors I view (discard (invoke f)) (discard (invoke f')) :=
  .inr ⟨hf, hf', fun _ _ => mirrors_pure ()⟩

theorem hidden_pure (b : β) : Hidden I view (pure b : Commands S β) := trivial

theorem hidden_invoke {f : S → Option S} (h : Invisible I view f) :
    Hidden I view (invoke f) := ⟨h, fun _ => trivial⟩

theorem hidden_bind {p : Commands S α} {q : α → Commands S β} (hp : Hidden I view p)
    (hq : ∀ a, Hidden I view (q a)) : Hidden I view (p >>= q) := by
  show Hidden I view (p.bind q)
  induction p with
  | ret a => exact hq a
  | cmd f k ih => exact ⟨hp.1, fun b => ih b (hp.2 b)⟩

theorem hidden_discard {p : Commands S α} (hp : Hidden I view p) : Hidden I view (discard p) :=
  hidden_bind hp fun _ => hidden_pure ()

/-! ## The runs -/

/-- One command of a program, and its image's. -/
theorem mirrors_step {p p₁ : Commands S α} {p' : Commands V α} {s t : S} {fault : Bool}
    (h : Mirrors I view p p') (hs : I s) (hstep : p.step fault s = some (p₁, t)) :
    I t ∧ ∃ p₁', p'.step fault (view s) = some (p₁', view t) ∧ Mirrors I view p₁ p₁' := by
  cases p with
  | ret a => cases hstep
  | cmd f k =>
  cases p' with
  | ret b => exact h.elim
  | cmd f' k' =>
  rcases h with ⟨hf, hk⟩ | ⟨hf, hf', hk⟩
  · obtain ⟨hview, hinv⟩ := hf s hs
    cases fault with
    | true =>
      cases hstep
      exact ⟨hs, k' false, rfl, hk false⟩
    | false =>
      cases hc : f s with
      | none =>
        simp only [step, hc] at hstep
        cases hstep
        rw [hc] at hview
        exact ⟨hs, k' false, by simp only [step, ← hview, Option.map_none], hk false⟩
      | some u =>
        simp only [step, hc] at hstep
        cases hstep
        rw [hc] at hview
        exact ⟨hinv t hc, k' true, by simp only [step, ← hview, Option.map_some], hk true⟩
  · -- the two may exit differently here, but neither leaves a trace in the view
    have himage : ∃ b, (cmd f' k').step fault (view s) = some (k' b, view s) := by
      cases fault with
      | true => exact ⟨false, rfl⟩
      | false =>
        cases hc : f' (view s) with
        | none => exact ⟨false, by simp only [step, hc]⟩
        | some v => exact ⟨true, by simp only [step, hc, hf' s hs v hc]⟩
    obtain ⟨b', himage⟩ := himage
    have hcommand : ∃ b, p₁ = k b ∧ view t = view s ∧ I t := by
      cases fault with
      | true =>
        cases hstep
        exact ⟨false, rfl, rfl, hs⟩
      | false =>
        cases hc : f s with
        | none =>
          simp only [step, hc] at hstep
          cases hstep
          exact ⟨false, rfl, rfl, hs⟩
        | some u =>
          simp only [step, hc] at hstep
          cases hstep
          exact ⟨true, rfl, hf s hs t hc⟩
    obtain ⟨b, rfl, hview, ht⟩ := hcommand
    exact ⟨ht, k' b', by rw [hview, himage], hk b b'⟩

theorem hidden_step {q q₁ : Commands S β} {s t : S} {fault : Bool} (h : Hidden I view q) (hs : I s)
    (hstep : q.step fault s = some (q₁, t)) : view t = view s ∧ I t ∧ Hidden I view q₁ := by
  cases q with
  | ret b => cases hstep
  | cmd f k =>
  cases fault with
  | true =>
    cases hstep
    exact ⟨rfl, hs, h.2 false⟩
  | false =>
    cases hc : f s with
    | none =>
      simp only [step, hc] at hstep
      cases hstep
      exact ⟨rfl, hs, h.2 false⟩
    | some u =>
      simp only [step, hc] at hstep
      cases hstep
      obtain ⟨hview, ht⟩ := h.1 s hs t hc
      exact ⟨hview, ht, h.2 true⟩

/-- **The second program is not seen.** -/
theorem view_of_run {p : Commands S α} {p' : Commands V α} {q : Commands S β} {s : S}
    {turns : List (Turn S β)} {last : Pair S α β} (hp : Mirrors I view p p') (hq : Hidden I view q)
    (hrestart : ∀ r, .restart r ∈ turns → Hidden I view r) (hs : I s)
    (hrun : (together S α β).run ⟨s, p, q⟩ turns = some last) :
    I last.state ∧ ∃ p₁', p'.runFor (firstFaults turns) (view s) = some (p₁', view last.state) ∧
      Mirrors I view last.first p₁' := by
  induction turns generalizing s p p' q with
  | nil =>
    cases hrun
    exact ⟨hs, p', rfl, hp⟩
  | cons turn turns ih =>
    obtain ⟨mid, hstep, hrun⟩ := (together S α β).run_cons_eq_some.mp hrun
    have hlater : ∀ r, .restart r ∈ turns → Hidden I view r :=
      fun r hr => hrestart r (List.mem_cons_of_mem _ hr)
    cases turn with
    | first fault =>
      obtain ⟨⟨p₁, t⟩, hp₁, rfl⟩ := Option.map_eq_some_iff.mp hstep
      obtain ⟨ht, p₁', himage, hmirrors⟩ := mirrors_step hp hs hp₁
      obtain ⟨hlast, p₂', hrest, hend⟩ := ih hmirrors hq hlater ht hrun
      refine ⟨hlast, p₂', ?_, hend⟩
      show (p'.step fault (view s)).bind _ = _
      rw [himage]
      exact hrest
    | second fault =>
      obtain ⟨⟨q₁, t⟩, hq₁, rfl⟩ := Option.map_eq_some_iff.mp hstep
      obtain ⟨hview, ht, hhidden⟩ := hidden_step hq hs hq₁
      obtain ⟨hlast, p₁', hrest, hend⟩ := ih hp hhidden hlater ht hrun
      exact ⟨hlast, p₁', by rw [← hview]; exact hrest, hend⟩
    | restart r =>
      cases hstep
      exact ih hp (hrestart r List.mem_cons_self) hlater hs hrun

end

end Commands

end WebZapret
