import WebZapret.Lib.Commands

/-!
# Proof outlines under interference

The second of two programs is proved by an outline: an assertion before each of its commands and one
after the last. An assertion has to be *stable*: a command of the first program, of which only a relation
between the states before and after it is known, may come at any time. As the second program may be
killed wherever it is, each assertion has to say enough for another one to start (`Assertion`).

The rule is `outline_run`.
-/

namespace WebZapret

namespace Commands

variable {S α β : Type} (I : S → Prop) (R : S → S → Prop) (J : S → Prop)

/-- Every command keeps the invariant and moves by the relation. -/
def Moves : Commands S α → Prop
  | .ret _ => True
  | .cmd f k => (∀ s, I s → ∀ t ∈ f s, I t ∧ R s t) ∧ ∀ b, Moves (k b)

/-- What may be asserted of the states between two commands. -/
structure Assertion (P : S → Prop) : Prop where
  stable : ∀ s t, I s → I t → P s → R s t → P t
  start : ∀ s, I s → P s → J s

/-- The program goes from `P` to `Q`. -/
def Outline : (S → Prop) → Commands S α → (α → S → Prop) → Prop
  | P, .ret a, Q => ∀ s, I s → P s → Q a s
  | P, .cmd f k, Q => ∃ M : Bool → S → Prop, (∀ b, Assertion I R J (M b)) ∧
      (∀ s, I s → P s → (∀ t ∈ f s, I t ∧ M true t) ∧ (f s = none → M false s)) ∧
      ∀ b, Outline (M b) (k b) Q

variable {I R J} {P P' : S → Prop} {Q : α → S → Prop}

/-! ## The rules -/

theorem moves_pure (a : α) : Moves I R (pure a : Commands S α) := trivial

theorem moves_invoke {f : S → Option S} (h : ∀ s, I s → ∀ t ∈ f s, I t ∧ R s t) :
    Moves I R (invoke f) := ⟨h, fun _ => trivial⟩

theorem moves_bind {p : Commands S α} {q : α → Commands S β} (hp : Moves I R p)
    (hq : ∀ a, Moves I R (q a)) : Moves I R (p >>= q) := by
  show Moves I R (p.bind q)
  induction p with
  | ret a => exact hq a
  | cmd f k ih => exact ⟨hp.1, fun b => ih b (hp.2 b)⟩

theorem outline_pre {p : Commands S α} (hP : ∀ s, I s → P' s → P s) (h : Outline I R J P p Q) :
    Outline I R J P' p Q := by
  cases p with
  | ret a => exact fun s hs hP' => h s hs (hP s hs hP')
  | cmd f k =>
    obtain ⟨M, hM, hf, hk⟩ := h
    exact ⟨M, hM, fun s hs hP' => hf s hs (hP s hs hP'), hk⟩

theorem outline_bind {M : α → S → Prop} {p : Commands S α} {q : α → Commands S β}
    {Q : β → S → Prop} (hp : Outline I R J P p M) (hq : ∀ a, Outline I R J (M a) (q a) Q) :
    Outline I R J P (p >>= q) Q := by
  show Outline I R J P (p.bind q) Q
  induction p generalizing P with
  | ret a => exact outline_pre hp (hq a)
  | cmd f k ih =>
    obtain ⟨M', hM', hf, hk⟩ := hp
    exact ⟨M', hM', hf, fun b => ih b (hk b)⟩

theorem outline_pure {a : α} (h : ∀ s, I s → P s → Q a s) :
    Outline I R J P (pure a : Commands S α) Q := h

/-- One command, after which the same holds whether or not it fails. -/
theorem outline_invoke {f : S → Option S} {M : S → Prop} (hM : Assertion I R J M)
    (hf : ∀ s, I s → P s → (∀ t ∈ f s, I t ∧ M t) ∧ (f s = none → M s)) :
    Outline I R J P (invoke f) fun _ => M :=
  ⟨fun _ => M, fun _ => hM, hf, fun _ _ _ h => h⟩

theorem outline_discard {p : Commands S α} {M : S → Prop} (h : Outline I R J P p fun _ => M) :
    Outline I R J P (discard p) fun _ => M :=
  outline_bind h fun _ => outline_pure fun _ _ h => h

/-! ## The runs -/

theorem moves_step {p p₁ : Commands S α} {s t : S} {fault : Bool} (h : Moves I R p) (hs : I s)
    (hstep : p.step fault s = some (p₁, t)) : Moves I R p₁ ∧ I t ∧ (t = s ∨ R s t) := by
  cases p with
  | ret a => cases hstep
  | cmd f k =>
  cases fault with
  | true =>
    cases hstep
    exact ⟨h.2 false, hs, .inl rfl⟩
  | false =>
    cases hc : f s with
    | none =>
      simp only [step, hc] at hstep
      cases hstep
      exact ⟨h.2 false, hs, .inl rfl⟩
    | some u =>
      simp only [step, hc] at hstep
      cases hstep
      obtain ⟨ht, hmove⟩ := h.1 s hs t hc
      exact ⟨h.2 true, ht, .inr hmove⟩

theorem outline_step {q q₁ : Commands S α} {s t : S} (h : Outline I R J P q Q) (hs : I s)
    (hP : P s) (hstep : q.step false s = some (q₁, t)) :
    I t ∧ ∃ M, Assertion I R J M ∧ M t ∧ Outline I R J M q₁ Q := by
  cases q with
  | ret a => cases hstep
  | cmd f k =>
    obtain ⟨M, hM, hf, hk⟩ := h
    cases hc : f s with
    | none =>
      simp only [step, hc] at hstep
      cases hstep
      exact ⟨hs, M false, hM false, (hf s hs hP).2 hc, hk false⟩
    | some u =>
      simp only [step, hc] at hstep
      cases hstep
      obtain ⟨ht, hMt⟩ := (hf s hs hP).1 t hc
      exact ⟨ht, M true, hM true, hMt, hk true⟩

/-- **Outlines hold.** Where the second program ends its postcondition holds, however often it has been
killed and started again, if no command of it has met a fault. -/
theorem outline_run {p : Commands S α} {q : Commands S β} {Q : β → S → Prop} {s : S}
    {turns : List (Turn S β)} {last : Pair S α β} (hp : Moves I R p) (hP : Assertion I R J P)
    (hq : Outline I R J P q Q) (hJ : Assertion I R J J)
    (hrestart : ∀ r, .restart r ∈ turns → Outline I R J J r Q) (hfaults : .second true ∉ turns)
    (hs : I s) (hPs : P s) (hrun : (together S α β).run ⟨s, p, q⟩ turns = some last) :
    I last.state ∧ J last.state ∧ ∀ b, last.second = .ret b → Q b last.state := by
  induction turns generalizing s p q P with
  | nil =>
    cases hrun
    refine ⟨hs, hP.start s hs hPs, ?_⟩
    rintro b rfl
    exact hq s hs hPs
  | cons turn turns ih =>
    obtain ⟨mid, hstep, hrun⟩ := (together S α β).run_cons_eq_some.mp hrun
    have hlater : ∀ r, .restart r ∈ turns → Outline I R J J r Q :=
      fun r hr => hrestart r (List.mem_cons_of_mem _ hr)
    have hnone : .second true ∉ turns := fun h => hfaults (List.mem_cons_of_mem _ h)
    cases turn with
    | first fault =>
      obtain ⟨⟨p₁, t⟩, hp₁, rfl⟩ := Option.map_eq_some_iff.mp hstep
      obtain ⟨hmoves, ht, hmove⟩ := moves_step hp hs hp₁
      have hPt : P t := by
        rcases hmove with rfl | hmove
        · exact hPs
        · exact hP.stable s t hs ht hPs hmove
      exact ih hmoves hP hq hlater hnone ht hPt hrun
    | second fault =>
      cases fault with
      | true => exact absurd List.mem_cons_self hfaults
      | false =>
        obtain ⟨⟨q₁, t⟩, hq₁, rfl⟩ := Option.map_eq_some_iff.mp hstep
        obtain ⟨ht, M, hM, hMt, hrest⟩ := outline_step hq hs hPs hq₁
        exact ih hp hM hrest hlater hnone ht hMt hrun
    | restart r =>
      cases hstep
      exact ih hp hJ (hrestart r List.mem_cons_self) hlater hnone hs (hP.start s hs hPs) hrun

end Commands

end WebZapret
