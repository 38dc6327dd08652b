import Mathlib.Data.List.Basic
import Mathlib.Tactic.Common

/-!
# Computations that may fail

How a success of a computation in `Except` is taken apart: into the successes of its parts
(`bind_eq_ok`), and for a loop into an invariant of its body (`foldlM_induct`).
-/

namespace WebZapret.Failing

variable {ε α β : Type}

theorem bind_eq_ok {x : Except ε α} {f : α → Except ε β} {b : β} :
    (x >>= f) = .ok b ↔ ∃ a, x = .ok a ∧ f a = .ok b := by
  cases x with
  | error e => exact ⟨nofun, nofun⟩
  | ok a =>
    constructor
    · intro h
      exact ⟨a, rfl, h⟩
    · rintro ⟨a', ha, h⟩
      cases ha
      exact h

/-- What the body of a loop preserves holds after the loop. -/
theorem foldlM_induct {f : β → α → Except ε β} (P : β → Prop) {l : List α}
    (hstep : ∀ b, P b → ∀ a ∈ l, ∀ b', f b a = .ok b' → P b') {b b' : β} (hb : P b)
    (h : l.foldlM f b = .ok b') : P b' := by
  induction l generalizing b with
  | nil =>
    cases h
    exact hb
  | cons a l ih =>
    rw [List.foldlM_cons, bind_eq_ok] at h
    obtain ⟨c, hc, hrest⟩ := h
    have hPc : P c := hstep b hb a List.mem_cons_self c hc
    exact ih (fun b hb a ha => hstep b hb a (List.mem_cons_of_mem _ ha)) hPc hrest

/-- Every result of `mapM` is the result of some element. -/
theorem mem_of_mapM {f : α → Except ε β} {l : List α} {l' : List β} (h : l.mapM f = .ok l')
    {b : β} (hb : b ∈ l') : ∃ a ∈ l, f a = .ok b := by
  induction l generalizing l' with
  | nil =>
    cases h
    cases hb
  | cons a l ih =>
    rw [List.mapM_cons, bind_eq_ok] at h
    obtain ⟨c, hc, h⟩ := h
    obtain ⟨cs, hcs, h⟩ := bind_eq_ok.mp h
    cases h
    rcases List.mem_cons.mp hb with rfl | hb
    · exact ⟨a, List.mem_cons_self, hc⟩
    · obtain ⟨a', ha', hf⟩ := ih hcs hb
      exact ⟨a', List.mem_cons_of_mem _ ha', hf⟩

theorem length_of_mapM {f : α → Except ε β} {l : List α} {l' : List β} (h : l.mapM f = .ok l') :
    l'.length = l.length := by
  induction l generalizing l' with
  | nil =>
    cases h
    rfl
  | cons a l ih =>
    rw [List.mapM_cons, bind_eq_ok] at h
    obtain ⟨c, _, h⟩ := h
    obtain ⟨cs, hcs, h⟩ := bind_eq_ok.mp h
    cases h
    rw [List.length_cons, List.length_cons, ih hcs]

/-- What is read off each result is read off its element. -/
theorem map_of_mapM {γ : Type} {f : α → Except ε β} {g : β → γ} {k : α → γ} {l : List α}
    {l' : List β} (h : l.mapM f = .ok l') (hread : ∀ a b, f a = .ok b → g b = k a) :
    l'.map g = l.map k := by
  induction l generalizing l' with
  | nil =>
    cases h
    rfl
  | cons a l ih =>
    rw [List.mapM_cons, bind_eq_ok] at h
    obtain ⟨b, hb, h⟩ := h
    obtain ⟨bs, hbs, h⟩ := bind_eq_ok.mp h
    cases h
    rw [List.map_cons, List.map_cons, hread a b hb, ih hbs]

/-- What holds of each element and its result holds element by element. -/
theorem forall₂_of_mapM {f : α → Except ε β} {P : α → β → Prop} {l : List α} {l' : List β}
    (h : l.mapM f = .ok l') (hP : ∀ a ∈ l, ∀ b ∈ l', f a = .ok b → P a b) :
    List.Forall₂ P l l' := by
  induction l generalizing l' with
  | nil =>
    cases h
    exact .nil
  | cons a l ih =>
    rw [List.mapM_cons, bind_eq_ok] at h
    obtain ⟨b, hb, h⟩ := h
    obtain ⟨bs, hbs, h⟩ := bind_eq_ok.mp h
    cases h
    refine .cons (hP a List.mem_cons_self b List.mem_cons_self hb) (ih hbs ?_)
    exact fun a' ha' b' hb' => hP a' (List.mem_cons_of_mem _ ha') b' (List.mem_cons_of_mem _ hb')

/-- Every element has a result. -/
theorem mem_mapM_of_mem {f : α → Except ε β} {l : List α} {l' : List β} (h : l.mapM f = .ok l')
    {a : α} (ha : a ∈ l) : ∃ b ∈ l', f a = .ok b := by
  induction l generalizing l' with
  | nil => cases ha
  | cons a' l ih =>
    rw [List.mapM_cons, bind_eq_ok] at h
    obtain ⟨b, hb, h⟩ := h
    obtain ⟨bs, hbs, h⟩ := bind_eq_ok.mp h
    cases h
    rcases List.mem_cons.mp ha with rfl | ha
    · exact ⟨b, List.mem_cons_self, hb⟩
    · obtain ⟨b', hb', hf⟩ := ih hbs ha
      exact ⟨b', List.mem_cons_of_mem _ hb', hf⟩

/-- When every element succeeds, so does `mapM`, element by element. -/
theorem mapM_ok {f : α → Except ε β} {P : α → β → Prop} {l : List α}
    (h : ∀ a ∈ l, ∃ b, f a = .ok b ∧ P a b) :
    ∃ l', l.mapM f = .ok l' ∧ List.Forall₂ P l l' := by
  induction l with
  | nil => exact ⟨[], rfl, .nil⟩
  | cons a l ih =>
    obtain ⟨b, hb, hP⟩ := h a List.mem_cons_self
    obtain ⟨l', hl', hall⟩ := ih fun a' ha' => h a' (List.mem_cons_of_mem _ ha')
    refine ⟨b :: l', ?_, .cons hP hall⟩
    rw [List.mapM_cons]
    exact bind_eq_ok.mpr ⟨b, hb, bind_eq_ok.mpr ⟨l', hl', rfl⟩⟩

/-- `mapM` succeeds exactly when every element does. -/
theorem mapM_ok_iff {f : α → Except ε β} {l : List α} :
    (∃ l', l.mapM f = .ok l') ↔ ∀ a ∈ l, ∃ b, f a = .ok b := by
  constructor
  · rintro ⟨l', h⟩
    induction l generalizing l' with
    | nil => exact nofun
    | cons a l ih =>
      rw [List.mapM_cons, bind_eq_ok] at h
      obtain ⟨b, hb, h⟩ := h
      obtain ⟨bs, hbs, _⟩ := bind_eq_ok.mp h
      exact List.forall_mem_cons.mpr ⟨⟨b, hb⟩, ih bs hbs⟩
  · intro h
    obtain ⟨l', hl', _⟩ := mapM_ok (P := fun _ _ => True) fun a ha =>
      (h a ha).imp fun _ hb => ⟨hb, trivial⟩
    exact ⟨l', hl'⟩

theorem mapM_of_forall₂ {f : α → Except ε β} {l : List α} {l' : List β}
    (h : List.Forall₂ (fun a b => f a = .ok b) l l') : l.mapM f = .ok l' := by
  induction h with
  | nil => rfl
  | cons hhead _ ih =>
    rw [List.mapM_cons, hhead, ih]
    rfl

/-- What `mapM` returns has a property exactly when the results of the elements have it. -/
theorem forall_mapM_iff {f : α → Except ε β} {P : β → Prop} {Q : α → Prop} {l : List α}
    {l' : List β} (h : l.mapM f = .ok l') (hiff : ∀ a b, f a = .ok b → (P b ↔ Q a)) :
    (∀ b ∈ l', P b) ↔ ∀ a ∈ l, Q a := by
  induction l generalizing l' with
  | nil =>
    cases h
    simp
  | cons a l ih =>
    rw [List.mapM_cons, bind_eq_ok] at h
    obtain ⟨b, hb, h⟩ := h
    obtain ⟨bs, hbs, h⟩ := bind_eq_ok.mp h
    cases h
    rw [List.forall_mem_cons, List.forall_mem_cons, hiff a b hb, ih hbs]

/-- What holds of the result of a computation that succeeds. -/
theorem forall_ok_iff {x : Except ε α} {a : α} {P : α → Prop} (h : x = .ok a) :
    (∀ a', x = .ok a' → P a') ↔ P a := by
  subst h
  constructor
  · exact fun hall => hall a rfl
  · rintro hP _ ⟨⟩
    exact hP

/-! ## Results with a property -/

/-- The computation succeeds, with a result that has the property. -/
def Succeeds (x : Except ε α) (P : α → Prop) : Prop := ∃ a, x = .ok a ∧ P a

theorem succeeds_ok {a : α} {P : α → Prop} : Succeeds (.ok a : Except ε α) P ↔ P a := by
  constructor
  · rintro ⟨_, ⟨⟩, hP⟩
    exact hP
  · exact fun hP => ⟨a, rfl, hP⟩

theorem not_succeeds_error {e : ε} {P : α → Prop} : ¬Succeeds (.error e : Except ε α) P := by
  rintro ⟨_, ⟨⟩, _⟩

theorem succeeds_bind {x : Except ε α} {f : α → Except ε β} {P : β → Prop} :
    Succeeds (x >>= f) P ↔ Succeeds x fun a => Succeeds (f a) P := by
  constructor
  · rintro ⟨b, hb, hP⟩
    obtain ⟨a, ha, hf⟩ := bind_eq_ok.mp hb
    exact ⟨a, ha, b, hf, hP⟩
  · rintro ⟨a, ha, b, hf, hP⟩
    exact ⟨b, bind_eq_ok.mpr ⟨a, ha, hf⟩, hP⟩

theorem succeeds_congr {x : Except ε α} {P Q : α → Prop} (h : ∀ a, x = .ok a → (P a ↔ Q a)) :
    Succeeds x P ↔ Succeeds x Q :=
  exists_congr fun a => and_congr_right fun ha => h a ha

theorem succeeds_and_const {x : Except ε α} {P : α → Prop} {q : Prop} :
    Succeeds x (fun a => P a ∧ q) ↔ Succeeds x P ∧ q := by
  constructor
  · intro h
    obtain ⟨a, ha, hP, hq⟩ := h
    exact ⟨⟨a, ha, hP⟩, hq⟩
  · intro h
    obtain ⟨⟨a, ha, hP⟩, hq⟩ := h
    exact ⟨a, ha, hP, hq⟩

/-- `mapM` succeeds with good results exactly when every element does. -/
theorem succeeds_mapM {f : α → Except ε β} {P : β → Prop} {l : List α} :
    Succeeds (l.mapM f) (fun l' => ∀ b ∈ l', P b) ↔ ∀ a ∈ l, Succeeds (f a) P := by
  constructor
  · rintro ⟨l', hl', hall⟩
    induction l generalizing l' with
    | nil => exact nofun
    | cons a l ih =>
      rw [List.mapM_cons, bind_eq_ok] at hl'
      obtain ⟨b, hb, hl'⟩ := hl'
      obtain ⟨bs, hbs, hl'⟩ := bind_eq_ok.mp hl'
      cases hl'
      obtain ⟨hP, hrest⟩ := List.forall_mem_cons.mp hall
      exact List.forall_mem_cons.mpr ⟨⟨b, hb, hP⟩, ih bs hbs hrest⟩
  · intro h
    obtain ⟨l', hl'⟩ := mapM_ok_iff.mpr fun a ha => (h a ha).imp fun _ hb => hb.1
    refine ⟨l', hl', fun b hb => ?_⟩
    obtain ⟨a, ha, hfa⟩ := mem_of_mapM hl' hb
    obtain ⟨b', hb', hP⟩ := h a ha
    rw [hfa] at hb'
    cases hb'
    exact hP

/-- A loop succeeds with a good result exactly when its start is good and every element is, if each
pass keeps that. -/
theorem succeeds_foldlM {f : β → α → Except ε β} {P : β → Prop} {Q : α → Prop} {l : List α}
    (hstep : ∀ b, ∀ a ∈ l, Succeeds (f b a) P ↔ P b ∧ Q a) (b : β) :
    Succeeds (l.foldlM f b) P ↔ P b ∧ ∀ a ∈ l, Q a := by
  induction l generalizing b with
  | nil =>
    rw [List.foldlM_nil]
    exact succeeds_ok.trans (by simp)
  | cons a l ih =>
    have hrest : ∀ c, Succeeds (l.foldlM f c) P ↔ P c ∧ ∀ a ∈ l, Q a :=
      ih fun c a' ha' => hstep c a' (List.mem_cons_of_mem a ha')
    rw [List.foldlM_cons, succeeds_bind]
    simp only [hrest]
    rw [succeeds_and_const, hstep b a List.mem_cons_self, List.forall_mem_cons, and_assoc]

/-- `forM` succeeds exactly when every element does. -/
theorem forM_eq_ok {f : α → Except ε Unit} {l : List α} :
    l.forM f = .ok () ↔ ∀ a ∈ l, f a = .ok () := by
  induction l with
  | nil => exact ⟨fun _ => nofun, fun _ => rfl⟩
  | cons a l ih =>
    show (f a >>= fun _ => l.forM f) = .ok () ↔ _
    rw [bind_eq_ok, List.forall_mem_cons, ← ih]
    constructor
    · intro h
      obtain ⟨⟨⟩, ha, hl⟩ := h
      exact ⟨ha, hl⟩
    · intro h
      exact ⟨(), h⟩

/-- The error of `forM` is that of some element. -/
theorem exists_of_forM_error {f : α → Except ε Unit} {l : List α} {e : ε}
    (h : l.forM f = .error e) : ∃ a ∈ l, f a = .error e := by
  induction l with
  | nil => cases h
  | cons a l ih =>
    change (f a >>= fun _ => l.forM f) = .error e at h
    cases hfa : f a with
    | error e' =>
      rw [hfa] at h
      cases h
      exact ⟨a, List.mem_cons_self, hfa⟩
    | ok u =>
      rw [hfa] at h
      obtain ⟨b, hb, hfb⟩ := ih h
      exact ⟨b, List.mem_cons_of_mem a hb, hfb⟩

theorem bind_eq_error {x : Except ε α} {f : α → Except ε β} {e : ε} :
    (x >>= f) = .error e ↔ x = .error e ∨ ∃ a, x = .ok a ∧ f a = .error e := by
  cases x with
  | error e' =>
    constructor
    · intro h
      cases h
      exact .inl rfl
    · intro h
      rcases h with h | ⟨a, ha, _⟩
      · cases h
        rfl
      · cases ha
  | ok a =>
    constructor
    · exact fun h => .inr ⟨a, rfl, h⟩
    · intro h
      rcases h with h | ⟨a', ha, h⟩
      · cases h
      · cases ha
        exact h

/-- The error of `mapM` is that of some element. -/
theorem exists_of_mapM_error {f : α → Except ε β} {l : List α} {e : ε}
    (h : l.mapM f = .error e) : ∃ a ∈ l, f a = .error e := by
  induction l with
  | nil => cases h
  | cons a l ih =>
    rw [List.mapM_cons] at h
    rcases bind_eq_error.mp h with hfa | ⟨b, _, h⟩
    · exact ⟨a, List.mem_cons_self, hfa⟩
    · rcases bind_eq_error.mp h with hrest | ⟨bs, _, h⟩
      · obtain ⟨a', ha', hfa⟩ := ih hrest
        exact ⟨a', List.mem_cons_of_mem a ha', hfa⟩
      · cases h

/-- `mapM` fails when one of the calls fails. -/
theorem mapM_fails_iff {f : α → Except ε β} {l : List α} :
    (∃ e, l.mapM f = .error e) ↔ ∃ a ∈ l, ∃ e, f a = .error e := by
  constructor
  · intro h
    obtain ⟨e, he⟩ := h
    obtain ⟨a, ha, hfa⟩ := exists_of_mapM_error he
    exact ⟨a, ha, e, hfa⟩
  · intro h
    obtain ⟨a, ha, e, hfa⟩ := h
    cases hl : l.mapM f with
    | error e' => exact ⟨e', rfl⟩
    | ok l' =>
      obtain ⟨b, hb⟩ := mapM_ok_iff.mp ⟨l', hl⟩ a ha
      rw [hfa] at hb
      cases hb

theorem map_fails_iff {g : α → β} {x : Except ε α} :
    (∃ e, x.map g = .error e) ↔ ∃ e, x = .error e := by
  cases x with
  | ok a => exact iff_of_false nofun nofun
  | error e => exact iff_of_true ⟨e, rfl⟩ ⟨e, rfl⟩

/-- The error of a loop is that of its body, for some element. -/
theorem exists_of_foldlM_error {f : β → α → Except ε β} {l : List α} {b : β} {e : ε}
    (h : l.foldlM f b = .error e) : ∃ b', ∃ a ∈ l, f b' a = .error e := by
  induction l generalizing b with
  | nil => cases h
  | cons a l ih =>
    rw [List.foldlM_cons] at h
    rcases bind_eq_error.mp h with hfa | ⟨c, _, hrest⟩
    · exact ⟨b, a, List.mem_cons_self, hfa⟩
    · obtain ⟨b', a', ha', hfa⟩ := ih hrest
      exact ⟨b', a', List.mem_cons_of_mem a ha', hfa⟩

/-! ## Without an error -/

theorem mapM_eq_some {f : α → Option β} {l : List α} {l' : List β} :
    l.mapM f = some l' ↔ l.map f = l'.map some := by
  induction l generalizing l' with
  | nil =>
    cases l' with
    | nil => simp
    | cons b l' => simp
  | cons a l ih =>
    rw [List.mapM_cons, List.map_cons]
    cases l' with
    | nil => simp [Option.bind_eq_some_iff]
    | cons b l' => simp [Option.bind_eq_some_iff, ih]

/-- `mapM` has a result exactly when every element has one. -/
theorem exists_mapM_eq_some {f : α → Option β} {l : List α} :
    (∃ l', l.mapM f = some l') ↔ ∀ a ∈ l, ∃ b, f a = some b := by
  simp only [mapM_eq_some]
  constructor
  · rintro ⟨l', h⟩ a ha
    have hmem : f a ∈ l'.map some := h ▸ List.mem_map_of_mem ha
    obtain ⟨b, _, hb⟩ := List.mem_map.mp hmem
    exact ⟨b, hb.symm⟩
  · intro h
    induction l with
    | nil => exact ⟨[], rfl⟩
    | cons a l ih =>
      obtain ⟨b, hb⟩ := h a List.mem_cons_self
      obtain ⟨l', hl'⟩ := ih fun x hx => h x (List.mem_cons_of_mem a hx)
      exact ⟨b :: l', by rw [List.map_cons, List.map_cons, hb, hl']⟩

/-- The results of `mapM` are those of the elements. -/
theorem mem_iff_of_mapM_eq_some {f : α → Option β} {l : List α} {l' : List β}
    (h : l.mapM f = some l') {b : β} : b ∈ l' ↔ ∃ a ∈ l, f a = some b := by
  rw [mapM_eq_some] at h
  rw [← List.mem_map, h]
  simp

end WebZapret.Failing
