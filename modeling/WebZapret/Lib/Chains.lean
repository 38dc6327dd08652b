import WebZapret.Lib.Netfilter
import WebZapret.Lib.Commands

/-!
# A packet in the chains, and a chain of no concern to it

`walk` is what happens to a packet in a chain: rule after rule, into the chains that are jumped to. The
packet is given by the conditions that it satisfies.

A chain is *aside* if it is entered from one chain only and jumps nowhere. `without` is the table as if
the chain were not there. To a command on another chain it makes no difference (`mirrored_append` and the
others), a command on the chain makes none to it (`invisible_append` and the others), and a packet that
passes through the chain goes through both tables alike (`walk_without`).
-/

namespace WebZapret

/-- How a chain ends for a packet. -/
inductive Outcome (V : Type*)
  | decided (v : V)
  /-- the packet goes on where the chain was entered -/
  | returned
  | tooDeep
  deriving DecidableEq

/-- What the rules after a jump do with a packet that returns. -/
def Outcome.andThen {V : Type*} : Outcome V → Outcome V → Outcome V
  | .returned, o => o
  | o, _ => o

theorem Outcome.andThen_ne_tooDeep {V : Type*} {o o' : Outcome V} :
    o.andThen o' ≠ .tooDeep ↔ o ≠ .tooDeep ∧ (o = .returned → o' ≠ .tooDeep) := by
  cases o <;> simp [Outcome.andThen]

namespace Table

variable {C M V : Type}

/-! ## A packet -/

section Walk

variable (sat : M → Bool) (returns : V → Bool)

/-- Rule after rule, where `enter` is what happens in a chain that is jumped to. -/
def through (enter : C → Outcome V) : List (Rule C M V) → Outcome V
  | [] => .returned
  | r :: rs =>
    if r.conds.all sat then
      match r.target with
      | .verdict v => if returns v then .returned else .decided v
      | .jump c => (enter c).andThen (through enter rs)
    else through enter rs

/-- What happens to the packet in a chain, to a depth of jumps. -/
def walk (t : Table C M V) : Nat → C → Outcome V
  | 0, _ => .tooDeep
  | depth + 1, c => through sat returns (walk t depth) ((t c).getD [])

variable {sat returns}

theorem through_cons_jump {enter : C → Outcome V} {r : Rule C M V} {c : C}
    (rs : List (Rule C M V)) (hr : r.target = .jump c) (hsat : r.conds.all sat = true) :
    through sat returns enter (r :: rs) = (enter c).andThen (through sat returns enter rs) := by
  simp [through, hsat, hr]

theorem through_cons_of_not {enter : C → Outcome V} {r : Rule C M V} (rs : List (Rule C M V))
    (hsat : r.conds.all sat = false) :
    through sat returns enter (r :: rs) = through sat returns enter rs := by
  simp [through, hsat]

theorem through_cons_verdict {enter : C → Outcome V} {r : Rule C M V} {v : V}
    (rs : List (Rule C M V)) (hr : r.target = .verdict v) (hsat : r.conds.all sat = true) :
    through sat returns enter (r :: rs) = if returns v then .returned else .decided v := by
  simp [through, hsat, hr]

/-- A packet passes through rules that jump nowhere and, if it matches them, return. -/
theorem through_eq_returned {enter : C → Outcome V} {rs : List (Rule C M V)}
    (h : ∀ r ∈ rs, ∃ v, r.target = .verdict v ∧ (r.conds.all sat = true → returns v = true)) :
    through sat returns enter rs = .returned := by
  induction rs with
  | nil => rfl
  | cons r rs ih =>
    obtain ⟨v, hr, hv⟩ := h r List.mem_cons_self
    cases hsat : r.conds.all sat with
    | false =>
      rw [through_cons_of_not rs hsat]
      exact ih fun r' hr' => h r' (List.mem_cons_of_mem _ hr')
    | true => rw [through_cons_verdict rs hr hsat, if_pos (hv hsat)]

/-- Rules with one verdict. -/
theorem through_uniform {enter : C → Outcome V} {rs : List (Rule C M V)} {v : V}
    (hv : returns v = false) (h : ∀ r ∈ rs, r.target = .verdict v) :
    through sat returns enter rs =
      if rs.any fun r => r.conds.all sat then .decided v else .returned := by
  induction rs with
  | nil => rfl
  | cons r rs ih =>
    have ih := ih fun r' hr' => h r' (List.mem_cons_of_mem _ hr')
    cases hsat : r.conds.all sat with
    | false => rw [through_cons_of_not rs hsat, ih, List.any_cons, hsat, Bool.false_or]
    | true => simp [through_cons_verdict rs (h r List.mem_cons_self) hsat, hv, hsat]

theorem through_ne_tooDeep {enter : C → Outcome V} {rs : List (Rule C M V)}
    (h : ∀ r ∈ rs, ∀ c, r.target = .jump c → enter c ≠ .tooDeep) :
    through sat returns enter rs ≠ .tooDeep := by
  induction rs with
  | nil => simp [through]
  | cons r rs ih =>
    have ih := ih fun r' hr' => h r' (List.mem_cons_of_mem _ hr')
    cases hsat : r.conds.all sat with
    | false =>
      rw [through_cons_of_not rs hsat]
      exact ih
    | true =>
      cases hr : r.target with
      | verdict v =>
        rw [through_cons_verdict rs hr hsat]
        split <;> simp
      | jump c =>
        rw [through_cons_jump rs hr hsat]
        exact Outcome.andThen_ne_tooDeep.mpr ⟨h r List.mem_cons_self c hr, fun _ => ih⟩

/-- If every jump goes down, a packet never goes too deep. -/
theorem walk_ne_tooDeep {t : Table C M V} (rank : C → Nat)
    (h : ∀ c, ∀ rs ∈ t c, ∀ r ∈ rs, ∀ d, r.target = .jump d → rank d < rank c) {depth : Nat}
    {c : C} (hc : rank c < depth) : walk sat returns t depth c ≠ .tooDeep := by
  induction depth generalizing c with
  | zero => omega
  | succ depth ih =>
    refine through_ne_tooDeep fun r hr d hd => ih ?_
    cases htc : t c with
    | none => simp [htc] at hr
    | some rs =>
      have := h c rs htc r (by simpa [htc] using hr) d hd
      omega

theorem through_decided {enter : C → Outcome V} {rs : List (Rule C M V)} {v : V}
    (h : through sat returns enter rs = .decided v) :
    (∃ r ∈ rs, r.target = .verdict v ∧ r.conds.all sat = true) ∨
      ∃ c, enter c = .decided v := by
  induction rs with
  | nil => cases h
  | cons r rs ih =>
    have hlater (h : through sat returns enter rs = .decided v) :
        (∃ r' ∈ r :: rs, r'.target = .verdict v ∧ r'.conds.all sat = true) ∨
          ∃ c, enter c = .decided v := by
      refine (ih h).imp_left ?_
      rintro ⟨r', hr', hv⟩
      exact ⟨r', List.mem_cons_of_mem _ hr', hv⟩
    cases hsat : r.conds.all sat with
    | false =>
      rw [through_cons_of_not rs hsat] at h
      exact hlater h
    | true =>
      cases hr : r.target with
      | verdict w =>
        rw [through_cons_verdict rs hr hsat] at h
        split at h
        · cases h
        · cases h
          exact .inl ⟨r, List.mem_cons_self, hr, hsat⟩
      | jump c =>
        rw [through_cons_jump rs hr hsat] at h
        cases henter : enter c with
        | decided w =>
          rw [henter] at h
          cases h
          exact .inr ⟨c, henter⟩
        | returned =>
          rw [henter] at h
          exact hlater h
        | tooDeep =>
          rw [henter] at h
          cases h

/-- What is decided is decided by a rule that the packet matches. -/
theorem rule_of_decided {t : Table C M V} {depth : Nat} {c : C} {v : V}
    (h : walk sat returns t depth c = .decided v) :
    ∃ d, ∃ rs ∈ t d, ∃ r ∈ rs, r.target = .verdict v ∧ r.conds.all sat = true := by
  induction depth generalizing c with
  | zero => cases h
  | succ depth ih =>
    rcases through_decided h with ⟨r, hr, hv⟩ | ⟨d, hd⟩
    · cases htc : t c with
      | none => simp [htc] at hr
      | some rs => exact ⟨c, rs, htc, r, by simpa [htc] using hr, hv⟩
    · exact ih hd

end Walk

/-! ## A chain aside -/

section Aside

variable [DecidableEq C] [DecidableEq V]

/-- The table as if the chain were not there. -/
def without (c : C) (t : Table C M V) : Table C M V := fun d =>
  if d = c then none else (t d).map (List.filter fun r => r.target ≠ .jump c)

theorem without_same (c : C) (t : Table C M V) : t.without c c = none := if_pos rfl

theorem without_ne {c d : C} (h : d ≠ c) (t : Table C M V) :
    t.without c d = (t d).map (List.filter fun r => r.target ≠ .jump c) := if_neg h

variable {c d : C} {t : Table C M V}

/-- Rules without the jumps to a chain that the packet passes through. -/
theorem through_filter {sat : M → Bool} {returns : V → Bool} {enter enter' : C → Outcome V}
    {rs : List (Rule C M V)} (hc : enter c = .tooDeep ∨ enter c = .returned)
    (henter : ∀ e, e ≠ c → enter e ≠ .tooDeep → enter' e = enter e)
    (h : through sat returns enter rs ≠ .tooDeep) :
    through sat returns enter' (rs.filter fun r => r.target ≠ .jump c) =
      through sat returns enter rs := by
  induction rs with
  | nil => rfl
  | cons r rs ih =>
    cases hsat : r.conds.all sat with
    | false =>
      rw [through_cons_of_not rs hsat] at h ⊢
      rw [← ih h, List.filter_cons]
      split
      · rw [through_cons_of_not _ hsat]
      · rfl
    | true =>
      cases hr : r.target with
      | verdict v =>
        rw [List.filter_cons_of_pos (by simp [hr]), through_cons_verdict _ hr hsat,
          through_cons_verdict _ hr hsat]
      | jump e =>
        rw [through_cons_jump rs hr hsat] at h ⊢
        obtain ⟨hdeep, hrest⟩ := Outcome.andThen_ne_tooDeep.mp h
        by_cases he : e = c
        · -- the jump is not among the rules that are left, and returns in the others
          subst he
          have hret := hc.resolve_left hdeep
          rw [List.filter_cons_of_neg (by simp [hr]), ih (hrest hret), hret]
          rfl
        · rw [List.filter_cons_of_pos (by simp [hr, he]), through_cons_jump _ hr hsat,
            henter e he hdeep]
          cases hret : enter e with
          | returned => exact ih (hrest hret)
          | decided v => rfl
          | tooDeep => rfl

/-- The packet passes through the chain. -/
theorem walk_without {sat : M → Bool} {returns : V → Bool}
    (hpass : ∀ rs ∈ t c, ∀ r ∈ rs,
      ∃ v, r.target = .verdict v ∧ (r.conds.all sat = true → returns v = true))
    {depth : Nat} (hd : d ≠ c) (h : walk sat returns t depth d ≠ .tooDeep) :
    walk sat returns (t.without c) depth d = walk sat returns t depth d := by
  induction depth generalizing d with
  | zero => exact absurd rfl h
  | succ depth ih =>
    have henter : walk sat returns t depth c = .tooDeep ∨ walk sat returns t depth c = .returned := by
      cases depth with
      | zero => exact .inl rfl
      | succ depth =>
        refine .inr (through_eq_returned fun r hr => ?_)
        cases htc : t c with
        | none => simp [htc] at hr
        | some rs => exact hpass rs htc r (by simpa [htc] using hr)
    have hrules : (t.without c d).getD [] =
        ((t d).getD []).filter fun r => r.target ≠ .jump c := by
      rw [without_ne hd]
      cases t d <;> rfl
    show through sat returns _ ((t.without c d).getD []) = _
    rw [hrules]
    exact through_filter henter (fun e he hdeep => ih he hdeep) h

theorem without_set_ne (h : d ≠ c) (rs : List (Rule C M V)) :
    (t.set d rs).without c = (t.without c).set d (rs.filter fun r => r.target ≠ .jump c) := by
  funext e
  by_cases he : e = d
  · subst he
    rw [without_ne h, set_same, set_same, Option.map_some]
  · by_cases hec : e = c
    · subst hec
      rw [without_same, set_ne he, without_same]
    · rw [without_ne hec, set_ne he, set_ne he, without_ne hec]

theorem without_set_same (rs : List (Rule C M V)) : (t.set c rs).without c = t.without c := by
  funext e
  by_cases he : e = c
  · subst he
    rw [without_same, without_same]
  · rw [without_ne he, without_ne he, set_ne he]

theorem resolves_without {r : Rule C M V} (hr : r.target ≠ .jump c) :
    (t.without c).Resolves r = t.Resolves r := by
  unfold Resolves
  split
  · rename_i e he
    have hec : e ≠ c := by
      rintro rfl
      exact hr he
    rw [without_ne hec, Option.isSome_map]
  · rfl

end Aside

/-! ## What every rule of a table obeys -/

section Obeys

/-- Every rule of a chain is one that the chain may have. -/
def Obeys (Q : C → Rule C M V → Prop) (t : Table C M V) : Prop :=
  ∀ d, ∀ rs ∈ t d, ∀ r ∈ rs, Q d r

variable [DecidableEq C] {Q : C → Rule C M V → Prop} {d : C} {r : Rule C M V} {t t' : Table C M V}

theorem Obeys.set (h : Obeys Q t) {rs : List (Rule C M V)} (hrs : ∀ r ∈ rs, Q d r) :
    Obeys Q (t.set d rs) := by
  intro e rs' hrs' r hr
  by_cases he : e = d
  · subst he
    rw [set_same] at hrs'
    cases hrs'
    exact hrs r hr
  · rw [set_ne he] at hrs'
    exact h e rs' hrs' r hr

theorem Obeys.newChain (h : Obeys Q t) (ht' : t' ∈ t.newChain d) : Obeys Q t' := by
  unfold Table.newChain at ht'
  split at ht'
  · cases ht'
    exact h.set (by simp)
  · cases ht'

theorem Obeys.flush (h : Obeys Q t) (ht' : t' ∈ t.flush d) : Obeys Q t' := by
  unfold Table.flush at ht'
  split at ht'
  · cases ht'
  · cases ht'
    exact h.set (by simp)

theorem Obeys.append (h : Obeys Q t) (hr : Q d r) (ht' : t' ∈ t.append d r) : Obeys Q t' := by
  unfold Table.append at ht'
  split at ht'
  · cases ht'
  · rename_i rs hrs
    split at ht'
    · cases ht'
      refine h.set fun r' hr' => ?_
      rcases List.mem_append.mp hr' with hmem | hmem
      · exact h d rs hrs r' hmem
      · rwa [List.mem_singleton.mp hmem]
    · cases ht'

theorem Obeys.insert (h : Obeys Q t) (hr : Q d r) {n : Nat} (ht' : t' ∈ t.insert d n r) :
    Obeys Q t' := by
  unfold Table.insert at ht'
  split at ht'
  · cases ht'
  · rename_i rs hrs
    split at ht'
    · cases ht'
      refine h.set fun r' hr' => ?_
      rcases List.mem_append.mp hr' with hmem | hmem
      · exact h d rs hrs r' (List.mem_of_mem_take hmem)
      · rcases List.mem_cons.mp hmem with rfl | hmem
        · exact hr
        · exact h d rs hrs r' (List.mem_of_mem_drop hmem)
    · cases ht'

variable [DecidableEq M] [DecidableEq V]

theorem Obeys.check (h : Obeys Q t) (ht' : t' ∈ t.check d r) : Obeys Q t' := by
  unfold Table.check at ht'
  split at ht'
  · cases ht'
  · split at ht'
    · cases ht'
      exact h
    · cases ht'

theorem Obeys.delete (h : Obeys Q t) (ht' : t' ∈ t.delete d r) : Obeys Q t' := by
  unfold Table.delete at ht'
  split at ht'
  · cases ht'
  · rename_i rs hrs
    split at ht'
    · cases ht'
      exact h.set fun r' hr' => h d rs hrs r' (List.mem_of_mem_erase hr')
    · cases ht'

theorem Obeys.deleteChain [Fintype C] (h : Obeys Q t) (ht' : t' ∈ t.deleteChain d) :
    Obeys Q t' := by
  unfold Table.deleteChain at ht'
  split at ht'
  · cases ht'
    intro e rs hrs r hr
    by_cases he : e = d
    · subst he
      simp at hrs
    · rw [Function.update_of_ne he] at hrs
      exact h e rs hrs r hr
  · cases ht'

end Obeys

/-! ## Commands and a chain aside -/

section Commands

open WebZapret.Commands

/-- A rule may jump to `c` from `home` only, and nowhere from `c`. -/
structure Aside (c home : C) (Q : C → Rule C M V → Prop) : Prop where
  entered : ∀ d r, Q d r → r.target = .jump c → d = home
  ends : ∀ r, Q c r → ∃ v, r.target = .verdict v

variable [DecidableEq C] [DecidableEq V] {c home d : C} {Q : C → Rule C M V → Prop}
  {r : Rule C M V}

theorem mirrored_newChain (hd : d ≠ c) :
    Mirrored (Obeys Q) (without c) (newChain d) (newChain d) := by
  intro t ht
  refine ⟨?_, fun t' => ht.newChain⟩
  unfold newChain
  rw [without_ne hd]
  cases t d with
  | none => simp [without_set_ne hd]
  | some rs => rfl

theorem mirrored_flush (hd : d ≠ c) :
    Mirrored (Obeys Q) (without c) (flush d) (flush d) := by
  intro t ht
  refine ⟨?_, fun t' => ht.flush⟩
  unfold flush
  rw [without_ne hd]
  cases t d with
  | none => rfl
  | some rs => simp [without_set_ne hd]

theorem mirrored_append (hd : d ≠ c) (hr : Q d r) (hrc : r.target ≠ .jump c) :
    Mirrored (Obeys Q) (without c) (append d r) (append d r) := by
  intro t ht
  refine ⟨?_, fun t' => ht.append hr⟩
  unfold append
  rw [without_ne hd, resolves_without hrc]
  cases t d with
  | none => rfl
  | some rs => cases t.Resolves r <;> simp [without_set_ne hd, hrc]

/-- Where the chain is jumped to from, a rule goes first; elsewhere it may go anywhere. -/
theorem mirrored_insert (haside : Aside c home Q) (hd : d ≠ c) (hr : Q d r)
    (hrc : r.target ≠ .jump c) {n : Nat} (hn : d = home → n = 1) :
    Mirrored (Obeys Q) (without c) (insert d n r) (insert d n r) := by
  intro t ht
  refine ⟨?_, fun t' => ht.insert hr⟩
  unfold insert
  rw [without_ne hd, resolves_without hrc]
  cases htd : t d with
  | none => rfl
  | some rs =>
    rw [Option.map_some]
    by_cases hhome : d = home
    · rw [hn hhome]
      cases t.Resolves r <;> simp [without_set_ne hd, hrc]
    · have hkeep : rs.filter (fun r => r.target ≠ .jump c) = rs := by
        refine List.filter_eq_self.mpr fun r' hr' => decide_eq_true fun hj => ?_
        exact hhome (haside.entered d r' (ht d rs htd r' hr') hj)
      simp only [hkeep]
      split
      · have hnew : (rs.take (n - 1) ++ r :: rs.drop (n - 1)).filter
            (fun r => r.target ≠ .jump c) = rs.take (n - 1) ++ r :: rs.drop (n - 1) := by
          refine List.filter_eq_self.mpr fun r' hr' => decide_eq_true fun hj => ?_
          rcases List.mem_append.mp hr' with hmem | hmem
          · exact hhome (haside.entered d r' (ht d rs htd r' (List.mem_of_mem_take hmem)) hj)
          · rcases List.mem_cons.mp hmem with rfl | hmem
            · exact hrc hj
            · exact hhome (haside.entered d r' (ht d rs htd r' (List.mem_of_mem_drop hmem)) hj)
        rw [Option.map_some, without_set_ne hd, hnew]
      · rfl

variable [DecidableEq M]

theorem mirrored_check (hd : d ≠ c) (hrc : r.target ≠ .jump c) :
    Mirrored (Obeys Q) (without c) (check d r) (check d r) := by
  intro t ht
  refine ⟨?_, fun t' => ht.check⟩
  unfold check
  rw [without_ne hd]
  cases t d with
  | none => rfl
  | some rs => by_cases hr : r ∈ rs <;> simp [hr, hrc]

theorem mirrored_delete (hd : d ≠ c) (hrc : r.target ≠ .jump c) :
    Mirrored (Obeys Q) (without c) (delete d r) (delete d r) := by
  intro t ht
  refine ⟨?_, fun t' => ht.delete⟩
  unfold delete
  rw [without_ne hd]
  cases t d with
  | none => rfl
  | some rs => by_cases hr : r ∈ rs <;> simp [hr, hrc, without_set_ne hd, List.erase_filter]

omit [DecidableEq M] in
theorem unreferenced_without (haside : Aside c home Q) {t : Table C M V} (ht : Obeys Q t)
    (hd : d ≠ c) : (t.without c).Unreferenced d ↔ t.Unreferenced d := by
  constructor
  · intro h e rs hrs r hr hj
    by_cases he : e = c
    · subst he
      obtain ⟨v, hv⟩ := haside.ends r (ht e rs hrs r hr)
      rw [hv] at hj
      cases hj
    · refine h e (rs.filter fun r => r.target ≠ .jump c) ?_ r ?_ hj
      · rw [without_ne he, Option.mem_def.mp hrs, Option.map_some]
        rfl
      · simp [hr, hj, hd]
  · intro h e rs hrs r hr hj
    by_cases he : e = c
    · subst he
      rw [without_same] at hrs
      cases hrs
    · rw [without_ne he] at hrs
      obtain ⟨rs', hrs', rfl⟩ := Option.map_eq_some_iff.mp hrs
      exact h e rs' hrs' r (List.mem_of_mem_filter hr) hj

theorem mirrored_deleteChain [Fintype C] (haside : Aside c home Q) (hd : d ≠ c) (hhome : d ≠ home) :
    Mirrored (Obeys Q) (without c) (deleteChain d) (deleteChain d) := by
  intro t ht
  refine ⟨?_, fun t' => ht.deleteChain⟩
  have hempty : t.without c d = some [] ↔ t d = some [] := by
    rw [without_ne hd]
    cases htd : t d with
    | none => simp
    | some rs =>
      have hkeep : rs.filter (fun r => r.target ≠ .jump c) = rs := by
        refine List.filter_eq_self.mpr fun r' hr' => decide_eq_true fun hj => ?_
        exact hhome (haside.entered d r' (ht d rs htd r' hr') hj)
      rw [Option.map_some, hkeep]
  unfold deleteChain
  simp only [hempty, unreferenced_without haside ht hd]
  split
  · rw [Option.map_some]
    congr 1
    funext e
    by_cases he : e = d
    · subst he
      simp [without_ne hd]
    · by_cases hec : e = c
      · subst hec
        rw [without_same, Function.update_of_ne he, without_same]
      · rw [without_ne hec, Function.update_of_ne he, Function.update_of_ne he, without_ne hec]
  · rfl

/-! ### The commands of the chain itself -/

omit [DecidableEq M] in
theorem invisible_newChain : Invisible (Obeys Q) (without c) (newChain c) := by
  intro t ht t' ht'
  refine ⟨?_, ht.newChain ht'⟩
  unfold newChain at ht'
  split at ht'
  · cases ht'
    exact without_set_same []
  · cases ht'

omit [DecidableEq M] in
theorem invisible_flush : Invisible (Obeys Q) (without c) (flush c) := by
  intro t ht t' ht'
  refine ⟨?_, ht.flush ht'⟩
  unfold flush at ht'
  split at ht'
  · cases ht'
  · cases ht'
    exact without_set_same []

omit [DecidableEq M] in
theorem invisible_append (hr : Q c r) : Invisible (Obeys Q) (without c) (append c r) := by
  intro t ht t' ht'
  refine ⟨?_, ht.append hr ht'⟩
  unfold append at ht'
  split at ht'
  · cases ht'
  · split at ht'
    · cases ht'
      exact without_set_same _
    · cases ht'

omit [DecidableEq M] in
theorem invisible_insert (hd : d ≠ c) (hr : Q d r) (hrc : r.target = .jump c) (n : Nat) :
    Invisible (Obeys Q) (without c) (insert d n r) := by
  intro t ht t' ht'
  refine ⟨?_, ht.insert hr ht'⟩
  unfold insert at ht'
  split at ht'
  · cases ht'
  · rename_i rs hrs
    split at ht'
    · cases ht'
      have hfilter : (rs.take (n - 1) ++ r :: rs.drop (n - 1)).filter
          (fun r => r.target ≠ .jump c) = rs.filter fun r => r.target ≠ .jump c := by
        rw [List.filter_append, List.filter_cons_of_neg (by simp [hrc]), ← List.filter_append,
          List.take_append_drop]
      rw [without_set_ne hd, hfilter, set_eq_self]
      rw [without_ne hd, hrs, Option.map_some]
    · cases ht'

theorem invisible_delete (hd : d ≠ c) (hrc : r.target = .jump c) :
    Invisible (Obeys Q) (without c) (delete d r) := by
  intro t ht t' ht'
  refine ⟨?_, ht.delete ht'⟩
  unfold delete at ht'
  split at ht'
  · cases ht'
  · rename_i rs hrs
    split at ht'
    · cases ht'
      have hgone : r ∉ rs.filter fun r => r.target ≠ .jump c := by simp [hrc]
      rw [without_set_ne hd, ← List.erase_filter, List.erase_of_not_mem hgone, set_eq_self]
      rw [without_ne hd, hrs, Option.map_some]
    · cases ht'

theorem invisible_deleteChain [Fintype C] : Invisible (Obeys Q) (without c) (deleteChain c) := by
  intro t ht t' ht'
  refine ⟨?_, ht.deleteChain ht'⟩
  unfold deleteChain at ht'
  split at ht'
  · cases ht'
    funext e
    by_cases he : e = c
    · subst he
      rw [without_same, without_same]
    · rw [without_ne he, without_ne he, Function.update_of_ne he]
  · cases ht'

omit [DecidableEq M] in
/-- Where the chain is not there, its commands fail. -/
theorem flush_without (c : C) (t : Table C M V) : flush c (t.without c) = none := by
  rw [flush, without_same]

theorem deleteChain_without [Fintype C] (c : C) (t : Table C M V) :
    deleteChain c (t.without c) = none := by
  simp [deleteChain, without_same]

theorem delete_without (hd : d ≠ c) (hrc : r.target = .jump c) (t : Table C M V) :
    delete d r (t.without c) = none := by
  unfold delete
  rw [without_ne hd]
  cases t d with
  | none => rfl
  | some rs => simp [hrc]

end Commands

end Table

end WebZapret
