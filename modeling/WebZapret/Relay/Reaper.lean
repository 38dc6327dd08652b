import WebZapret.Relay.Memory

/-!
# A pass of the reaper

`reaper` unlinks the sessions that have been idle for too long, counts them off and closes them. A
session that its own worker has closed is neither: `reaper` takes it for one that somebody else has
unlinked, but the worker does not touch the list.

`reap_sessions`, `reap_store` and `reap_count` say what a pass leaves of a registry; the main result
is `reap_clean_iff`, about every state that the threads can reach.
-/

namespace WebZapret.Relay

/-- The condition of `reaper`'s inner loop. -/
def Session.expired (now : Int) (s : Session) : Bool :=
  !s.closed && now - s.last > IDLE_TIMEOUT

/-! ## On a registry -/

/-- Going over the rest of the list: the expired sessions are taken out and counted off, and the
others are as they were. -/
theorem foldl_reapOne (now : Int) {kept rest : List Nat} {r : Registry}
    (hlist : r.sessions = kept ++ rest) (hnodup : (kept ++ rest).Nodup) :
    (rest.foldl (reapOne now) r).sessions =
        kept ++ rest.filter (fun i => !(r.store i).expired now) ∧
      (∀ i, (i ∈ rest → (r.store i).expired now = false) →
        (rest.foldl (reapOne now) r).store i = r.store i) ∧
      (rest.foldl (reapOne now) r).count =
        r.count - (rest.filter fun i => (r.store i).expired now).length := by
  induction rest generalizing kept r with
  | nil => exact ⟨hlist, fun _ _ => rfl, (Int.sub_zero _).symm⟩
  | cons s rest ih =>
    have hrest : s ∉ rest := (List.nodup_cons.mp (List.nodup_append.mp hnodup).2.1).1
    have hkept : s ∉ kept := fun hs =>
      (List.nodup_append.mp hnodup).2.2 s hs s List.mem_cons_self rfl
    have hother {j : Nat} (hj : j ≠ s) : (r.unlink s).store j = r.store j :=
      r.modify_store_ne hj fun s => { s with closed := true }
    have hsame {j : Nat} (hj : j ∈ rest) : (r.unlink s).store j = r.store j := by
      apply hother
      rintro rfl
      exact hrest hj
    rw [List.foldl_cons]
    by_cases hexpired : (r.store s).expired now = true
    · have hone : reapOne now r s = r.unlink s := if_pos hexpired
      have hunlink : (r.unlink s).sessions = kept ++ rest := by
        show r.sessions.erase s = kept ++ rest
        rw [hlist, List.erase_append_right _ hkept, List.erase_cons_head]
      have hsub := (List.sublist_cons_self s rest).append_left kept
      obtain ⟨hsessions, hstore, hcount⟩ := ih hunlink (hnodup.sublist hsub)
      rw [hone]
      refine ⟨?_, fun i hi => ?_, ?_⟩
      · rw [hsessions, List.filter_cons_of_neg (by simpa using hexpired)]
        exact congrArg (kept ++ ·) (List.filter_congr fun j hj => by rw [hsame hj])
      · have hne : i ≠ s := by
          rintro rfl
          rw [hi List.mem_cons_self] at hexpired
          cases hexpired
        have hstay := hstore i
        rw [hother hne] at hstay
        exact hstay fun hmem => hi (List.mem_cons_of_mem s hmem)
      · have hfilter : (rest.filter fun i => ((r.unlink s).store i).expired now) =
            rest.filter fun i => (r.store i).expired now :=
          List.filter_congr fun j hj => by rw [hsame hj]
        have hless : (r.unlink s).count = r.count - 1 := rfl
        have hcons : ((s :: rest).filter fun i => (r.store i).expired now) =
            s :: rest.filter fun i => (r.store i).expired now := List.filter_cons_of_pos hexpired
        rw [hcount, hfilter, hless, hcons, List.length_cons]
        omega
    · have hone : reapOne now r s = r := if_neg hexpired
      have happend : kept ++ s :: rest = kept ++ [s] ++ rest := by
        rw [List.append_assoc, List.singleton_append]
      rw [happend] at hlist hnodup
      obtain ⟨hsessions, hstore, hcount⟩ := ih hlist hnodup
      rw [hone]
      refine ⟨?_, fun i hi => hstore i fun hmem => hi (List.mem_cons_of_mem s hmem), ?_⟩
      · rw [hsessions, List.filter_cons_of_pos (by simpa using hexpired), List.append_assoc,
          List.singleton_append]
      · have hcons : ((s :: rest).filter fun i => (r.store i).expired now) =
            rest.filter fun i => (r.store i).expired now := List.filter_cons_of_neg hexpired
        rw [hcount, hcons]

variable {r : Registry}

/-- **What stays linked, in its order.** -/
theorem reap_sessions (now : Int) (hnodup : r.sessions.Nodup) :
    (reap r now).sessions = r.sessions.filter fun i => !(r.store i).expired now :=
  (foldl_reapOne now (List.nil_append r.sessions).symm hnodup).1

theorem reap_store (now : Int) (hnodup : r.sessions.Nodup) {i : Nat}
    (hi : i ∈ (reap r now).sessions) : (reap r now).store i = r.store i := by
  rw [reap_sessions now hnodup] at hi
  have hexpired : (r.store i).expired now = false := by
    simpa using (List.mem_filter.mp hi).2
  exact (foldl_reapOne now (List.nil_append r.sessions).symm hnodup).2.1 i fun _ => hexpired

theorem reap_count (now : Int) (hnodup : r.sessions.Nodup) :
    (reap r now).count = r.count - (r.sessions.filter fun i => (r.store i).expired now).length :=
  (foldl_reapOne now (List.nil_append r.sessions).symm hnodup).2.2

/-! ## In the threads -/

namespace Threads

variable {s t : Threads} {now : Int}

/-- Open, and active within the timeout. -/
def Active (now : Int) (x : Session) : Prop := x.closed = false ∧ now - x.last ≤ IDLE_TIMEOUT

instance (now : Int) (x : Session) : Decidable (Active now x) :=
  inferInstanceAs (Decidable (_ ∧ _))

/-- What a pass is for: the active sessions stay linked in their order, as they were, and the others
are unlinked and counted off. -/
structure Reaped (now : Int) (s t : Threads) : Prop where
  active : ∀ i ∈ t.memory.linked, Active now (t.memory.store i)
  linked : t.memory.linked = s.memory.linked.filter fun i => Active now (s.memory.store i)
  kept : ∀ i ∈ t.memory.linked, t.memory.store i = s.memory.store i
  counted : t.memory.count =
    s.memory.count - (s.memory.linked.filter fun i => ¬Active now (s.memory.store i)).length

/-- The memory after a pass, in terms of the one before it. -/
theorem linked_reap {r : Registry} (h : s.Inv r) (hstep : s.step (.reap now) = some t) :
    t.memory.linked = s.memory.linked.filter (fun i => !(s.memory.store i).expired now) ∧
      (∀ i ∈ t.memory.linked, t.memory.store i = s.memory.store i) ∧
      t.memory.count = s.memory.count -
        (s.memory.linked.filter fun i => (s.memory.store i).expired now).length := by
  obtain ⟨hrep, hsound, _⟩ := h
  cases hstep
  have hreap := hrep.reap hsound now
  have hlinked : (s.memory.reap now).linked = (reap r now).sessions :=
    hreap.linked_eq (Registry.sound_reap hsound now)
  show (s.memory.reap now).linked = _ ∧ (∀ i ∈ (s.memory.reap now).linked,
    (s.memory.reap now).store i = _) ∧ (s.memory.reap now).count = _
  rw [hlinked, hreap.store, hreap.count, hrep.linked_eq hsound, hrep.store, hrep.count]
  exact ⟨reap_sessions now hsound.nodup, fun i hi => reap_store now hsound.nodup hi,
    reap_count now hsound.nodup⟩

/-- Of an open session, expired is the opposite of active. -/
theorem expired_eq {x : Session} (h : x.closed = false) :
    x.expired now = decide ¬Active now x := by
  have hactive : ¬Active now x ↔ now - x.last > IDLE_TIMEOUT := by
    rw [Active, and_iff_right h, not_le]
  rw [Session.expired, h, Bool.not_false, Bool.true_and]
  exact decide_eq_decide.mpr hactive.symm

theorem reaped_of_open {acts : List Act} (hrun : machine.run start acts = some s)
    (hstep : s.step (.reap now) = some t)
    (hopen : ∀ i ∈ s.memory.linked, (s.memory.store i).closed = false) : Reaped now s t := by
  obtain ⟨r, hinv⟩ := (always_inv acts).last hrun
  obtain ⟨hlinked, hkept, hcount⟩ := linked_reap hinv hstep
  have hlinked' : t.memory.linked =
      s.memory.linked.filter fun i => Active now (s.memory.store i) := by
    rw [hlinked]
    refine List.filter_congr fun i hi => ?_
    rw [expired_eq (hopen i hi), decide_not, Bool.not_not]
  refine ⟨fun i hi => ?_, hlinked', hkept, ?_⟩
  · rw [hkept i hi]
    rw [hlinked'] at hi
    exact of_decide_eq_true (List.mem_filter.mp hi).2
  · rw [hcount]
    exact congrArg (fun l : List Nat => s.memory.count - l.length)
      (List.filter_congr fun i hi => expired_eq (hopen i hi))

/-- A closed session that is linked stays linked. -/
theorem open_of_reaped {acts : List Act} (hrun : machine.run start acts = some s)
    (hstep : s.step (.reap now) = some t) (h : Reaped now s t) :
    ∀ i ∈ s.memory.linked, (s.memory.store i).closed = false := by
  intro i hi
  obtain ⟨r, hinv⟩ := (always_inv acts).last hrun
  obtain ⟨hlinked, hkept, _⟩ := linked_reap hinv hstep
  by_contra hclosed
  have hexpired : (s.memory.store i).expired now = false := by
    rw [Session.expired, Bool.not_eq_false _ |>.mp hclosed]
    rfl
  have hmem : i ∈ t.memory.linked := by
    rw [hlinked, List.mem_filter, hexpired]
    exact ⟨hi, rfl⟩
  have hactive := h.active i hmem
  rw [hkept i hmem] at hactive
  exact hclosed hactive.1

/-- **A pass leaves the active sessions alone linked, if and only if no linked session had been
closed by its worker.** -/
theorem reap_clean_iff {acts : List Act} (hrun : machine.run start acts = some s)
    (hstep : s.step (.reap now) = some t) :
    Reaped now s t ↔ ∀ i ∈ s.memory.linked, (s.memory.store i).closed = false :=
  ⟨open_of_reaped hrun hstep, reaped_of_open hrun hstep⟩

/-- One session is created. -/
def oneSession : List Act := [.get ⟨1, 2, 3, 4⟩ 0, .create 0, .push, .again 0]

/-- The state that a run reaches. -/
def reached (acts : List Act) : Threads := (machine.run start acts).getD start

theorem reap_clean_one :
    Reaped 1000 (reached oneSession) ⟨(reached oneSession).memory.reap 1000, .idle⟩ :=
  (@reap_clean_iff (reached oneSession) ⟨(reached oneSession).memory.reap 1000, .idle⟩ 1000
    oneSession rfl rfl).mpr (by decide)

/-- The worker of the session closes it after a failed `relay_send`: it stays linked and counted. -/
theorem closed_keeps_slot :
    ¬Reaped 1000 (reached (oneSession ++ [.close 0]))
        ⟨(reached (oneSession ++ [.close 0])).memory.reap 1000, .idle⟩ ∧
      (reached (oneSession ++ [.close 0, .reap 1000])).memory.linked = [0] := by
  refine ⟨fun h => ?_, by decide⟩
  have hopen := @open_of_reaped _ _ 1000 (oneSession ++ [.close 0]) rfl rfl h
  exact absurd (hopen 0 (by decide)) (by decide)

end Threads

end WebZapret.Relay
