import WebZapret.Relay.Registry

/-!
# What the registry keeps

Sessions are linked and counted by the reader, unlinked by the evictor and the reaper, and closed
by their workers, each under the list's mutex. `Sound` says what all of them keep: the count is
that of the linked sessions, no session is linked twice, a flow has at most one open linked
session, and a session that is no longer linked is closed. One lemma per operation.
-/

namespace WebZapret.Relay

namespace Registry

/-- `calloc` and the fields of a new session, which is not linked yet. -/
def alloc (r : Registry) (now : Int) (flow : Flow) : Registry :=
  { r with
    store := Function.update r.store r.next ⟨flow, now, false, []⟩
    next := r.next + 1 }

/-- The critical section of `session_create`. -/
def link (r : Registry) (i : Nat) : Registry :=
  let r := if r.count ≥ SESSION_MAX then sessionEvictOne r else r
  { r with sessions := i :: r.sessions, count := r.count + 1 }

/-- `fresh` is the session that has been created and not linked yet. -/
structure Sound (r : Registry) (fresh : Option Nat) : Prop where
  allocated : r.Allocated
  nodup : r.sessions.Nodup
  count_eq : r.count = r.sessions.length
  count_le : r.count ≤ SESSION_MAX
  one_open : ∀ i ∈ r.sessions, ∀ j ∈ r.sessions, (r.store i).closed = false →
    (r.store j).closed = false → (r.store i).flow = (r.store j).flow → i = j
  unlinked_closed : ∀ i < r.next, i ∉ r.sessions → fresh ≠ some i → (r.store i).closed = true

/-- No linked session serves the flow. -/
def Absent (r : Registry) (flow : Flow) : Prop :=
  ∀ i ∈ r.sessions, (r.store i).closed = false → (r.store i).flow ≠ flow

theorem sound_empty : empty.Sound none where
  allocated _ h := by cases h
  nodup := List.nodup_nil
  count_eq := rfl
  count_le := by decide
  one_open _ h := by cases h
  unlinked_closed _ h := absurd h (Nat.not_lt_zero _)

variable {r : Registry} {fresh : Option Nat} {flow : Flow} {i : Nat}

/-! ## Closing a session, and noting a packet -/

/-- The flow of a session never changes, and a closed session is never opened again. -/
def Ages (f : Session → Session) : Prop :=
  ∀ s, (f s).flow = s.flow ∧ ((f s).closed = false → s.closed = false)

theorem ages_close : Ages fun s => { s with closed := true } := fun _ => ⟨rfl, nofun⟩

theorem ages_touch (now : Int) : Ages fun s => { s with last := now } := fun _ => ⟨rfl, id⟩

theorem modify_ages {f : Session → Session} (hf : Ages f) (i j : Nat) :
    ((r.modify i f).store j).flow = (r.store j).flow ∧
      (((r.modify i f).store j).closed = false → (r.store j).closed = false) := by
  by_cases hij : j = i
  · rw [hij, modify_store_self]
    exact hf (r.store i)
  · rw [modify_store_ne r hij]
    exact ⟨rfl, id⟩

theorem sound_modify {f : Session → Session} (hf : Ages f) (h : r.Sound fresh) (i : Nat) :
    (r.modify i f).Sound fresh where
  allocated := h.allocated
  nodup := h.nodup
  count_eq := h.count_eq
  count_le := h.count_le
  one_open j hj k hk hjo hko hflow := by
    rw [(modify_ages hf i j).1, (modify_ages hf i k).1] at hflow
    exact h.one_open j hj k hk ((modify_ages hf i j).2 hjo) ((modify_ages hf i k).2 hko) hflow
  unlinked_closed j hj hmem hfresh := by
    have hclosed := h.unlinked_closed j hj hmem hfresh
    by_contra hopen
    rw [(modify_ages hf i j).2 (by simpa using hopen)] at hclosed
    cases hclosed

theorem absent_modify {f : Session → Session} (hf : Ages f) (h : r.Absent flow) (i : Nat) :
    (r.modify i f).Absent flow := by
  intro j hj hopen
  rw [(modify_ages hf i j).1]
  exact h j hj ((modify_ages hf i j).2 hopen)

theorem sound_find (h : r.Sound fresh) (now : Int) (flow : Flow) :
    (sessionFind r now flow).2.Sound fresh := by
  unfold sessionFind
  split
  · exact sound_modify (ages_touch now) h _
  · exact h

theorem absent_of_find {r' : Registry} {now : Int} (h : sessionFind r now flow = (none, r')) :
    r' = r ∧ r.Absent flow := by
  unfold sessionFind at h
  split at h
  · cases h
  · rename_i hnone
    cases h
    refine ⟨rfl, fun i hi hopen hflow => ?_⟩
    have hserves := List.find?_eq_none.mp hnone i hi
    simp [Session.serves, hopen, hflow] at hserves

/-! ## Taking a session out of the list -/

theorem sound_unlink (h : r.Sound fresh) (hi : i ∈ r.sessions) : (r.unlink i).Sound fresh := by
  have hclosed : (r.modify i fun s => { s with closed := true }).Sound fresh :=
    sound_modify ages_close h i
  refine ⟨allocated_unlink h.allocated i, h.nodup.erase i, ?_, ?_, ?_, ?_⟩
  · have hlength : (r.sessions.erase i).length + 1 = r.sessions.length := by
      rw [List.length_erase_of_mem hi]
      exact Nat.sub_add_cancel (List.length_pos_of_mem hi)
    show r.count - 1 = ((r.sessions.erase i).length : Int)
    rw [h.count_eq, ← hlength]
    omega
  · show r.count - 1 ≤ SESSION_MAX
    have hle := h.count_le
    omega
  · intro j hj k hk
    exact hclosed.one_open j (List.mem_of_mem_erase hj) k (List.mem_of_mem_erase hk)
  · intro j hj hmem hfresh
    by_cases hij : j = i
    · rw [hij]
      show ((r.modify i fun s => { s with closed := true }).store i).closed = true
      rw [modify_store_self]
    · refine hclosed.unlinked_closed j hj (fun hj' => hmem ?_) hfresh
      exact (List.mem_erase_of_ne hij).mpr hj'

theorem absent_unlink (h : r.Absent flow) (i : Nat) : (r.unlink i).Absent flow :=
  fun j hj => absent_modify ages_close h i j (List.mem_of_mem_erase hj)

/-- The evicted session has been idle the longest. -/
theorem oldest_le (r : Registry) (first : Nat) (l : List Nat) :
    ∀ j ∈ first :: l, (r.store (oldest r first l)).last ≤ (r.store j).last := by
  induction l generalizing first with
  | nil =>
    intro j hj
    rw [List.mem_singleton.mp hj]
    exact Int.le_refl _
  | cons s l ih =>
    intro j hj
    rw [oldest]
    by_cases hle : (r.store s).last ≤ (r.store first).last
    · rw [if_pos hle]
      have hs := ih s s List.mem_cons_self
      rcases List.mem_cons.mp hj with rfl | hj
      · omega
      · exact ih s j hj
    · rw [if_neg hle]
      have hfirst := ih first first List.mem_cons_self
      rcases List.mem_cons.mp hj with rfl | hj
      · exact hfirst
      · rcases List.mem_cons.mp hj with rfl | hj
        · omega
        · exact ih first j (List.mem_cons_of_mem first hj)

theorem oldest_mem_sessions {first : Nat} {rest : List Nat} (h : r.sessions = first :: rest) :
    oldest r first r.sessions ∈ r.sessions := by
  have hmem := oldest_mem r first r.sessions
  rcases List.mem_cons.mp hmem with heq | hmem
  · rw [heq, h]
    exact List.mem_cons_self
  · exact hmem

theorem sound_evict (h : r.Sound fresh) : (sessionEvictOne r).Sound fresh := by
  unfold sessionEvictOne
  split
  · exact h
  · rename_i first rest hlist
    rw [← hlist]
    exact sound_unlink h (oldest_mem_sessions hlist)

theorem absent_evict (h : r.Absent flow) : (sessionEvictOne r).Absent flow := by
  unfold sessionEvictOne
  split
  · exact h
  · exact absent_unlink h _

/-- An eviction from a list with sessions in it makes room for one. -/
theorem evict_count {first : Nat} {rest : List Nat} (h : r.sessions = first :: rest) :
    (sessionEvictOne r).count = r.count - 1 := by
  unfold sessionEvictOne
  rw [h]
  rfl

/-- What a link takes out of the list has been idle the longest. -/
theorem evicted_least {i j : Nat} (hi : i ∈ r.sessions) (hgone : i ∉ (r.link j).sessions) :
    ∀ k ∈ r.sessions, (r.store i).last ≤ (r.store k).last := by
  unfold link at hgone
  dsimp only at hgone
  have hrest := fun hi => hgone (List.mem_cons_of_mem j hi)
  split at hrest
  · unfold sessionEvictOne at hrest
    split at hrest
    · exact absurd hi hrest
    · rename_i first rest hlist
      have hvictim : i = oldest r first (first :: rest) := by
        by_contra hne
        exact hrest ((List.mem_erase_of_ne hne).mpr hi)
      intro k hk
      rw [hlist] at hk
      rw [hvictim]
      exact oldest_le r first (first :: rest) k (List.mem_cons_of_mem first hk)
  · exact absurd hi hrest

theorem evict_sublist (r : Registry) : (sessionEvictOne r).sessions ⊆ r.sessions := by
  unfold sessionEvictOne
  split
  · exact fun _ hj => hj
  · exact fun _ hj => List.mem_of_mem_erase hj

theorem sound_reap (h : r.Sound fresh) (now : Int) : (reap r now).Sound fresh := by
  unfold reap
  -- the sessions that the pass has not reached are still linked
  suffices hloop : ∀ (ids : List Nat) (r : Registry), r.Sound fresh → ids.Nodup →
      (∀ i ∈ ids, i ∈ r.sessions) → (ids.foldl (reapOne now) r).Sound fresh from
    hloop r.sessions r h h.nodup fun _ hi => hi
  intro ids
  induction ids with
  | nil =>
    intro r h _ _
    exact h
  | cons i ids ih =>
    intro r h hnodup hids
    obtain ⟨hi, hnodup⟩ := List.nodup_cons.mp hnodup
    rw [List.foldl_cons, reapOne]
    split
    · apply ih _ (sound_unlink h (hids i List.mem_cons_self)) hnodup
      intro j hj
      have hne : j ≠ i := fun heq => hi (heq ▸ hj)
      exact (List.mem_erase_of_ne hne).mpr (hids j (List.mem_cons_of_mem i hj))
    · exact ih r h hnodup fun j hj => hids j (List.mem_cons_of_mem i hj)

theorem absent_reap (h : r.Absent flow) (now : Int) : (reap r now).Absent flow := by
  unfold reap
  generalize r.sessions = ids
  induction ids generalizing r with
  | nil => exact h
  | cons i ids ih =>
    rw [List.foldl_cons, reapOne]
    split
    · exact ih (absent_unlink h i)
    · exact ih h

/-- The reaper adds no session to the list. -/
theorem reap_sublist (r : Registry) (now : Int) : (reap r now).sessions ⊆ r.sessions := by
  unfold reap
  suffices hloop : ∀ (ids : List Nat) (r : Registry),
      (ids.foldl (reapOne now) r).sessions ⊆ r.sessions from hloop r.sessions r
  intro ids
  induction ids with
  | nil => exact fun r _ hj => hj
  | cons i ids ih =>
    intro r j hj
    rw [List.foldl_cons, reapOne] at hj
    split at hj
    · exact List.mem_of_mem_erase (ih _ hj)
    · exact ih r hj

theorem reap_next (r : Registry) (now : Int) : (reap r now).next = r.next := by
  unfold reap
  generalize r.sessions = ids
  induction ids generalizing r with
  | nil => rfl
  | cons i ids ih =>
    rw [List.foldl_cons, ih, reapOne]
    split <;> rfl

/-! ## Creating and linking a session -/

theorem sound_alloc (h : r.Sound none) (now : Int) (flow : Flow) :
    (r.alloc now flow).Sound (some r.next) := by
  have hold : ∀ j ∈ r.sessions, (r.alloc now flow).store j = r.store j := fun j hj =>
    Function.update_of_ne (Nat.ne_of_lt (h.allocated j hj)) ..
  refine ⟨fun j hj => Nat.lt_succ_of_lt (h.allocated j hj), h.nodup, h.count_eq, h.count_le,
    ?_, ?_⟩
  · intro j hj k hk
    rw [hold j hj, hold k hk]
    exact h.one_open j hj k hk
  · intro j hj hmem hfresh
    have hne : j ≠ r.next := fun heq => hfresh (congrArg some heq.symm)
    have hlt : j < r.next := Nat.lt_of_le_of_ne (Nat.le_of_lt_succ hj) hne
    have hstore : (r.alloc now flow).store j = r.store j := Function.update_of_ne hne ..
    rw [hstore]
    exact h.unlinked_closed j hlt hmem nofun

theorem absent_alloc (halloc : r.Allocated) (h : r.Absent flow) (now : Int) (flow' : Flow) :
    (r.alloc now flow').Absent flow := by
  intro j hj
  have hstore : (r.alloc now flow').store j = r.store j :=
    Function.update_of_ne (Nat.ne_of_lt (halloc j hj)) ..
  rw [hstore]
  exact h j hj

/-- Putting the fresh session in front of a list that has room. -/
theorem sound_push (h : r.Sound (some i)) (hroom : r.count < SESSION_MAX) (hi : i < r.next)
    (hmem : i ∉ r.sessions) (habsent : r.Absent (r.store i).flow) :
    Sound { r with sessions := i :: r.sessions, count := r.count + 1 } none := by
  refine ⟨?_, List.nodup_cons.mpr ⟨hmem, h.nodup⟩, ?_, hroom, ?_, ?_⟩
  · intro j hj
    rcases List.mem_cons.mp hj with rfl | hj
    · exact hi
    · exact h.allocated j hj
  · show r.count + 1 = ((i :: r.sessions).length : Int)
    rw [h.count_eq, List.length_cons]
    omega
  · intro j hj k hk hjo hko hflow
    rcases List.mem_cons.mp hj with rfl | hj'
    · rcases List.mem_cons.mp hk with rfl | hk'
      · rfl
      · exact absurd hflow.symm (habsent k hk' hko)
    · rcases List.mem_cons.mp hk with rfl | hk'
      · exact absurd hflow (habsent j hj' hjo)
      · exact h.one_open j hj' k hk' hjo hko hflow
  · intro j hj hmem' _
    have hne : j ≠ i := fun heq => hmem' (heq ▸ List.mem_cons_self)
    refine h.unlinked_closed j hj (fun hj' => hmem' (List.mem_cons_of_mem i hj')) fun heq => ?_
    exact hne (Option.some.inj heq).symm

theorem sound_link (h : r.Sound (some i)) (hi : i < r.next) (hmem : i ∉ r.sessions)
    (habsent : r.Absent (r.store i).flow) : (r.link i).Sound none := by
  unfold link
  by_cases hfull : r.count ≥ SESSION_MAX
  · simp only [if_pos hfull]
    -- a full list is not empty
    obtain ⟨first, rest, hlist⟩ : ∃ first rest, r.sessions = first :: rest := by
      apply List.exists_cons_of_ne_nil
      intro hnil
      have hcount := h.count_eq
      rw [hnil] at hcount
      rw [hcount] at hfull
      exact absurd hfull (by decide)
    have hcount := evict_count hlist
    have hle := h.count_le
    refine sound_push (sound_evict h) (by omega) ?_ (fun hj => hmem (evict_sublist r hj)) ?_
    · rw [evict_next]
      exact hi
    · rw [evict_store hmem]
      exact absent_evict habsent
  · simp only [if_neg hfull]
    exact sound_push h (by omega) hi hmem habsent

end Registry

end WebZapret.Relay
