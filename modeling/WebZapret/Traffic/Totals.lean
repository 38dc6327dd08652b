import WebZapret.Traffic.Meters
import WebZapret.Lib.Machine
import Mathlib.Order.Basic

/-!
# Traffic totals

What `get_traffic_stats` shows should never go backwards. It does when a firewall start empties the
counters, and when traffic is counted again while the files hold a total
(`totals_after_a_switch`). As long as neither happens after a total other than 0 has been shown, the
totals are nondecreasing (`totals_nondecreasing`).
-/

namespace WebZapret.Traffic

open Py Catalog Apply Proc

/-! ## The system -/

/-- The gateway, the `wz-apply.sh` that has the lock, the call of `get_traffic_stats` that runs, and
what the calls have reported, the last one first. -/
structure System where
  metered : Metered
  applying : Option (Proc Site Metered Nat)
  call : Option (Proc Site Metered (Nat × Nat))
  reports : List (Nat × Nat)

inductive Event
  /-- a packet of `n` bytes matches rule `i` of the chain -/
  | packet (c : Chain) (i n : Nat)
  | begin (request : Request)
  /-- a step of `wz-apply.sh`, or its end -/
  | apply (faults : Nat → Bool)
  | ask
  /-- a step of `get_traffic_stats`, or its end -/
  | answer

def System.step (cfg : Setup) (s : System) : Event → Option System
  | .packet c i n => some { s with metered := packet c i n s.metered }
  | .begin request =>
    if s.applying.isNone then some { s with applying := some (Traffic.apply cfg request) } else none
  | .apply faults => s.applying.map fun p =>
    match p.step faults s.metered with
    | none => { s with applying := none }
    | some (rest, metered) => { s with metered, applying := some rest }
  | .ask => if s.call.isNone then some { s with call := some getTrafficStats } else none
  | .answer => s.call.bind fun p =>
    match p with
    | .ret total => some { s with call := none, reports := total :: s.reports }
    | p => (p.step noFaults s.metered).map fun next =>
      { s with metered := next.2, call := some next.1 }

def system (cfg : Setup) : Machine System Event := ⟨System.step cfg⟩

/-- No total goes backwards. -/
def System.Nondecreasing (s : System) : Prop := s.reports.Pairwise fun new old => old ≤ new

/-! ## What is needed -/

/-- Ingress and egress, as the kernel counts them. -/
def Metered.counters (s : Metered) : Nat × Nat := (s.ingress, s.egress)

/-- Ingress and egress, as the files hold them. -/
def Metered.files (s : Metered) : Nat × Nat := (s.fileIn, s.fileOut)

/-- No total other than 0 has been shown. -/
def Quiet (s : System) : Prop := s.call = none ∧ ∀ total ∈ s.reports.head?, total = 0

/-- What is counted at zero counters is shown instead of the files, which hold nothing then. -/
def SameSource (s t : Metered) : Prop := s.counters = 0 → t.counters ≠ 0 → s.files = 0

/-- No counter is lowered, and no file is rewritten that is shown or being read. -/
structure Spares (calling : Prop) (s t : Metered) : Prop where
  counters : s.counters ≤ t.counters
  files : t.files = s.files ∨ ¬calling ∧ s.counters ≠ 0
  source : SameSource s t

/-- Once a total other than 0 has been shown, `wz-apply.sh` spares the counters and the files, and no
traffic is counted at zero counters while the files hold a total. -/
def Careful (cfg : Setup) (s : System) : Event → Prop
  | .packet c i n => Quiet s ∨ SameSource s.metered (packet c i n s.metered)
  | .apply faults => ∀ t, s.step cfg (.apply faults) = some t →
    Quiet s ∨ Spares (s.call ≠ none) s.metered t.metered
  | _ => True

/-! ## What is shown -/

/-- The total of a call that nothing interrupts. -/
def Metered.shown (s : Metered) : Nat × Nat := if s.counters = 0 then s.files else s.counters

theorem zero_le_total (a : Nat × Nat) : 0 ≤ a := ⟨Nat.zero_le a.1, Nat.zero_le a.2⟩

theorem ne_zero_of_le {a b : Nat × Nat} (h : a ≤ b) (ha : a ≠ 0) : b ≠ 0 := by
  rintro rfl
  exact ha (le_antisymm h (zero_le_total a))

theorem shown_mono {calling : Prop} {s t : Metered} (h : Spares calling s t) :
    s.shown ≤ t.shown := by
  unfold Metered.shown
  by_cases hs : s.counters = 0
  · rw [if_pos hs]
    by_cases ht : t.counters = 0
    · rcases h.files with hfiles | ⟨-, hne⟩
      · rw [if_pos ht, hfiles]
      · exact absurd hs hne
    · rw [h.source hs ht]
      exact zero_le_total _
  · rw [if_neg hs, if_neg (ne_zero_of_le h.counters hs)]
    exact h.counters

/-! ## A call among other steps -/

/-- What a call relies on. -/
abbrev Rely : Metered → Metered → Prop := Spares True

theorem Rely.files_eq {s t : Metered} (h : Rely s t) : t.files = s.files :=
  h.files.resolve_right fun hcalling => hcalling.1 trivial

theorem rely_refl (s : Metered) : Rely s s :=
  ⟨le_refl _, .inl rfl, fun hzero hne => absurd hzero hne⟩

theorem rely_trans (s t u : Metered) (hst : Rely s t) (htu : Rely t u) : Rely s u := by
  refine ⟨hst.counters.trans htu.counters, .inl (htu.files_eq.trans hst.files_eq), ?_⟩
  intro hs hu
  by_cases ht : t.counters = 0
  · rw [← hst.files_eq]
    exact htu.source ht hu
  · exact hst.source hs ht

/-- A call reports at least what would have been reported before it, and at most what would be
reported after it. -/
theorem getTrafficStats_safe {s : Metered} {last : Nat × Nat} (hlast : last ≤ s.shown) :
    Safe Rely (fun total t => last ≤ total ∧ total ≤ t.shown) getTrafficStats s := by
  intro t hst u htu
  have hbefore : last ≤ t.shown := hlast.trans (shown_mono hst)
  show Safe _ _ (if u.ingress = 0 ∧ t.egress = 0 then _ else _) u
  have hingress : t.ingress ≤ u.ingress := htu.counters.1
  have hegress : t.egress ≤ u.egress := htu.counters.2
  split
  · rename_i hzero
    -- the counters were 0 at the first read, so the files are shown
    have hnone : t.ingress = 0 := Nat.le_zero.mp (hzero.1 ▸ hingress)
    have ht : t.counters = 0 := Prod.ext hnone hzero.2
    have hshown : t.shown = t.files := if_pos ht
    intro v huv w hvw x hwx
    have hfiles : (v.fileIn, w.fileOut) = t.files := by
      have hv : v.files = t.files := huv.files_eq.trans htu.files_eq
      have hw : w.files = t.files := hvw.files_eq.trans hv
      have hin : v.fileIn = t.fileIn := congrArg Prod.fst hv
      have hout : w.fileOut = t.fileOut := congrArg Prod.snd hw
      rw [hin, hout]
      rfl
    rw [hfiles, ← hshown]
    have htx : Rely t x := rely_trans t u x htu <| rely_trans u v x huv <|
      rely_trans v w x hvw hwx
    exact ⟨hbefore, shown_mono htx⟩
  · rename_i hne
    intro v huv
    by_cases hu : u.counters = 0
    · -- the egress was 0 as well, for it is no larger
      have hzero : u.ingress = 0 ∧ u.egress = 0 :=
        ⟨congrArg Prod.fst hu, congrArg Prod.snd hu⟩
      exact absurd ⟨hzero.1, by omega⟩ hne
    · have hafter : (u.ingress, t.egress) ≤ u.counters := ⟨le_refl _, hegress⟩
      have hshown : u.shown = u.counters := if_neg hu
      refine ⟨hbefore.trans ?_, (hshown ▸ hafter).trans (shown_mono huv)⟩
      unfold Metered.shown
      by_cases ht : t.counters = 0
      · rw [if_pos ht, htu.source ht hu]
        exact zero_le_total _
      · rw [if_neg ht]
        exact ⟨hingress, le_refl _⟩

/-- A call changes nothing. -/
theorem getTrafficStats_reads (seen : Metered) :
    getTrafficStats.Guarantees (fun _ => True) (fun _ s t => t = s) seen := by
  intro s _ t _
  show Guarantees _ _ t (if t.ingress = 0 ∧ s.egress = 0 then _ else _)
  split
  · exact fun u _ v _ => trivial
  · trivial

/-! ## Every run -/

/-- The last total, or 0. -/
def System.last (s : System) : Nat × Nat := s.reports.head?.getD 0

/-- What holds between the steps: the next total will not go backwards, whether its call runs or
not. -/
structure Inv (s : System) : Prop where
  sorted : s.Nondecreasing
  floor : s.last ≤ s.metered.shown
  call : ∀ p, s.call = some p →
    Safe Rely (fun total t => s.last ≤ total ∧ total ≤ t.shown) p s.metered ∧
      ∃ seen, p.Guarantees (fun _ => True) (fun _ s t => t = s) seen

theorem Quiet.last {s : System} (h : Quiet s) : s.last = 0 := by
  unfold System.last
  cases hhead : s.reports.head? with
  | none => rfl
  | some total => exact h.2 total hhead

/-- The last report is the largest. -/
theorem System.Nondecreasing.le_last {s : System} (h : s.Nondecreasing) :
    ∀ old ∈ s.reports, old ≤ s.last := by
  unfold Nondecreasing at h
  unfold last
  cases hreports : s.reports with
  | nil => exact nofun
  | cons total rest =>
    rw [hreports] at h
    intro old hold
    rcases List.mem_cons.mp hold with rfl | hrest
    · exact le_refl _
    · exact (List.pairwise_cons.mp h).1 old hrest

/-- Others go on. -/
theorem inv_metered {s : System} (hs : Inv s) {t : Metered}
    (h : Quiet s ∨ Spares (s.call ≠ none) s.metered t) : Inv { s with metered := t } := by
  refine ⟨hs.sorted, ?_, fun p hp => ?_⟩
  · rcases h with hquiet | hspares
    · exact le_of_eq_of_le hquiet.last (zero_le_total _)
    · exact hs.floor.trans (shown_mono hspares)
  · have hcall : s.call = some p := hp
    obtain ⟨hsafe, hreads⟩ := hs.call p hcall
    rcases h with hquiet | hspares
    · rw [hquiet.1] at hcall
      cases hcall
    · have hrely : Rely s.metered t := by
        refine ⟨hspares.counters, .inl (hspares.files.resolve_right fun hidle => ?_),
          hspares.source⟩
        exact hidle.1 (hcall ▸ Option.some_ne_none p)
      exact ⟨safe_env rely_trans hsafe hrely, hreads⟩

/-! ### Packets -/

theorem tally_le (p : FwRule → Bool) (rules : List FwRule) (bytes : List Nat) (i n : Nat) :
    tally p rules bytes ≤ tally p rules (bytes.modify i (· + n)) := by
  induction rules generalizing bytes i with
  | nil => exact Nat.le_refl _
  | cons r rules ih =>
    cases bytes with
    | nil => rw [List.modify_nil]
    | cons b bytes =>
      cases i with
      | zero =>
        simp only [tally, List.modify_zero_cons, List.zip_cons_cons, List.map_cons, List.sum_cons]
        split <;> omega
      | succ i =>
        have hrest := ih bytes i
        simp only [tally, List.modify_succ_cons, List.zip_cons_cons, List.map_cons,
          List.sum_cons] at hrest ⊢
        omega

theorem packet_counters (c : Chain) (i n : Nat) (s : Metered) :
    s.counters ≤ (packet c i n s).counters := by
  have hbytes (d : Chain) (p : FwRule → Bool) (rules : List FwRule) :
      tally p rules (s.bytes d) ≤ tally p rules ((packet c i n s).bytes d) := by
    unfold packet
    by_cases hd : d = c
    · subst hd
      dsimp only
      rw [Function.update_self]
      exact tally_le p rules (s.bytes d) i n
    · dsimp only
      rw [Function.update_of_ne hd]
  exact ⟨hbytes _ _ _, hbytes _ _ _⟩

/-! ### Steps -/

section Steps

variable (cfg : Setup) {s t : System}

theorem inv_apply {faults : Nat → Bool} (hs : Inv s) (hcareful : Careful cfg s (.apply faults))
    (hstep : s.step cfg (.apply faults) = some t) : Inv t := by
  have hspares := hcareful t hstep
  obtain ⟨p, _, hnext⟩ := Option.map_eq_some_iff.mp hstep
  cases hrest : p.step faults s.metered with
  | none =>
    rw [hrest] at hnext
    subst hnext
    exact ⟨hs.sorted, hs.floor, hs.call⟩
  | some next =>
    rw [hrest] at hnext
    subst hnext
    have hinv := inv_metered hs hspares
    exact ⟨hinv.sorted, hinv.floor, hinv.call⟩

theorem inv_ask (hs : Inv s) (hstep : s.step cfg .ask = some t) : Inv t := by
  cases hcall : s.call with
  | some p => simp [System.step, hcall] at hstep
  | none =>
    simp only [System.step, hcall, Option.isNone_none, if_true, Option.some.injEq] at hstep
    subst hstep
    refine ⟨hs.sorted, hs.floor, fun p hp => ?_⟩
    cases hp
    exact ⟨getTrafficStats_safe hs.floor, s.metered, getTrafficStats_reads s.metered⟩

/-- A call that ends reports its total. -/
theorem inv_report {total : Nat × Nat} (hs : Inv s) (hcall : s.call = some (.ret total)) :
    Inv { s with call := none, reports := total :: s.reports } := by
  obtain ⟨hlast, hshown⟩ := safe_ret rely_refl (hs.call _ hcall).1
  refine ⟨List.pairwise_cons.mpr ⟨fun old hold => ?_, hs.sorted⟩, hshown, nofun⟩
  exact (hs.sorted.le_last old hold).trans hlast

theorem inv_answer (hs : Inv s) (hstep : s.step cfg .answer = some t) : Inv t := by
  obtain ⟨p, hcall, hnext⟩ := Option.bind_eq_some_iff.mp hstep
  obtain ⟨hsafe, seen, hreads⟩ := hs.call p hcall
  have hmove (h : (p.step noFaults s.metered).map (fun next =>
      { s with metered := next.2, call := some next.1 : System }) = some t) : Inv t := by
    obtain ⟨⟨rest, metered⟩, hrest, rfl⟩ := Option.map_eq_some_iff.mp h
    have hrestReads := guarantees_step (G := fun _ s t => t = s) (fun _ _ => rfl) hreads trivial hrest
    have hsame : metered = s.metered := hrestReads.1
    have hrestSafe := safe_step rely_refl hsafe hrest
    subst hsame
    refine ⟨hs.sorted, hs.floor, fun q hq => ?_⟩
    cases hq
    exact ⟨hrestSafe, _, hrestReads.2⟩
  cases p with
  | ret total =>
    cases hnext
    exact inv_report hs hcall
  | read k => exact hmove hnext
  | write f k => exact hmove hnext
  | call site q k => exact hmove hnext

end Steps

/-- **Totals are nondecreasing** in every run whose steps are careful. -/
theorem totals_nondecreasing (cfg : Setup) (start : Metered) (events : List Event)
    (h : (system cfg).Guarded (Careful cfg) ⟨start, none, none, []⟩ events) :
    (system cfg).Always System.Nondecreasing ⟨start, none, none, []⟩ events := by
  have hstart : Inv ⟨start, none, none, []⟩ := ⟨List.Pairwise.nil, zero_le_total _, nofun⟩
  have hinv : (system cfg).Always Inv ⟨start, none, none, []⟩ events := by
    refine (system cfg).always_of_guarded ?_ hstart h
    intro s e t hs hcareful hstep
    cases e with
    | packet c i n =>
      cases hstep
      refine inv_metered hs (hcareful.imp_right fun hsource => ?_)
      exact ⟨packet_counters c i n s.metered, .inl rfl, hsource⟩
    | begin request =>
      cases happlying : s.applying with
      | some p => simp [system, System.step, happlying] at hstep
      | none =>
        simp only [system, System.step, happlying, Option.isNone_none, if_true,
          Option.some.injEq] at hstep
        subst hstep
        exact ⟨hs.sorted, hs.floor, hs.call⟩
    | apply faults => exact inv_apply cfg hs hcareful hstep
    | ask => exact inv_ask cfg hs hstep
    | answer => exact inv_answer cfg hs hstep
  exact hinv.mono fun s hs => hs.sorted

/-- The gateway after its first `wz-fw.sh start`. -/
def started : Metered :=
  (run (fun _ => noFaults) (fwStart defaultSetup) ⟨running, fun _ => [], 0, 0⟩).2

/-- A switch to another strategy before a total is shown, then traffic and two calls. -/
theorem totals_nondecreasing_switched :
    let events := [Event.packet .wzfw 2 100, .packet .nfqin 0 40, .begin (.strategy (lit "b"))] ++
      List.replicate 24 (Event.apply noFaults) ++
      [.packet .wzfw 2 70, .ask, .answer, .packet .nfqin 0 30, .answer, .answer,
        .packet .wzfw 2 60, .ask, .answer, .answer, .answer]
    (system defaultSetup).Guarded (Careful defaultSetup) ⟨started, none, none, []⟩ events ∧
      ((system defaultSetup).run ⟨started, none, none, []⟩ events).map System.reports =
        some [(30, 130), (30, 70)] ∧
      (system defaultSetup).Always System.Nondecreasing ⟨started, none, none, []⟩ events := by
  intro events
  have hguarded : (system defaultSetup).Guarded (Careful defaultSetup) ⟨started, none, none, []⟩
      events := by
    -- nothing has been shown until the switch is over
    refine .cons rfl (.inl ⟨rfl, nofun⟩) <| .cons rfl (.inl ⟨rfl, nofun⟩) <| .cons rfl trivial ?_
    iterate 24 refine .cons rfl (fun t _ => .inl ⟨rfl, nofun⟩) ?_
    refine .cons rfl (.inl ⟨rfl, nofun⟩) <| .cons rfl trivial <| .cons rfl trivial <|
      .cons rfl (.inr ?_) <| .cons rfl trivial <| .cons rfl trivial <| .cons rfl (.inr ?_) <|
      .cons rfl trivial <| .cons rfl trivial <| .cons rfl trivial <| .cons rfl trivial trivial
    · exact fun hzero => absurd hzero (by decide +kernel)
    · exact fun hzero => absurd hzero (by decide +kernel)
  exact ⟨hguarded, by decide +kernel, totals_nondecreasing defaultSetup started events hguarded⟩

/-- The switch of a strategy loses what was counted. -/
theorem totals_after_a_switch :
    ¬∀ cfg start events,
      (system cfg).Always System.Nondecreasing ⟨start, none, none, []⟩ events := by
  intro h
  have halways := h defaultSetup started ([Event.packet .wzfw 2 100, .packet .nfqin 0 40, .ask,
    .answer, .answer, .answer, .begin (.strategy (lit "b"))] ++
    List.replicate 24 (Event.apply noFaults) ++
    [Event.ask, .answer, .answer, .answer, .answer, .answer])
  have hrun : ((system defaultSetup).run ⟨started, none, none, []⟩ ([Event.packet .wzfw 2 100,
    .packet .nfqin 0 40, .ask, .answer, .answer, .answer, .begin (.strategy (lit "b"))] ++
    List.replicate 24 (Event.apply noFaults) ++
    [Event.ask, .answer, .answer, .answer, .answer, .answer])).map System.reports =
      some [(0, 0), (40, 100)] := by
    decide +kernel
  obtain ⟨s, hs, hreports⟩ := Option.map_eq_some_iff.mp hrun
  have hsorted := halways.last hs
  rw [System.Nondecreasing, hreports] at hsorted
  exact absurd hsorted (by decide)

end WebZapret.Traffic
