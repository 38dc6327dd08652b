import WebZapret.Apply.Transaction
import WebZapret.Services.Supervisor
import Mathlib.Algebra.Order.BigOperators.Group.List

/-!
# Commands for one service

The dispatcher of `wz-svc.sh` writes "if there is a service, then its command, else the command for
all" as `a && b || c`, so `c` also runs when `b` fails; and `stop_svc` trusts a pidfile, whoever has
the pid by now.

`frame_stopSvc_iff` and `frame_startOne_iff` say when one command leaves the other services alone, and
`frame_foldl_iff` when a command for all does. The main result is `dispatch_frame_iff`.
-/

namespace WebZapret.Services

open Py Apply

variable {u v w : Service} {b b₁ : Box} {o : Outcomes} {p : Nat}

/-! ## Stopping -/

/-- The pid is that of another service's process. -/
def Foreign (u : Service) (b : Box) (p : Nat) : Prop := ∃ v ≠ u, (p, some v) ∈ b.processes

/-- The pid in a pidfile is not. -/
def Harmless (u v : Service) (b : Box) : Prop := ∀ p ∈ b.pidRead v, ¬Foreign u b p

theorem mem_stopped {processes : List (Nat × Option Service)} {e : Event} :
    e ∈ (processes.filter (·.1 = p)).filterMap (fun q => q.2.map .stopped) ↔
      ∃ v, (p, some v) ∈ processes ∧ e = .stopped v := by
  rw [List.mem_filterMap]
  constructor
  · rintro ⟨⟨q, x⟩, hmem, hx⟩
    obtain ⟨hmem, hq⟩ := List.mem_filter.mp hmem
    obtain ⟨v, rfl, rfl⟩ := Option.map_eq_some_iff.mp hx
    exact ⟨v, of_decide_eq_true hq ▸ hmem, rfl⟩
  · rintro ⟨v, hmem, rfl⟩
    exact ⟨(p, some v), List.mem_filter.mpr ⟨hmem, decide_eq_true rfl⟩, rfl⟩

theorem logged_kill (b : Box) (p : Nat) : Logged b (b.kill p) := by
  refine ⟨_, rfl, fun u hall => ⟨fun _ _ => rfl, fun v hv q => ?_⟩⟩
  refine ⟨fun h => (List.mem_filter.mp h).1, fun h => List.mem_filter.mpr ⟨h, ?_⟩⟩
  refine decide_eq_true fun heq => hv ?_
  exact hall (.stopped v) (mem_stopped.mpr ⟨v, heq ▸ h, rfl⟩)

theorem frame_kill_iff : Frame u b (b.kill p) ↔ ¬Foreign u b p := by
  rw [(logged_kill b p).frame_iff]
  constructor
  · rintro h ⟨v, hv, hmem⟩
    exact hv (h _ rfl (.stopped v) (mem_stopped.mpr ⟨v, hmem, rfl⟩))
  · intro h events hjournal e he
    rw [Box.kill, List.append_cancel_left_eq] at hjournal
    obtain ⟨v, hmem, rfl⟩ := mem_stopped.mp (hjournal ▸ he)
    by_contra hv
    exact h ⟨v, hv, hmem⟩

theorem logged_setPidfile (b : Box) (u : Service) (content : Option (Option Nat)) :
    Logged b (b.setPidfile u content) := by
  refine ⟨[.pidfile u], rfl, fun u' hall => ⟨fun v hv => ?_, fun _ _ _ => .rfl⟩⟩
  refine Function.update_of_ne ?_ ..
  rintro rfl
  exact hv (hall (.pidfile v) List.mem_cons_self)

theorem frame_setPidfile_iff {content : Option (Option Nat)} :
    Frame u b (b.setPidfile v content) ↔ v = u := by
  rw [(logged_setPidfile b v content).frame_iff]
  constructor
  · exact fun h => h [.pidfile v] rfl (.pidfile v) List.mem_cons_self
  · rintro rfl events hjournal e he
    rw [Box.setPidfile, List.append_cancel_left_eq] at hjournal
    rw [← hjournal, List.mem_singleton] at he
    rw [he]
    rfl

theorem halt_eq (b : Box) (u : Service) :
    b.halt u = b ∧ (∀ p ∈ b.pidRead u, ∀ x, (p, x) ∉ b.processes) ∨
      ∃ p, b.pidRead u = some p ∧ b.halt u = b.kill p := by
  unfold Box.halt
  cases hread : b.pidRead u with
  | none => exact .inl ⟨rfl, nofun⟩
  | some p =>
    dsimp only
    by_cases halive : b.alive p = true
    · rw [if_pos halive]
      exact .inr ⟨p, rfl, rfl⟩
    · rw [if_neg halive]
      refine .inl ⟨rfl, ?_⟩
      rintro q ⟨⟩ x hmem
      exact halive (List.any_eq_true.mpr ⟨(p, x), hmem, decide_eq_true rfl⟩)

theorem logged_halt (b : Box) (u : Service) : Logged b (b.halt u) := by
  obtain ⟨heq, _⟩ | ⟨p, _, heq⟩ := halt_eq b u
  · rw [heq]
    exact .refl b
  · rw [heq]
    exact logged_kill b p

theorem frame_halt_iff : Frame u b (b.halt v) ↔ Harmless u v b := by
  obtain ⟨heq, hdead⟩ | ⟨p, hread, heq⟩ := halt_eq b v
  · rw [heq]
    refine iff_of_true (.refl u b) ?_
    rintro p hp ⟨w, _, hmem⟩
    exact hdead p hp (some w) hmem
  · rw [heq, frame_kill_iff, Harmless, hread]
    exact ⟨fun h q hq => Option.mem_some_iff.mp hq ▸ h, fun h => h p rfl⟩

theorem halt_pidfile (b : Box) (u : Service) : (b.halt u).pidfile = b.pidfile := by
  obtain ⟨heq, _⟩ | ⟨p, _, heq⟩ := halt_eq b u
  · rw [heq]
  · rw [heq]
    rfl

theorem halt_gateway (b : Box) (u : Service) : (b.halt u).gateway = b.gateway := by
  obtain ⟨heq, _⟩ | ⟨p, _, heq⟩ := halt_eq b u
  · rw [heq]
  · rw [heq]
    rfl

theorem logged_remove (b : Box) (stuck : Bool) (u : Service) : Logged b (b.remove stuck u).2 := by
  unfold Box.remove
  split_ifs
  · exact .refl b
  · exact .refl b
  · exact logged_setPidfile b u none

theorem frame_remove_iff {stuck : Bool} :
    Frame u b (b.remove stuck v).2 ↔ v = u ∨ b.pidfile v = none ∨ stuck = true := by
  unfold Box.remove
  split_ifs with hnone hstuck
  · exact iff_of_true (.refl u b) (.inr (.inl hnone))
  · exact iff_of_true (.refl u b) (.inr (.inr hstuck))
  · rw [frame_setPidfile_iff, or_iff_left]
    rintro (h | h)
    · exact hnone h
    · exact hstuck h

theorem remove_gateway (b : Box) (stuck : Bool) (u : Service) :
    (b.remove stuck u).2.gateway = b.gateway := by
  unfold Box.remove
  split_ifs <;> rfl

theorem pidRead_setPidfile (b : Box) (u v : Service) (content : Option (Option Nat)) :
    (b.setPidfile v content).pidRead u = if u = v then content.join else b.pidRead u := by
  show (Function.update b.pidfile v content u).join = _
  split_ifs with hu
  · rw [hu, Function.update_self]
  · rw [Function.update_of_ne hu]
    rfl

/-- A removed pidfile holds nothing, and the others hold what they held. -/
theorem pidRead_remove {stuck : Bool} (h : p ∈ (b.remove stuck v).2.pidRead u) :
    p ∈ b.pidRead u := by
  unfold Box.remove at h
  split_ifs at h
  · exact h
  · exact h
  · rw [pidRead_setPidfile] at h
    split_ifs at h
    · cases h
    · exact h

theorem logged_stopSvc (o : Outcomes) (u : Service) (b : Box) : Logged b (stopSvc o u b).2 :=
  (logged_halt b u).trans (logged_remove _ _ _)

/-- **When `stop_svc` leaves the other services alone.** -/
theorem frame_stopSvc_iff :
    Frame u b (stopSvc o v b).2 ↔
      Harmless u v b ∧ (v = u ∨ b.pidfile v = none ∨ o.stuck = true) := by
  unfold stopSvc
  rw [frame_trans_iff (logged_halt b v) (logged_remove _ _ _), frame_halt_iff, frame_remove_iff,
    halt_pidfile]

/-- Its own pidfile is the service's to remove. -/
theorem frame_stopSvc_self : Frame u b (stopSvc o u b).2 ↔ Harmless u u b := by
  rw [frame_stopSvc_iff, and_iff_left (.inl rfl)]

theorem stopSvc_gateway (o : Outcomes) (u : Service) (b : Box) :
    (stopSvc o u b).2.gateway = b.gateway := by
  rw [stopSvc, remove_gateway, halt_gateway]

theorem pidRead_stopSvc (h : p ∈ (stopSvc o v b).2.pidRead u) : p ∈ b.pidRead u := by
  have hread := pidRead_remove h
  rwa [Box.pidRead, halt_pidfile] at hread

/-! ## Launching -/

theorem frame_echo (b : Box) (written : Written) (u : Service) (p : Nat) :
    Frame u b (b.echo written u p) := by
  cases written with
  | pid => exact frame_setPidfile_iff.mpr rfl
  | nothing => exact frame_setPidfile_iff.mpr rfl
  | unchanged => exact .refl u b

/-- What `launchSvc` does: the service is started, and what else it does, it does to its pidfile. -/
structure Launched (u : Service) (b b₁ : Box) : Prop where
  journal : ∃ events, b₁.journal = b.journal ++ .started u :: events ∧ ∀ e ∈ events, e.service = u
  pidfiles : ∀ v ≠ u, b₁.pidfile v = b.pidfile v
  processes : ∀ v ≠ u, ∀ p, (p, some v) ∈ b₁.processes ↔ (p, some v) ∈ b.processes
  gateway : b₁.gateway = b.gateway
  /-- the pidfile holds what it held, or the pid of the new process -/
  pidRead : ∀ p ∈ b₁.pidRead u, p ∈ b.pidRead u ∨ ∀ v, (p, some v) ∈ b₁.processes → v = u

theorem echo_processes (b : Box) (written : Written) (u : Service) (p : Nat) :
    (b.echo written u p).processes = b.processes := by
  cases written <;> rfl

theorem echo_gateway (b : Box) (written : Written) (u : Service) (p : Nat) :
    (b.echo written u p).gateway = b.gateway := by
  cases written <;> rfl

theorem remove_processes (b : Box) (stuck : Bool) (u : Service) :
    (b.remove stuck u).2.processes = b.processes := by
  unfold Box.remove
  split_ifs <;> rfl

theorem pidRead_echo {written : Written} {q : Nat} (h : q ∈ (b.echo written u p).pidRead u) :
    q ∈ b.pidRead u ∨ q = p := by
  cases written with
  | pid =>
    rw [Box.echo, pidRead_setPidfile, if_pos rfl] at h
    exact .inr (Option.mem_some_iff.mp h).symm
  | nothing =>
    rw [Box.echo, pidRead_setPidfile, if_pos rfl] at h
    cases h
  | unchanged => exact .inl h

/-- A process that stays. -/
theorem launched_echo (written : Written) (u : Service) (hfresh : ∀ q ∈ b.processes, q.1 ≠ p) :
    Launched u b ((b.launch u p).echo written u p) := by
  have hecho := frame_echo (b.launch u p) written u p
  obtain ⟨events, hjournal, hall⟩ := hecho.journal
  refine ⟨⟨events, ?_, hall⟩, hecho.pidfiles, fun v hv q => ?_, echo_gateway .., fun q hq => ?_⟩
  · rw [hjournal]
    exact List.append_assoc ..
  · rw [echo_processes]
    refine List.mem_cons.trans (or_iff_right ?_)
    rintro ⟨⟩
    exact hv rfl
  · refine (pidRead_echo hq).imp_right ?_
    rintro rfl v hv
    rw [echo_processes] at hv
    rcases List.mem_cons.mp hv with h | h
    · cases h
      rfl
    · exact absurd rfl (hfresh _ h)

/-- A process that ends at once. -/
theorem launched_exit (written : Written) (left : Bool) (u : Service)
    (hfresh : ∀ q ∈ b.processes, q.1 ≠ p) :
    Launched u b ((((b.launch u p).echo written u p).exit p).remove left u).2 := by
  have hecho := launched_echo written u hfresh
  have hremove : Frame u (((b.launch u p).echo written u p).exit p)
      ((((b.launch u p).echo written u p).exit p).remove left u).2 := frame_remove_iff.mpr (.inl rfl)
  have hprocesses : (((b.launch u p).echo written u p).exit p).processes = b.processes := by
    have hkept : b.processes.filter (·.1 ≠ p) = b.processes :=
      List.filter_eq_self.mpr fun q hq => decide_eq_true (hfresh q hq)
    rw [Box.exit, echo_processes]
    show ((p, some u) :: b.processes).filter (·.1 ≠ p) = b.processes
    rw [List.filter_cons_of_neg (by simp), hkept]
  obtain ⟨events, hjournal, hall⟩ := hecho.journal
  obtain ⟨more, hjournal', hall'⟩ := hremove.journal
  refine ⟨⟨events ++ more, ?_, List.forall_mem_append.mpr ⟨hall, hall'⟩⟩, fun v hv => ?_,
    fun v hv q => ?_, ?_, fun q hq => ?_⟩
  · rw [hjournal', Box.exit, hjournal, List.append_assoc, List.cons_append]
  · exact (hremove.pidfiles v hv).trans (hecho.pidfiles v hv)
  · rw [remove_processes, hprocesses]
  · rw [remove_gateway]
    exact hecho.gateway
  · have hread : q ∈ (((b.launch u p).echo written u p).exit p).pidRead u := pidRead_remove hq
    change q ∈ ((b.launch u p).echo written u p).pidRead u at hread
    rcases pidRead_echo hread with hq | rfl
    · exact .inl hq
    · refine .inr fun v hv => ?_
      rw [remove_processes, hprocesses] at hv
      exact absurd rfl (hfresh _ hv)

theorem launched_launchSvc (o : Outcomes) (u : Service) (b : Box) :
    Launched u b (launchSvc o u b).2 := by
  have hfresh := o.fork.fresh b.processes
  unfold launchSvc
  dsimp only
  split
  · exact launched_echo o.written u hfresh
  · exact launched_exit o.written o.left u hfresh

theorem Launched.logged (h : Launched v b b₁) : Logged b b₁ := by
  obtain ⟨events, hjournal, hall⟩ := h.journal
  refine ⟨.started v :: events, hjournal, fun u hu => ?_⟩
  obtain rfl : v = u := hu (.started v) List.mem_cons_self
  exact ⟨h.pidfiles, h.processes⟩

theorem Launched.frame_iff (h : Launched v b b₁) : Frame u b b₁ ↔ v = u := by
  obtain ⟨events, hjournal, hall⟩ := h.journal
  rw [h.logged.frame_iff]
  constructor
  · exact fun hu => hu _ hjournal (.started v) List.mem_cons_self
  · rintro rfl events' hjournal'
    rw [hjournal, List.append_cancel_left_eq] at hjournal'
    rw [← hjournal']
    exact List.forall_mem_cons.mpr ⟨rfl, hall⟩

theorem logged_spawnSvc (o : Outcomes) (u : Service) (b : Box) : Logged b (spawnSvc o u b).2 :=
  (logged_stopSvc o u b).trans (launched_launchSvc o u _).logged

/-- **When `spawn_svc` leaves the other services alone.** -/
theorem frame_spawnSvc_iff : Frame u b (spawnSvc o v b).2 ↔ v = u ∧ Harmless u v b := by
  have hlaunch := launched_launchSvc o v (stopSvc o v b).2
  unfold spawnSvc
  rw [frame_trans_iff (logged_stopSvc o v b) hlaunch.logged, hlaunch.frame_iff, frame_stopSvc_iff]
  constructor
  · rintro ⟨⟨hharmless, _⟩, hv⟩
    exact ⟨hv, hharmless⟩
  · rintro ⟨hv, hharmless⟩
    exact ⟨⟨hharmless, .inl hv⟩, hv⟩

theorem spawnSvc_gateway (o : Outcomes) (u : Service) (b : Box) :
    (spawnSvc o u b).2.gateway = b.gateway := by
  rw [spawnSvc, (launched_launchSvc o u _).gateway, stopSvc_gateway]

/-! ## Starting one service -/

variable (cfg : Setup)

/-- What `start_one` comes to. -/
inductive Plan
  | spare (status : Bool)
  | halt
  | launch

/-- What it comes to for each service, by the state files and what its commands do. -/
def startPlan (o : Outcomes) (g : Gateway) : Service → Plan
  | .ssServer => .launch
  | .sockd => if o.found then .launch else .spare false
  | .redsocks => if activeExitMode cfg g = lit "direct" then .spare true else .launch
  | .ssLocal => if activeExitMode cfg g = lit "ss" then .launch else .spare true
  | .udprelay =>
    if activeExitMode cfg g = lit "direct" then .spare true
    else if cfg.env.udpProxy = "relay" then .launch
    else .spare true
  | .nfqws =>
    if ¬validStrategyId g.catalog (activeStrategy cfg g) ∨ activeStrategy cfg g = lit "none" then
      .halt
    else if o.tempfile ∧ o.rendered then .launch
    else .spare false

/-- `start_one` follows its plan; nfqws alone is stopped, and then the strategy may be replaced. -/
inductive Follows (o : Outcomes) (u : Service) (b : Box) : Plan → Bool × Box → Prop
  | spare (status : Bool) : Follows o u b (.spare status) (status, b)
  | launch : Follows o u b .launch (spawnSvc o u b)
  | halt (hu : u = .nfqws) (b' : Box) (hb : b' = b ∨ b' = b.fallBack) :
      Follows o u b .halt (true, (stopSvc o u b').2)

theorem startOne_follows (o : Outcomes) (u : Service) (b : Box) :
    Follows o u b (startPlan cfg o b.gateway u) (startOne cfg o u b) := by
  cases u with
  | ssServer => exact .launch
  | sockd =>
    show Follows o .sockd b (if o.found then _ else _) (startSockd o b)
    unfold startSockd
    split
    · exact .launch
    · exact .spare false
  | redsocks =>
    show Follows o .redsocks b (if _ then _ else _) (startRedsocks cfg o b)
    unfold startRedsocks
    split
    · exact .spare true
    · exact .launch
  | ssLocal =>
    show Follows o .ssLocal b (if _ then _ else _) (startSsLocal cfg o b)
    unfold startSsLocal
    split
    · exact .launch
    · exact .spare true
  | udprelay =>
    show Follows o .udprelay b (if _ then _ else if _ then _ else _) (startUdprelay cfg o b)
    unfold startUdprelay
    split
    · exact .spare true
    · split
      · exact .launch
      · exact .spare true
  | nfqws =>
    show Follows o .nfqws b (if _ then _ else if _ then _ else _) (startNfqws cfg o b)
    unfold startNfqws
    dsimp only
    by_cases hknown : validStrategyId b.gateway.catalog (activeStrategy cfg b.gateway) = true
    · rw [if_pos hknown, if_pos hknown]
      by_cases hnone : activeStrategy cfg b.gateway = lit "none"
      · rw [if_pos (.inr hnone), if_pos hnone]
        exact .halt rfl b (.inl rfl)
      · rw [if_neg (not_or.mpr ⟨not_not.mpr hknown, hnone⟩), if_neg hnone]
        by_cases htempfile : o.tempfile = true
        · rw [if_neg (not_not.mpr htempfile)]
          by_cases hrendered : o.rendered = true
          · rw [if_pos ⟨htempfile, hrendered⟩, if_neg (not_not.mpr hrendered)]
            exact .launch
          · rw [if_neg fun h => hrendered h.2, if_pos hrendered]
            exact .spare false
        · rw [if_neg fun h => htempfile h.1, if_pos htempfile]
          exact .spare false
    · rw [if_pos (.inl hknown), if_neg hknown, if_neg hknown, if_pos rfl]
      exact .halt rfl b.fallBack (.inr rfl)

/-- When the command for a service `v` leaves all but `u` alone. -/
def Spares (o : Outcomes) (u v : Service) (b : Box) : Prop :=
  match startPlan cfg o b.gateway v with
  | .spare _ => True
  | .halt => Harmless u v b ∧ (v = u ∨ b.pidfile v = none ∨ o.stuck = true)
  | .launch => v = u ∧ Harmless u v b

/-- Replacing the strategy does nothing to services. -/
theorem fallBack_cases {b' : Box} (hb : b' = b ∨ b' = b.fallBack) :
    Logged b b' ∧ Frame u b b' ∧ b'.pidfile = b.pidfile ∧ b'.processes = b.processes := by
  obtain rfl | rfl := hb
  · exact ⟨.refl _, .refl u _, rfl, rfl⟩
  · refine ⟨.refl b, ⟨⟨[], (List.append_nil _).symm, nofun⟩, fun _ _ => rfl, ?_⟩, rfl, rfl⟩
    exact fun _ _ _ => .rfl

theorem logged_startOne (o : Outcomes) (u : Service) (b : Box) :
    Logged b (startOne cfg o u b).2 := by
  have hfollows := startOne_follows cfg o u b
  generalize startPlan cfg o b.gateway u = plan at hfollows
  generalize startOne cfg o u b = r at hfollows
  cases hfollows with
  | spare status => exact .refl b
  | launch => exact logged_spawnSvc o u b
  | halt hu b' hb => exact (@fallBack_cases u b b' hb).1.trans (logged_stopSvc o u b')

/-- **When `start_one` leaves the other services alone.** -/
theorem frame_startOne_iff : Frame u b (startOne cfg o v b).2 ↔ Spares cfg o u v b := by
  have hfollows := startOne_follows cfg o v b
  unfold Spares
  generalize startPlan cfg o b.gateway v = plan at hfollows
  generalize startOne cfg o v b = r at hfollows
  cases hfollows with
  | spare status => exact iff_of_true (.refl u b) trivial
  | launch => exact frame_spawnSvc_iff
  | halt hv b' hb =>
    obtain ⟨hlogged, hframe, hpidfile, hprocesses⟩ := @fallBack_cases u b b' hb
    rw [frame_trans_iff hlogged (logged_stopSvc o v b'), and_iff_right hframe, frame_stopSvc_iff]
    unfold Harmless Foreign Box.pidRead
    rw [hpidfile, hprocesses]

theorem spares_self (h : Harmless u u b) : Spares cfg o u u b := by
  unfold Spares
  split
  · trivial
  · exact ⟨h, .inl rfl⟩
  · exact ⟨rfl, h⟩

/-- A plan does not depend on what has been started before, unless that was the same service. -/
theorem startPlan_startOne (o o' : Outcomes) (hvw : v ≠ w) :
    startPlan cfg o' (startOne cfg o w b).2.gateway v = startPlan cfg o' b.gateway v := by
  have hfollows := startOne_follows cfg o w b
  generalize startPlan cfg o b.gateway w = plan at hfollows
  generalize startOne cfg o w b = r at hfollows
  cases hfollows with
  | spare status => rfl
  | launch => rw [spawnSvc_gateway]
  | halt hw b' hb =>
    rw [stopSvc_gateway]
    obtain rfl | rfl := hb
    · rfl
    · -- another service's plan does not read the strategy
      rw [hw] at hvw
      cases v with
      | nfqws => exact absurd rfl hvw
      | _ => rfl

theorem pidRead_startOne (h : p ∈ (startOne cfg o v b).2.pidRead u) :
    p ∈ b.pidRead u ∨ ∀ w, (p, some w) ∈ (startOne cfg o v b).2.processes → w = u := by
  have hfollows := startOne_follows cfg o v b
  generalize startPlan cfg o b.gateway v = plan at hfollows
  generalize startOne cfg o v b = r at hfollows h
  cases hfollows with
  | spare status => exact .inl h
  | launch =>
    have hlaunch := launched_launchSvc o v (stopSvc o v b).2
    by_cases huv : u = v
    · subst huv
      exact (hlaunch.pidRead p h).imp_left pidRead_stopSvc
    · have hsame : (spawnSvc o v b).2.pidRead u = (stopSvc o v b).2.pidRead u :=
        congrArg Option.join (hlaunch.pidfiles u huv)
      rw [hsame] at h
      exact .inl (pidRead_stopSvc h)
  | halt hv b' hb =>
    have hread := pidRead_stopSvc h
    rw [Box.pidRead, (@fallBack_cases u b b' hb).2.2.1] at hread
    exact .inl hread

/-! ## One command after another -/

theorem Frame.foreign_iff (h : Frame u b b₁) : Foreign u b₁ p ↔ Foreign u b p :=
  exists_congr fun v => and_congr_right fun hv => h.processes v hv p

/-- The pidfile of the service itself stays harmless. -/
theorem Frame.harmless (h : Frame u b b₁) (hown : Harmless u u b)
    (hread : ∀ p ∈ b₁.pidRead u, p ∈ b.pidRead u ∨ ∀ w, (p, some w) ∈ b₁.processes → w = u) :
    Harmless u u b₁ := by
  intro p hp
  rcases hread p hp with hold | hnew
  · rw [h.foreign_iff]
    exact hown p hold
  · rintro ⟨v, hv, hmem⟩
    exact hv (hnew v hmem)

/-- That of another service is as harmless as it was. -/
theorem Frame.harmless_iff (h : Frame u b b₁) (hv : v ≠ u) : Harmless u v b₁ ↔ Harmless u v b := by
  unfold Harmless Box.pidRead
  rw [h.pidfiles v hv]
  exact forall₂_congr fun p _ => not_congr h.foreign_iff

section

variable {c : Service → Box → Box}

theorem logged_foldl (hlogged : ∀ v b, Logged b (c v b)) (l : List Service) (b : Box) :
    Logged b (l.foldl (fun b v => c v b) b) := by
  induction l generalizing b with
  | nil => exact .refl b
  | cons v l ih => exact (hlogged v b).trans (ih _)

/-- Commands for several services leave the others alone when each does, whatever they do to the one
service: a step `c` keeps what the other steps depend on (`L`). -/
theorem frame_foldl_iff {L : Service → Box → Prop} (hlogged : ∀ v b, Logged b (c v b))
    (hframe : ∀ v b, Frame u b (c v b) ↔ L v b) (hself : ∀ b, Harmless u u b → L u b)
    (hkeep : ∀ v b, Harmless u u b → Frame u b (c v b) → Harmless u u (c v b))
    (hstay : ∀ v w b, v ≠ u → v ≠ w → Frame u b (c w b) → (L v (c w b) ↔ L v b))
    {l : List Service} (hnodup : l.Nodup) (hown : Harmless u u b) :
    Frame u b (l.foldl (fun b v => c v b) b) ↔ ∀ v ∈ l, v ≠ u → L v b := by
  induction l generalizing b with
  | nil => exact iff_of_true (.refl u b) nofun
  | cons w l ih =>
    obtain ⟨hw, hnodup⟩ := List.nodup_cons.mp hnodup
    rw [List.foldl_cons, frame_trans_iff (hlogged w b) (logged_foldl hlogged l _),
      List.forall_mem_cons]
    refine ⟨fun ⟨hfirst, hrest⟩ => ⟨fun _ => (hframe w b).mp hfirst, fun v hv hvu => ?_⟩,
      fun ⟨hfirst, hrest⟩ => ?_⟩
    · have hvw : v ≠ w := fun heq => hw (heq ▸ hv)
      rw [← hstay v w b hvu hvw hfirst]
      exact (ih hnodup (hkeep w b hown hfirst)).mp hrest v hv hvu
    · have hstep : Frame u b (c w b) := by
        rw [hframe]
        by_cases hwu : w = u
        · exact hwu ▸ hself b hown
        · exact hfirst hwu
      refine ⟨hstep, (ih hnodup (hkeep w b hown hstep)).mpr fun v hv hvu => ?_⟩
      have hvw : v ≠ w := fun heq => hw (heq ▸ hv)
      rw [hstay v w b hvu hvw hstep]
      exact hrest v hv hvu

end

theorem mem_startOrder (v : Service) : v ∈ startOrder := by
  cases v <;> decide

theorem mem_stopOrder (v : Service) : v ∈ stopOrder := by
  cases v <;> decide

/-- What a command for another service depends on is kept by one that leaves others alone. -/
theorem spares_startOne (o o' : Outcomes) (hvu : v ≠ u) (hvw : v ≠ w)
    (h : Frame u b (startOne cfg o w b).2) :
    Spares cfg o' u v (startOne cfg o w b).2 ↔ Spares cfg o' u v b := by
  unfold Spares
  rw [startPlan_startOne cfg o o' hvw]
  cases startPlan cfg o' b.gateway v with
  | spare status => exact .rfl
  | halt => rw [h.harmless_iff hvu, h.pidfiles v hvu]
  | launch => rw [h.harmless_iff hvu]

theorem frame_cmdStart_iff (all : Service → Outcomes) (hown : Harmless u u b) :
    Frame u b (cmdStart cfg all b) ↔ ∀ v ≠ u, Spares cfg (all v) u v b := by
  have hfold := @frame_foldl_iff u b (fun v b => (startOne cfg (all v) v b).2)
    (fun v b => Spares cfg (all v) u v b) (fun v b => logged_startOne cfg _ v b)
    (fun v b => frame_startOne_iff cfg) (fun b hb => spares_self cfg hb)
    (fun v b hb h => h.harmless hb fun p hp => pidRead_startOne cfg hp)
    (fun v w b hvu hvw h => spares_startOne cfg _ _ hvu hvw h) startOrder (by decide) hown
  exact hfold.trans ⟨fun h v hv => h v (mem_startOrder v) hv, fun h v _ hv => h v hv⟩

/-- What stopping a service leaves alone. -/
theorem frame_cmdStop_iff (all : Service → Outcomes) (hown : Harmless u u b) :
    Frame u b (cmdStop all b) ↔
      ∀ v ≠ u, Harmless u v b ∧ (b.pidfile v = none ∨ (all v).stuck = true) := by
  have hfold := @frame_foldl_iff u b (fun v b => (stopSvc (all v) v b).2)
    (fun v b => Harmless u v b ∧ (v = u ∨ b.pidfile v = none ∨ (all v).stuck = true))
    (fun v b => logged_stopSvc _ v b) (fun v b => frame_stopSvc_iff)
    (fun b hb => ⟨hb, .inl rfl⟩) (fun v b hb h => h.harmless hb fun p hp => .inl (pidRead_stopSvc hp))
    (fun v w b hvu hvw h => by rw [h.harmless_iff hvu, h.pidfiles v hvu]) stopOrder (by decide) hown
  refine hfold.trans ⟨fun h v hv => ?_, fun h v _ hv => ?_⟩
  · obtain ⟨hharmless, hpidfile⟩ := h v (mem_stopOrder v) hv
    exact ⟨hharmless, hpidfile.resolve_left hv⟩
  · exact ⟨(h v hv).1, .inr (h v hv).2⟩

/-! ## The dispatcher -/

/-- The exit status of `start_one`, by its plan. -/
def startStatus (o : Outcomes) (g : Gateway) (u : Service) : Bool :=
  match startPlan cfg o g u with
  | .spare status => status
  | .halt => true
  | .launch => o.survives

theorem startOne_status (o : Outcomes) (u : Service) (b : Box) :
    (startOne cfg o u b).1 = startStatus cfg o b.gateway u := by
  have hfollows := startOne_follows cfg o u b
  unfold startStatus
  generalize startPlan cfg o b.gateway u = plan at hfollows
  generalize startOne cfg o u b = r at hfollows
  cases hfollows with
  | spare status => rfl
  | halt hu b' hb => rfl
  | launch =>
    unfold spawnSvc launchSvc
    dsimp only
    split
    · rename_i hsurvives
      exact hsurvives.symm
    · rename_i hsurvives
      exact (Bool.not_eq_true _ |>.mp hsurvives).symm

/-- `stop_svc` fails when there is a pidfile that cannot be removed. -/
theorem stopSvc_status : (stopSvc o u b).1 = true ↔ b.pidfile u = none ∨ o.stuck = false := by
  unfold stopSvc Box.remove
  rw [halt_pidfile]
  by_cases hnone : b.pidfile u = none
  · rw [if_pos hnone]
    exact iff_of_true rfl (.inl hnone)
  rw [if_neg hnone, or_iff_right hnone]
  cases o.stuck with
  | true => exact iff_of_false Bool.false_ne_true (Ne.symm Bool.false_ne_true)
  | false => exact iff_of_true rfl rfl

theorem logged_cmdStart (all : Service → Outcomes) (b : Box) : Logged b (cmdStart cfg all b) :=
  logged_foldl (c := fun v b => (startOne cfg (all v) v b).2) (fun v b => logged_startOne cfg _ v b) _ b

theorem logged_cmdStop (all : Service → Outcomes) (b : Box) : Logged b (cmdStop all b) :=
  logged_foldl (c := fun v b => (stopSvc (all v) v b).2) (fun v b => logged_stopSvc _ v b) _ b

/-- ss-server is always started. -/
theorem not_spares_ssServer (hu : u ≠ .ssServer) : ¬Spares cfg o u .ssServer b :=
  fun h => hu h.1.symm

theorem not_frame_cmdStart {all : Service → Outcomes} (hu : u ≠ .ssServer) :
    ¬Frame u b (cmdStart cfg all b) := by
  have hrest := @logged_foldl (fun v b => (startOne cfg (all v) v b).2)
    (fun v b => logged_startOne cfg _ v b) startOrder.tail (startOne cfg (all .ssServer) .ssServer b).2
  have hfirst := logged_startOne cfg (all .ssServer) .ssServer b
  have horder : startOrder = .ssServer :: startOrder.tail := rfl
  rw [cmdStart, horder, List.foldl_cons, frame_trans_iff hfirst hrest, frame_startOne_iff]
  exact fun h => not_spares_ssServer cfg hu h.1

variable (own again : Outcomes) (all : Service → Outcomes)

theorem frame_start_iff :
    Frame u b (dispatch cfg own again all .start u b) ↔
      Spares cfg own u u b ∧ (startStatus cfg own b.gateway u = true ∨
        ∀ v ≠ u, Spares cfg (all v) u v b) := by
  show Frame u b (if _ then _ else _) ↔ _
  rw [startOne_status]
  split
  · rename_i hstatus
    rw [frame_startOne_iff, and_iff_left (.inl hstatus)]
  · rename_i hstatus
    rw [frame_trans_iff (logged_startOne cfg own u b) (logged_cmdStart cfg all _),
      frame_startOne_iff, or_iff_right hstatus]
    refine and_congr_right fun hspares => ?_
    by_cases hu : u = .ssServer
    · subst hu
      have hframe := (frame_startOne_iff cfg).mpr hspares
      have hown := hframe.harmless hspares.2 fun p hp => pidRead_startOne cfg hp
      rw [frame_cmdStart_iff cfg all hown]
      exact forall₂_congr fun v hv => spares_startOne cfg own (all v) hv hv hframe
    · exact iff_of_false (not_frame_cmdStart cfg hu)
        fun h => not_spares_ssServer cfg hu (h .ssServer (Ne.symm hu))

theorem frame_stop_iff :
    Frame u b (dispatch cfg own again all .stop u b) ↔
      Harmless u u b ∧ ((b.pidfile u = none ∨ own.stuck = false) ∨
        ∀ v ≠ u, Harmless u v b ∧ (b.pidfile v = none ∨ (all v).stuck = true)) := by
  show Frame u b (if _ then _ else _) ↔ _
  split
  · rename_i hstatus
    rw [frame_stopSvc_self, and_iff_left (.inl (stopSvc_status.mp hstatus))]
  · rename_i hstatus
    rw [frame_trans_iff (logged_stopSvc own u b) (logged_cmdStop all _), frame_stopSvc_self,
      or_iff_right (mt stopSvc_status.mpr hstatus)]
    refine and_congr_right fun hharmless => ?_
    have hframe := (@frame_stopSvc_self u b own).mpr hharmless
    have hown := hframe.harmless hharmless fun p hp => .inl (pidRead_stopSvc hp)
    rw [frame_cmdStop_iff all hown]
    exact forall₂_congr fun v hv => by rw [hframe.harmless_iff hv, hframe.pidfiles v hv]

/-- A restart has no command for all services. -/
theorem frame_restart_iff :
    Frame u b (dispatch cfg own again all .restart u b) ↔ Harmless u u b := by
  show Frame u b (startOne cfg again u (stopSvc own u b).2).2 ↔ _
  rw [frame_trans_iff (logged_stopSvc own u b) (logged_startOne cfg again u _), frame_stopSvc_self,
    and_iff_left_iff_imp]
  intro hharmless
  have hframe := (@frame_stopSvc_self u b own).mpr hharmless
  rw [frame_startOne_iff]
  exact spares_self cfg (hframe.harmless hharmless fun p hp => .inl (pidRead_stopSvc hp))

/-- The pid that is stopped is not another service's, and the command for the service succeeds, or the
one for all services finds nothing to do for the others. -/
def Confined (u : Service) (b : Box) : Verb → Prop
  | .start => Spares cfg own u u b ∧ (startStatus cfg own b.gateway u = true ∨
      ∀ v ≠ u, Spares cfg (all v) u v b)
  | .stop => Harmless u u b ∧ ((b.pidfile u = none ∨ own.stuck = false) ∨
      ∀ v ≠ u, Harmless u v b ∧ (b.pidfile v = none ∨ (all v).stuck = true))
  | .restart => Harmless u u b

/-- **Which commands leave the other services alone.** -/
theorem dispatch_frame_iff (verb : Verb) (u : Service) (b : Box) :
    Frame u b (dispatch cfg own again all verb u b) ↔ Confined cfg own all u b verb := by
  cases verb with
  | start => exact frame_start_iff cfg own again all
  | stop => exact frame_stop_iff cfg own again all
  | restart => exact frame_restart_iff cfg own again all

/-! ## Two commands that do not -/

/-- A kernel that counts. -/
def nextPid : Fork where
  pid := fun processes => (processes.map (·.1)).sum + 1
  fresh := fun processes q hq heq => by
    have hle : q.1 ≤ (processes.map (·.1)).sum := List.le_sum_of_mem (List.mem_map_of_mem hq)
    omega

/-- Everything succeeds, except that there is no dante. -/
def withoutDante : Outcomes := ⟨false, nextPid, .pid, true, false, false, true, true⟩

/-- ss-server runs, and the pidfile of sockd, which has died, has its pid. -/
def stalePidfile : Box where
  gateway := running
  processes := [(7, some .ssServer)]
  pidfile := fun u => if u = .ssServer ∨ u = .sockd then some (some 7) else none
  journal := []

/-- `start sockd` starts all services when dante is not found, and `stop sockd` stops ss-server when it
has got the pid of a sockd that has died. -/
theorem dispatch_touches_others :
    ¬Frame .sockd stalePidfile (dispatch defaultSetup withoutDante withoutDante
        (fun _ => withoutDante) .start .sockd stalePidfile) ∧
      ¬Frame .sockd stalePidfile (dispatch defaultSetup withoutDante withoutDante
        (fun _ => withoutDante) .stop .sockd stalePidfile) := by
  constructor
  · rw [frame_start_iff]
    rintro ⟨_, hstatus | hothers⟩
    · cases hstatus
    · exact not_spares_ssServer defaultSetup (by decide) (hothers .ssServer (by decide))
  · rw [frame_stop_iff]
    rintro ⟨hharmless, _⟩
    exact hharmless 7 rfl ⟨.ssServer, by decide, List.mem_cons_self⟩

end WebZapret.Services
