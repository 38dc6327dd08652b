import WebZapret.Firewall.Packets
import WebZapret.Firewall.Stepwise
import WebZapret.Lib.Interference

/-!
# The live firewall beside strategy tests

`wz-test.sh` writes its own chain into the mangle table while `wz-fw.sh` may be at work. Whatever the
order of the commands, whichever of them fail, and wherever a test is killed, the host without the test
chain is the one that `wz-fw.sh` alone would have made (`gateway_unaffected`), and packets that are not
the test user's go the way they would go there.
-/

namespace WebZapret

open Commands

/-! ## What rules there are -/

/-- The rules of the test chain: to a packet that is not the test user's they do nothing. -/
def TestOnly (te : Stepwise.TestEnv) (r : FwRule) : Prop :=
  r.target = .verdict .ret ∨
    .uidOwner te.uid ∈ r.conds ∧ r.target = .verdict (.nfqueueBypass te.qnum)

/-- A rule of the live firewall that queues: packets of the proxy and the exit user, but not what nfqws
has sent on. -/
structure LiveQueue (env : Env) (q : String) (r : FwRule) : Prop where
  queue : q = env.qnumTcp
  unmarked : .notMark (env.desyncMark ++ "/" ++ env.desyncMark) ∈ r.conds
  owner : .uidOwner env.uidProxy ∈ r.conds ∨ .uidOwner env.uidExit ∈ r.conds

/-- A rule that a chain of the mangle table may have. -/
structure MangleRule (env : Env) (te : Stepwise.TestEnv) (c : Chain) (r : FwRule) : Prop where
  down : JumpsDown c r
  hook : r.target = .jump .wztest → c = .output ∧ r = Stepwise.wztestJump
  test : c = .wztest → TestOnly te r
  live : c ≠ .wztest → ∀ q, r.target = .verdict (.nfqueueBypass q) → LiveQueue env q r

theorem aside_wztest (env : Env) (te : Stepwise.TestEnv) :
    Table.Aside .wztest .output (MangleRule env te) where
  entered c r h hr := (h.hook hr).1
  ends r h := by
    rcases h.test rfl with hret | ⟨-, hqueue⟩
    · exact ⟨_, hret⟩
    · exact ⟨_, hqueue⟩

/-- Every rule of the host is one that its chain may have. -/
structure Regular (env : Env) (te : Stepwise.TestEnv) (h : Host) : Prop where
  mangle : Table.Obeys (MangleRule env te) h.mangle
  nat : Table.Obeys JumpsDown h.nat

/-- The host as if no test had been there. -/
def Host.withoutTest (h : Host) : Host := { h with mangle := Table.without .wztest h.mangle }

theorem regular_empty (env : Env) (te : Stepwise.TestEnv) : Regular env te Host.empty := by
  constructor <;>
  · intro c rs hrs r hr
    cases c <;> simp_all [Host.empty, FwTable.empty]

namespace Stepwise

/-! ## What a test may rely on -/

/-- How often `OUTPUT` jumps to the test chain. -/
def testJumps (t : FwTable) : Nat := ((t .output).getD []).count wztestJump

/-- No jump to the test chain is added, and its rules stay unless they go all together. -/
structure Recedes (t t' : FwTable) : Prop where
  jumps : testJumps t' ≤ testJumps t
  chain : t' .wztest = t .wztest ∨ t .wztest ≠ none ∧ t' .wztest = some [] ∨ t' .wztest = none

section Recedes

variable {c : Chain} {r : FwRule} {t t' : FwTable}

theorem recedes_refl (t : FwTable) : Recedes t t := ⟨Nat.le_refl _, .inl rfl⟩

theorem recedes_set (hc : c ≠ .wztest) {rs : List FwRule}
    (hrs : c = .output → rs.count wztestJump ≤ testJumps t) : Recedes t (t.set c rs) where
  jumps := by
    by_cases hout : c = .output
    · subst hout
      simpa [testJumps] using hrs rfl
    · rw [testJumps, Table.set_ne fun h => hout h.symm]
      exact Nat.le_refl _
  chain := .inl (Table.set_ne hc.symm rs t)

theorem recedes_newChain (hc : c ≠ .wztest) (h : t' ∈ t.newChain c) : Recedes t t' := by
  unfold Table.newChain at h
  split at h
  · cases h
    exact recedes_set hc fun _ => Nat.zero_le _
  · cases h

theorem recedes_flush (hc : c ≠ .wztest) (h : t' ∈ t.flush c) : Recedes t t' := by
  unfold Table.flush at h
  split at h
  · cases h
  · cases h
    exact recedes_set hc fun _ => Nat.zero_le _

theorem recedes_append (hc : c ≠ .wztest) (hr : r ≠ wztestJump) (h : t' ∈ t.append c r) :
    Recedes t t' := by
  unfold Table.append at h
  split at h
  · cases h
  · rename_i l hl
    split at h
    · cases h
      refine recedes_set hc ?_
      rintro rfl
      simp [testJumps, hl, hr]
    · cases h

theorem recedes_insert (hc : c ≠ .wztest) (hr : r ≠ wztestJump) {n : Nat}
    (h : t' ∈ t.insert c n r) : Recedes t t' := by
  unfold Table.insert at h
  split at h
  · cases h
  · rename_i l hl
    split at h
    · cases h
      refine recedes_set hc ?_
      rintro rfl
      have hsplit := congrArg (List.count wztestJump) (List.take_append_drop (n - 1) l)
      rw [List.count_append] at hsplit
      simp only [testJumps, hl, Option.getD_some, List.count_append, List.count_cons,
        beq_eq_false_iff_ne.mpr hr, Bool.false_eq_true, if_false]
      omega
    · cases h

theorem recedes_check (h : t' ∈ t.check c r) : Recedes t t' := by
  unfold Table.check at h
  split at h
  · cases h
  · split at h
    · cases h
      exact recedes_refl t
    · cases h

theorem recedes_delete (hc : c ≠ .wztest) (h : t' ∈ t.delete c r) : Recedes t t' := by
  unfold Table.delete at h
  split at h
  · cases h
  · rename_i l hl
    split at h
    · cases h
      refine recedes_set hc ?_
      rintro rfl
      rw [testJumps, hl]
      exact List.Sublist.count_le _ List.erase_sublist
    · cases h

theorem recedes_deleteChain (hout : c ≠ .output) (h : t' ∈ t.deleteChain c) : Recedes t t' := by
  unfold Table.deleteChain at h
  split at h
  · cases h
    refine ⟨Nat.le_of_eq ?_, ?_⟩
    · rw [testJumps, testJumps, Function.update_of_ne hout.symm]
    · by_cases hc : c = .wztest
      · subst hc
        exact .inr (.inr (Function.update_self ..))
      · exact .inl (Function.update_of_ne (fun h => hc h.symm) _ _)
  · cases h

/-- The rules of the test chain may go. -/
theorem recedes_flush_wztest (h : t' ∈ t.flush .wztest) : Recedes t t' := by
  unfold Table.flush at h
  split at h
  · cases h
  · rename_i l hl
    cases h
    refine ⟨Nat.le_of_eq ?_, .inr (.inl ⟨by simp [hl], Table.set_same ..⟩)⟩
    rw [testJumps, testJumps, Table.set_ne (by decide)]

end Recedes

/-! ## The live firewall -/

section Live

variable {env : Env} {te : TestEnv}

/-- The program does to the host without the test what it does to the host, and disturbs no test. -/
structure Unaware (env : Env) (te : TestEnv) {α : Type} (p : Commands Host α) : Prop where
  mirrors : Mirrors (Regular env te) Host.withoutTest p p
  moves : Moves (Regular env te) (fun h h' => Recedes h.mangle h'.mangle) p

theorem unaware_pure {α : Type} (a : α) : Unaware env te (pure a : Commands Host α) :=
  ⟨mirrors_pure a, moves_pure a⟩

theorem unaware_bind {α β : Type} {p : Commands Host α} {q : α → Commands Host β}
    (hp : Unaware env te p) (hq : ∀ a, Unaware env te (q a)) : Unaware env te (p >>= q) :=
  ⟨mirrors_bind hp.mirrors fun a => (hq a).mirrors, moves_bind hp.moves fun a => (hq a).moves⟩

theorem unaware_discard {α : Type} {p : Commands Host α} (hp : Unaware env te p) :
    Unaware env te (discard p) := unaware_bind hp fun _ => unaware_pure ()

theorem unaware_mangle {f : FwTable → Option FwTable}
    (hf : Mirrored (Table.Obeys (MangleRule env te)) (Table.without .wztest) f f)
    (hrec : ∀ t, ∀ t' ∈ f t, Recedes t t') : Unaware env te (ipt .mangle f) := by
  constructor
  · refine mirrors_invoke fun h hh => ?_
    obtain ⟨heq, hkeep⟩ := hf h.mangle hh.mangle
    constructor
    · show ((f h.mangle).map _).map _ = (f (Table.without .wztest h.mangle)).map _
      rw [← heq, Option.map_map, Option.map_map]
      rfl
    · intro h' hh'
      obtain ⟨t, ht, rfl⟩ := Option.map_eq_some_iff.mp hh'
      exact ⟨hkeep t ht, hh.nat⟩
  · refine moves_invoke fun h hh h' hh' => ?_
    obtain ⟨t, ht, rfl⟩ := Option.map_eq_some_iff.mp hh'
    exact ⟨⟨(hf h.mangle hh.mangle).2 t ht, hh.nat⟩, hrec h.mangle t ht⟩

theorem unaware_nat {f : FwTable → Option FwTable}
    (hf : ∀ t, Table.Obeys JumpsDown t → ∀ t' ∈ f t, Table.Obeys JumpsDown t') :
    Unaware env te (ipt .nat f) := by
  have hkeep (h : Host) (hh : Regular env te h) : ∀ h' ∈ (f (h.table .nat)).map (h.withTable .nat),
      Regular env te h' ∧ Recedes h.mangle h'.mangle := by
    intro h' hh'
    obtain ⟨t, ht, rfl⟩ := Option.map_eq_some_iff.mp hh'
    exact ⟨⟨hh.mangle, hf h.nat hh.nat t ht⟩, recedes_refl _⟩
  refine ⟨mirrors_invoke fun h hh => ⟨?_, fun h' hh' => (hkeep h hh h' hh').1⟩, moves_invoke hkeep⟩
  show ((f h.nat).map _).map _ = (f h.nat).map _
  rw [Option.map_map]
  rfl

/-- A command on policy rules and routes. -/
theorem unaware_routing {f : Host → Option Host}
    (hf : ∀ p rt, ∃ q : Option (List PolicyRule × List Route), ∀ m n,
      f ⟨m, n, p, rt⟩ = q.map fun q => ⟨m, n, q.1, q.2⟩) : Unaware env te (invoke f) := by
  have hkeep (h : Host) (hh : Regular env te h) : ∀ h' ∈ f h,
      Regular env te h' ∧ Recedes h.mangle h'.mangle := by
    obtain ⟨m, n, p, rt⟩ := h
    obtain ⟨q, hq⟩ := hf p rt
    intro h' hh'
    rw [hq] at hh'
    obtain ⟨q, -, rfl⟩ := Option.map_eq_some_iff.mp hh'
    exact ⟨⟨hh.mangle, hh.nat⟩, recedes_refl _⟩
  refine ⟨mirrors_invoke fun h hh => ⟨?_, fun h' hh' => (hkeep h hh h' hh').1⟩, moves_invoke hkeep⟩
  obtain ⟨m, n, p, rt⟩ := h
  obtain ⟨q, hq⟩ := hf p rt
  show (f ⟨m, n, p, rt⟩).map _ = f ⟨Table.without .wztest m, n, p, rt⟩
  rw [hq, hq, Option.map_map]
  rfl

/-! ### The commands of `wz-fw.sh` -/

/-- A rule of the live firewall. -/
def Allowed (env : Env) (te : TestEnv) (c : Chain) (r : FwRule) : TableName → Prop
  | .mangle => MangleRule env te c r ∧ r.target ≠ .jump .wztest
  | .nat => JumpsDown c r

variable {T : TableName} {c : Chain} {r : FwRule}

theorem ne_wztestJump (hr : r.target ≠ .jump .wztest) : r ≠ wztestJump := by
  rintro rfl
  exact hr rfl

theorem unaware_newChain (hc : c ≠ .wztest) : Unaware env te (ipt T (Table.newChain c)) := by
  cases T with
  | mangle => exact unaware_mangle (Table.mirrored_newChain hc) fun _ _ => recedes_newChain hc
  | nat => exact unaware_nat fun _ ht _ => ht.newChain

theorem unaware_flush (hc : c ≠ .wztest) : Unaware env te (ipt T (Table.flush c)) := by
  cases T with
  | mangle => exact unaware_mangle (Table.mirrored_flush hc) fun _ _ => recedes_flush hc
  | nat => exact unaware_nat fun _ ht _ => ht.flush

theorem unaware_deleteChain (hc : c ≠ .wztest) (hout : c ≠ .output) :
    Unaware env te (ipt T (Table.deleteChain c)) := by
  cases T with
  | mangle =>
    exact unaware_mangle (Table.mirrored_deleteChain (aside_wztest env te) hc hout)
      fun _ _ => recedes_deleteChain hout
  | nat => exact unaware_nat fun _ ht _ => ht.deleteChain

theorem unaware_append (hc : c ≠ .wztest) (hr : Allowed env te c r T) :
    Unaware env te (ipt T (Table.append c r)) := by
  cases T with
  | mangle =>
    exact unaware_mangle (Table.mirrored_append hc hr.1 hr.2)
      fun _ _ => recedes_append hc (ne_wztestJump hr.2)
  | nat => exact unaware_nat fun _ ht _ => ht.append hr

theorem unaware_insert (hc : c ≠ .wztest) (hr : Allowed env te c r T) {n : Nat}
    (hn : c = .output → n = 1) : Unaware env te (ipt T (Table.insert c n r)) := by
  cases T with
  | mangle =>
    exact unaware_mangle (Table.mirrored_insert (aside_wztest env te) hc hr.1 hr.2 hn)
      fun _ _ => recedes_insert hc (ne_wztestJump hr.2)
  | nat => exact unaware_nat fun _ ht _ => ht.insert hr

theorem unaware_check (hc : c ≠ .wztest) (hr : r.target ≠ .jump .wztest) :
    Unaware env te (ipt T (Table.check c r)) := by
  cases T with
  | mangle => exact unaware_mangle (Table.mirrored_check hc hr) fun _ _ => recedes_check
  | nat => exact unaware_nat fun _ ht _ => ht.check

theorem unaware_delete (hc : c ≠ .wztest) (hr : r.target ≠ .jump .wztest) :
    Unaware env te (ipt T (Table.delete c r)) := by
  cases T with
  | mangle => exact unaware_mangle (Table.mirrored_delete hc hr) fun _ _ => recedes_delete hc
  | nat => exact unaware_nat fun _ ht _ => ht.delete

theorem unaware_ruleAdd (k : Kernel) (r : PolicyRule) : Unaware env te (invoke (ruleAdd k r)) := by
  refine unaware_routing fun p rt => ?_
  unfold ruleAdd
  by_cases h : (k.refusesDuplicateRule && decide (r ∈ p)) = true
  · exact ⟨none, fun _ _ => if_pos h⟩
  · exact ⟨some (r :: p, rt), fun _ _ => if_neg h⟩

theorem unaware_routeAdd (r : Route) : Unaware env te (invoke (routeAdd r)) := by
  refine unaware_routing fun p rt => ?_
  unfold routeAdd
  by_cases h : (rt.any fun o => o.dest = r.dest ∧ o.table = r.table) = true
  · exact ⟨none, fun _ _ => if_pos h⟩
  · exact ⟨some (p, rt ++ [r]), fun _ _ => if_neg h⟩

theorem unaware_ruleDel (uid : Nat) (ipproto : Option String) (lookup : String) :
    Unaware env te (invoke (ruleDel uid ipproto lookup)) := by
  refine unaware_routing fun p rt => ?_
  unfold ruleDel
  by_cases h : (p.any fun r =>
    r.uid = uid && ipproto.all (· = r.ipproto) && r.lookup = lookup) = true
  · exact ⟨some (p.eraseP _, rt), fun _ _ => if_pos h⟩
  · exact ⟨none, fun _ _ => if_neg h⟩

theorem unaware_routeDel (r : Route) : Unaware env te (invoke (routeDel r)) := by
  refine unaware_routing fun p rt => ?_
  unfold routeDel
  by_cases h : r ∈ rt
  · exact ⟨some (p, rt.erase r), fun _ _ => if_pos h⟩
  · exact ⟨none, fun _ _ => if_neg h⟩

theorem unaware_some : Unaware env te (invoke some) :=
  unaware_routing fun p rt => ⟨some (p, rt), fun _ _ => rfl⟩

/-! ### `wz-fw.sh` -/

theorem unaware_makeChain (hc : c ≠ .wztest) : Unaware env te (makeChain T c) := by
  refine unaware_bind (unaware_newChain hc) fun b => ?_
  cases b with
  | true => exact unaware_pure ()
  | false => exact unaware_discard (unaware_flush hc)

theorem unaware_hookOutput (hr : Allowed env te .output r T) (hrc : r.target ≠ .jump .wztest) :
    Unaware env te (hookOutput T r) := by
  refine unaware_bind (unaware_check (by decide) hrc) fun b => ?_
  cases b with
  | true => exact unaware_pure ()
  | false => exact unaware_discard (unaware_insert (by decide) hr fun _ => rfl)

/-- A rule that neither jumps nor queues may stand in any chain but the test's. -/
theorem allowed_of_verdict (hc : c ≠ .wztest) {v : Verdict} (hr : r.target = .verdict v)
    (hv : ∀ q, v ≠ .nfqueueBypass q) : Allowed env te c r T := by
  have hjump (d : Chain) : r.target ≠ .jump d := by simp [hr]
  have hdown : JumpsDown c r := fun d hd => absurd hd (hjump d)
  cases T with
  | nat => exact hdown
  | mangle =>
    refine ⟨⟨hdown, fun h => absurd h (hjump _), fun h => absurd h hc, fun _ q hq => ?_⟩, hjump _⟩
    rw [hr] at hq
    exact absurd (Target.verdict.inj hq) (hv q)

theorem allowed_of_jump (hc : c ≠ .wztest) {d : Chain} (hr : r.target = .jump d)
    (hd : d ≠ .wztest) (hrank : d.rank < c.rank) : Allowed env te c r T := by
  have hdown : JumpsDown c r := by
    intro e he
    rw [hr] at he
    cases he
    exact hrank
  have hnot : r.target ≠ .jump .wztest := by simp [hr, hd]
  cases T with
  | nat => exact hdown
  | mangle =>
    refine ⟨⟨hdown, fun h => absurd h hnot, fun h => absurd h hc, fun _ q hq => ?_⟩, hnot⟩
    rw [hr] at hq
    cases hq

theorem allowed_nfqRuleSpec {uid : Nat} (huid : uid = env.uidProxy ∨ uid = env.uidExit)
    (proto ports pktlim : String) :
    Allowed env te .wzfw (nfqRuleSpec env uid proto ports pktlim) .mangle := by
  refine ⟨⟨?_, ?_, fun h => Chain.noConfusion h, fun _ q hq => ?_⟩, ?_⟩
  · intro d hd
    cases hd
  · intro h
    cases h
  · cases hq
    refine ⟨rfl, ?_, huid.imp ?_ ?_⟩
    · unfold nfqRuleSpec
      split <;> simp
    · rintro rfl
      unfold nfqRuleSpec
      split <;> simp
    · rintro rfl
      unfold nfqRuleSpec
      split <;> simp
  · intro h
    cases h

theorem unaware_nfqRule (strategy : String) {uid : Nat}
    (huid : uid = env.uidProxy ∨ uid = env.uidExit) (proto ports pktlim : String) :
    Unaware env te (nfqRule env strategy uid proto ports pktlim) := by
  unfold nfqRule
  split
  · exact unaware_pure ()
  · exact unaware_discard (unaware_append (by decide) (allowed_nfqRuleSpec huid ..))

theorem unaware_fwApplyWzfw : Unaware env te (fwApplyWzfw env) := by
  refine unaware_bind (unaware_makeChain (by decide)) fun _ => ?_
  refine unaware_bind (unaware_hookOutput (r := wzfwJump)
    (allowed_of_jump (by decide) rfl (by decide) (by decide)) (by decide)) fun _ => ?_
  refine unaware_bind (unaware_discard (unaware_insert (by decide)
    (allowed_of_verdict (by decide) rfl (by simp)) (by decide))) fun _ => ?_
  exact unaware_discard (unaware_insert (by decide)
    (allowed_of_verdict (by decide) rfl (by simp)) (by decide))

theorem unaware_fwApplyRedirect : Unaware env te (fwApplyRedirect env) := by
  refine unaware_bind (unaware_makeChain (by decide)) fun _ => ?_
  refine unaware_bind (unaware_hookOutput (r := wzredirJump)
    (allowed_of_jump (by decide) rfl (by decide) (by decide)) (by decide)) fun _ => ?_
  exact unaware_discard (unaware_append (by decide)
    (allowed_of_verdict (by decide) rfl (by simp)))

theorem unaware_fwApplyUdp (k : Kernel) (strategy : String) :
    Unaware env te (fwApplyUdp k env strategy) := by
  unfold fwApplyUdp
  split
  · exact unaware_bind (unaware_discard (unaware_ruleAdd ..)) fun _ =>
      unaware_bind (unaware_discard (unaware_routeAdd ..)) fun _ =>
      unaware_bind (unaware_discard unaware_some) fun _ => unaware_discard unaware_some
  · exact unaware_nfqRule strategy (.inl rfl) ..

theorem unaware_fwApplyExitFlows (mode : ExitMode) (strategy : String) :
    Unaware env te (fwApplyExitFlows env mode strategy) := by
  unfold fwApplyExitFlows
  split
  · exact unaware_bind (unaware_nfqRule strategy (.inr rfl) ..) fun _ =>
      unaware_nfqRule strategy (.inr rfl) ..
  · exact unaware_bind (unaware_pure ()) fun _ => unaware_pure ()

theorem unaware_fwApplyMode (k : Kernel) (mode : ExitMode) (strategy : String) :
    Unaware env te (fwApplyMode k env mode strategy) := by
  have hupstream : Unaware env te (do
        fwApplyRedirect env
        fwApplyUdp k env strategy
        fwApplyExitFlows env mode strategy) :=
    unaware_bind unaware_fwApplyRedirect fun _ =>
      unaware_bind (unaware_fwApplyUdp k strategy) fun _ => unaware_fwApplyExitFlows mode strategy
  cases mode with
  | direct =>
    exact unaware_bind (unaware_nfqRule strategy (.inl rfl) ..) fun _ =>
      unaware_nfqRule strategy (.inl rfl) ..
  | socks5 => exact hupstream
  | ss => exact hupstream

theorem unaware_fwApplyNfqin : Unaware env te fwApplyNfqin := by
  refine unaware_bind (unaware_makeChain (by decide)) fun _ => ?_
  refine unaware_bind (unaware_discard (unaware_delete (by decide) (by decide))) fun _ => ?_
  refine unaware_bind (unaware_discard (unaware_insert (by decide)
    (allowed_of_jump (by decide) rfl (by decide) (by decide)) (by decide))) fun _ => ?_
  exact unaware_discard (unaware_append (by decide)
    (allowed_of_verdict (by decide) rfl (by simp)))

theorem unaware_fwApply (k : Kernel) (mode : ExitMode) (strategy : String) :
    Unaware env te (fwApply k env mode strategy) :=
  unaware_bind unaware_fwApplyWzfw fun _ =>
    unaware_bind (unaware_fwApplyMode k mode strategy) fun _ => unaware_fwApplyNfqin

theorem unaware_removeChain (hc : c ≠ .wztest) (hout : c ≠ .output) :
    Unaware env te (removeChain T c) :=
  unaware_bind (unaware_discard (unaware_flush hc)) fun _ =>
    unaware_discard (unaware_deleteChain hc hout)

theorem unaware_removeLive : Unaware env te removeLive := by
  refine unaware_bind (unaware_discard (unaware_delete (by decide) (by decide))) fun _ => ?_
  refine unaware_bind (unaware_discard (unaware_delete (by decide) (by decide))) fun _ => ?_
  refine unaware_bind (unaware_discard (unaware_delete (by decide) (by decide))) fun _ => ?_
  refine unaware_bind (unaware_removeChain (by decide) (by decide)) fun _ => ?_
  refine unaware_bind (unaware_removeChain (by decide) (by decide)) fun _ => ?_
  exact unaware_removeChain (by decide) (by decide)

/-! ### The test chain -/

theorem invisible_mangle {f : FwTable → Option FwTable}
    (hf : Invisible (Table.Obeys (MangleRule env te)) (Table.without .wztest) f) :
    Invisible (Regular env te) Host.withoutTest
      fun h => (f (h.table .mangle)).map (h.withTable .mangle) := by
  intro h hh h' hh'
  obtain ⟨t, ht, rfl⟩ := Option.map_eq_some_iff.mp hh'
  obtain ⟨hview, hobeys⟩ := hf h.mangle hh.mangle t ht
  exact ⟨congrArg (fun m => { h with mangle := m }) hview, ⟨hobeys, hh.nat⟩⟩

/-- A command of the test chain: without the chain it fails. -/
theorem unaware_ownCommand {f : FwTable → Option FwTable}
    (hf : Invisible (Table.Obeys (MangleRule env te)) (Table.without .wztest) f)
    (hfails : ∀ t, f (Table.without .wztest t) = none) (hrec : ∀ t, ∀ t' ∈ f t, Recedes t t') :
    Unaware env te (discard (ipt .mangle f)) := by
  constructor
  · refine mirrors_discard_invoke (invisible_mangle hf) fun h _ v hv => ?_
    change v ∈ (f (Table.without .wztest h.mangle)).map _ at hv
    rw [hfails] at hv
    cases hv
  · refine moves_bind (moves_invoke fun h hh h' hh' => ?_) fun _ => moves_pure ()
    refine ⟨(invisible_mangle hf h hh h' hh').2, ?_⟩
    obtain ⟨t, ht, rfl⟩ := Option.map_eq_some_iff.mp hh'
    exact hrec h.mangle t ht

/-- The live firewall may remove what a test has left. -/
theorem unaware_removeTest : Unaware env te removeTest := by
  refine unaware_bind (unaware_ownCommand (Table.invisible_delete (by decide) rfl)
    (Table.delete_without (by decide) rfl) fun _ _ => recedes_delete (by decide)) fun _ => ?_
  refine unaware_bind (unaware_ownCommand Table.invisible_flush
    (Table.flush_without _) fun _ _ => recedes_flush_wztest) fun _ => ?_
  exact unaware_ownCommand Table.invisible_deleteChain (Table.deleteChain_without _)
    fun _ _ => recedes_deleteChain (by decide)

theorem unaware_removeRouting : Unaware env te (removeRouting env) :=
  unaware_bind (unaware_discard (unaware_ruleDel ..)) fun _ =>
    unaware_bind (unaware_discard (unaware_ruleDel ..)) fun _ =>
    unaware_bind (unaware_discard (unaware_routeDel _)) fun _ => unaware_discard unaware_some

theorem unaware_fwFlush : Unaware env te (fwFlush env) :=
  unaware_bind unaware_removeLive fun _ =>
    unaware_bind unaware_removeTest fun _ => unaware_removeRouting

theorem unaware_run (k : Kernel) (run : FwRun) : Unaware env te (run.program k env) := by
  cases run with
  | start r => exact unaware_fwApply k r.mode r.strategy
  | stop => exact unaware_fwFlush

theorem unaware_gateway (k : Kernel) (runs : List FwRun) : Unaware env te (gateway k env runs) := by
  induction runs with
  | nil => exact unaware_pure ()
  | cons run runs ih => exact unaware_bind (unaware_run k run) fun _ => ih

end Live

/-! ## The tests -/

section Hidden

variable {env : Env} {te : TestEnv}

abbrev Unseen (env : Env) (te : TestEnv) {α : Type} (p : Commands Host α) : Prop :=
  Hidden (Regular env te) Host.withoutTest p

theorem unseen_ipt {f : FwTable → Option FwTable}
    (hf : Invisible (Table.Obeys (MangleRule env te)) (Table.without .wztest) f) :
    Unseen env te (ipt .mangle f) := hidden_invoke (invisible_mangle hf)

theorem unseen_removeTest : Unseen env te removeTest := by
  refine hidden_bind (hidden_discard (unseen_ipt (Table.invisible_delete (by decide) rfl)))
    fun _ => ?_
  exact hidden_bind (hidden_discard (unseen_ipt Table.invisible_flush)) fun _ =>
    hidden_discard (unseen_ipt Table.invisible_deleteChain)

theorem mangleRule_wztest {r : FwRule} (hr : TestOnly te r) : MangleRule env te .wztest r := by
  have hjump (d : Chain) : r.target ≠ .jump d := by
    rcases hr with hret | ⟨-, hqueue⟩
    · simp [hret]
    · simp [hqueue]
  exact ⟨fun d hd => absurd hd (hjump d), fun h => absurd h (hjump _), fun _ => hr,
    fun h => absurd rfl h⟩

theorem mangleRule_wztestJump : MangleRule env te .output wztestJump where
  down d hd := by
    cases hd
    decide
  hook _ := ⟨rfl, rfl⟩
  test h := by cases h
  live _ q hq := by cases hq

theorem unseen_append {r : FwRule} (hr : TestOnly te r) :
    Unseen env te (discard (ipt .mangle (Table.append .wztest r))) :=
  hidden_discard (unseen_ipt (Table.invisible_append (mangleRule_wztest hr)))

theorem testOnly_testRule (proto ports : String) : TestOnly te (testRule te proto ports) :=
  .inr ⟨by simp [testRule], rfl⟩

theorem unseen_installRules (sid : String) : Unseen env te (installRules env te sid) := by
  have hjump : Unseen env te (discard (ipt .mangle (Table.insert .output 1 wztestJump))) :=
    hidden_discard (unseen_ipt (Table.invisible_insert (by decide) mangleRule_wztestJump rfl 1))
  refine hidden_bind ?_ fun _ => hidden_bind (unseen_append (.inl rfl)) fun _ =>
    hidden_bind (unseen_append (.inl rfl)) fun _ => ?_
  · refine hidden_bind (unseen_ipt Table.invisible_newChain) fun b => ?_
    cases b with
    | true => exact hidden_pure ()
    | false => exact hidden_discard (unseen_ipt Table.invisible_flush)
  · split
    · exact hidden_bind (unseen_append (testOnly_testRule ..)) fun _ =>
        hidden_bind (unseen_append (testOnly_testRule ..)) fun _ => hjump
    · exact hjump

theorem unseen_testRun (r : TestRun) : Unseen env te (r.program env te) := by
  refine hidden_bind unseen_removeTest fun _ => ?_
  split
  · exact hidden_bind (unseen_installRules r.sid) fun _ => unseen_removeTest
  · exact unseen_removeTest

end Hidden

/-! ## The two together -/

section Together

variable {k : Kernel} {env : Env} {te : TestEnv}

theorem withoutTest_empty : Host.empty.withoutTest = Host.empty := by
  have hmangle : Table.without .wztest Host.empty.mangle = Host.empty.mangle := by
    funext c
    cases c <;> rfl
  exact congrArg (fun m => { Host.empty with mangle := m }) hmangle

/-- A packet of another user passes through the test chain. -/
theorem path_withoutTest {h : Host} (hh : Regular env te h) {p : Packet}
    (hp : p.sat (.uidOwner te.uid) = false) : h.withoutTest.path p = h.path p := by
  have hdown : Table.Obeys JumpsDown h.mangle := fun c rs hrs r hr =>
    (hh.mangle c rs hrs r hr).down
  have hmangle : FwTable.outcome (Table.without .wztest h.mangle) p = h.mangle.outcome p := by
    refine Table.walk_without (fun rs hrs r hr => ?_) (by decide) (FwTable.outcome_ne_tooDeep hdown p)
    rcases (hh.mangle _ rs hrs r hr).test rfl with hret | ⟨howner, hqueue⟩
    · exact ⟨_, hret, fun _ => rfl⟩
    · refine ⟨_, hqueue, fun hsat => ?_⟩
      rw [List.all_eq_true.mp hsat _ howner] at hp
      cases hp
  exact congrArg (fun o => (⟨o, h.nat.outcome p, h.device p⟩ : Path)) hmangle

/-- The tests are runs of `wz-test.sh`. -/
def Tests (env : Env) (te : TestEnv) (turns : List (Turn Host Unit)) : Prop :=
  ∀ q, .restart q ∈ turns → ∃ r : TestRun, q = r.program env te

theorem regular_together {runs : List FwRun} {test : TestRun} {turns : List (Turn Host Unit)}
    {last : Pair Host Unit Unit} (htests : Tests env te turns)
    (hrun : (together Host Unit Unit).run
      ⟨Host.empty, gateway k env runs, test.program env te⟩ turns = some last) :
    Regular env te last.state ∧ ∃ alone,
      (gateway k env runs).runFor (firstFaults turns) Host.empty =
        some (alone, last.state.withoutTest) ∧
      Mirrors (Regular env te) Host.withoutTest last.first alone := by
  have hrestart (q : Commands Host Unit) (hq : .restart q ∈ turns) : Unseen env te q := by
    obtain ⟨r, rfl⟩ := htests q hq
    exact unseen_testRun r
  have h := view_of_run (unaware_gateway k runs).mirrors (unseen_testRun test) hrestart
    (regular_empty env te) hrun
  rwa [withoutTest_empty] at h

/-- **Tests do not touch the gateway.** The host without the test chain is what `wz-fw.sh` makes alone,
and packets of other users go the same way. -/
theorem gateway_unaffected (runs : List FwRun) (test : TestRun) {turns : List (Turn Host Unit)}
    {last : Pair Host Unit Unit} (htests : Tests env te turns)
    (hrun : (together Host Unit Unit).run
      ⟨Host.empty, gateway k env runs, test.program env te⟩ turns = some last) :
    ∃ alone h, (gateway k env runs).runFor (firstFaults turns) Host.empty = some (alone, h) ∧
      last.state.withoutTest = h ∧ (∀ a, last.first = .ret a → alone = .ret a) ∧
      ∀ p : Packet, p.sat (.uidOwner te.uid) = false → last.state.path p = h.path p := by
  obtain ⟨hregular, alone, halone, hmirrors⟩ := regular_together htests hrun
  refine ⟨alone, _, halone, rfl, fun a ha => ?_, fun p hp => (path_withoutTest hregular hp).symm⟩
  rw [ha] at hmirrors
  cases alone with
  | ret b =>
    cases hmirrors
    rfl
  | cmd f k => exact hmirrors.elim

/-- A new connection of a user to a web server satisfies these conditions. -/
def webSat (uid : Nat) : Cond → Bool
  | .proto p => p == "tcp"
  | .uidOwner u => u == uid
  | .dports ps => ps == "80,443"
  | .notMark _ => true
  | .connbytesOriginalPackets _ => true
  | _ => false

theorem webSat_owner (uid u v : Nat) (hu : webSat uid (.uidOwner u) = true)
    (hv : webSat uid (.uidOwner v) = true) : u = v :=
  (beq_iff_eq.mp hu).trans (beq_iff_eq.mp hv).symm

theorem webSat_proto (uid : Nat) (p q : String) (hp : webSat uid (.proto p) = true)
    (hq : webSat uid (.proto q) = true) : p = q :=
  (beq_iff_eq.mp hp).trans (beq_iff_eq.mp hq).symm

theorem webSat_notMark (uid : Nat) (m : String) :
    webSat uid (.notMark m) = !webSat uid (.mark m) := rfl

def webPacket (uid : Nat) : Packet :=
  ⟨webSat uid, webSat_notMark uid, webSat_owner uid, webSat_proto uid⟩

/-- `TEST_UID` and `QNUM_TEST` of the container. -/
def defaultTestEnv : TestEnv := ⟨2003, "212"⟩

/-- A test starts while `wz-fw.sh start` does. -/
theorem gateway_unaffected_example : ∃ last,
    (together Host Unit Unit).run
        ⟨Host.empty, gateway ⟨true⟩ defaultEnv [.start ⟨.direct, "standard"⟩],
          TestRun.program defaultEnv defaultTestEnv ⟨"standard", true⟩⟩
        [.first false, .second false, .second true, .second false, .first false, .second false] =
      some last ∧
    ∃ alone h,
      (gateway ⟨true⟩ defaultEnv [.start ⟨.direct, "standard"⟩]).runFor [false, false] Host.empty =
        some (alone, h) ∧
      last.state.withoutTest = h ∧ (∀ a, last.first = .ret a → alone = .ret a) ∧
      ∀ p : Packet, p.sat (.uidOwner 2003) = false → last.state.path p = h.path p := by
  have htests : Tests defaultEnv defaultTestEnv
      [.first false, .second false, .second true, .second false, .first false, .second false] := by
    intro q hq
    simp at hq
  exact ⟨_, rfl, gateway_unaffected [.start ⟨.direct, "standard"⟩] ⟨"standard", true⟩ htests rfl⟩

/-- **Who is queued.** Whatever commands fail, a packet that is queued is the test user's in the test's
queue, or one of the proxy or the exit user in the live queue that nfqws has not sent on yet. -/
theorem queued_by_owner (runs : List FwRun) (test : TestRun) {turns : List (Turn Host Unit)}
    {last : Pair Host Unit Unit} (htests : Tests env te turns)
    (hrun : (together Host Unit Unit).run
      ⟨Host.empty, gateway k env runs, test.program env te⟩ turns = some last)
    {p : Packet} {q : String} (hqueued : last.state.mangle.outcome p = .decided (.nfqueueBypass q)) :
    p.sat (.uidOwner te.uid) = true ∧ q = te.qnum ∨
      (p.sat (.uidOwner env.uidProxy) = true ∨ p.sat (.uidOwner env.uidExit) = true) ∧
        p.sat (.mark (env.desyncMark ++ "/" ++ env.desyncMark)) = false ∧ q = env.qnumTcp := by
  obtain ⟨c, rs, hrs, r, hr, hv, hsat⟩ := Table.rule_of_decided hqueued
  have hrule := (regular_together htests hrun).1.mangle c rs hrs r hr
  have hall := List.all_eq_true.mp hsat
  by_cases hc : c = .wztest
  · rcases hrule.test hc with hret | ⟨howner, hqueue⟩
    · rw [hv] at hret
      cases hret
    · rw [hv] at hqueue
      cases hqueue
      exact .inl ⟨hall _ howner, rfl⟩
  · have hlive := hrule.live hc q hv
    have hnot := hall _ hlive.unmarked
    rw [p.notMark, Bool.not_eq_true'] at hnot
    exact .inr ⟨hlive.owner.imp (hall _) (hall _), hnot, hlive.queue⟩

/-- Once a test has its rules, the test user's packets are queued for it. -/
theorem queued_by_owner_example : ∃ last,
    (together Host Unit Unit).run
        ⟨Host.empty, gateway ⟨true⟩ defaultEnv [],
          TestRun.program defaultEnv defaultTestEnv ⟨"standard", true⟩⟩
        (List.replicate 9 (.second false)) = some last ∧
    last.state.mangle.outcome (webPacket 2003) = .decided (.nfqueueBypass "212") ∧
    ((webPacket 2003).sat (.uidOwner 2003) = true ∧ "212" = defaultTestEnv.qnum ∨
      ((webPacket 2003).sat (.uidOwner 1001) = true ∨ (webPacket 2003).sat (.uidOwner 1002) = true) ∧
        (webPacket 2003).sat (.mark (defaultEnv.desyncMark ++ "/" ++ defaultEnv.desyncMark)) = false ∧
        "212" = defaultEnv.qnumTcp) := by
  have htests : Tests defaultEnv defaultTestEnv (List.replicate 9 (.second false)) := by
    intro q hq
    simp at hq
  have hqueued : ∀ last, (together Host Unit Unit).run
      ⟨Host.empty, gateway ⟨true⟩ defaultEnv [],
        TestRun.program defaultEnv defaultTestEnv ⟨"standard", true⟩⟩
      (List.replicate 9 (.second false)) = some last →
      last.state.mangle.outcome (webPacket 2003) = .decided (.nfqueueBypass "212") := by
    rintro last ⟨⟩
    decide +kernel
  exact ⟨_, rfl, hqueued _ rfl, queued_by_owner [] ⟨"standard", true⟩ htests rfl (hqueued _ rfl)⟩

end Together

end Stepwise

end WebZapret
