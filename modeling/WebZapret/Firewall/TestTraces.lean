import WebZapret.Firewall.BesideTests

/-!
# What tests leave behind

A test that is killed leaves its chain and its jump, and the next one removes them first. It deletes one
jump only; there is never a second one, since a test inserts it after it has deleted the one that may be
there, as long as no command of a test fails. So once a test has ended, however many were killed before
it and whatever `wz-fw.sh` does meanwhile, the host is as if no test had been there
(`tests_leave_nothing`).
-/

namespace WebZapret

open Commands

namespace Stepwise

variable {k : Kernel} {env : Env} {te : TestEnv}

/-! ## The assertions -/

/-- A test may start. -/
def MayStart (t : FwTable) : Prop := testJumps t ≤ 1

def Unhooked (t : FwTable) : Prop := testJumps t = 0

def Flushed (t : FwTable) : Prop :=
  testJumps t = 0 ∧ (t .wztest = none ∨ t .wztest = some [])

def Gone (t : FwTable) : Prop := testJumps t = 0 ∧ t .wztest = none

/-- An assertion on the mangle table that the live firewall does not disturb. -/
abbrev Asserts (env : Env) (te : TestEnv) (P : FwTable → Prop) : Prop :=
  Assertion (Regular env te) (fun h h' => Recedes h.mangle h'.mangle) (fun h => MayStart h.mangle)
    fun h => P h.mangle

theorem asserts_mayStart : Asserts env te MayStart where
  stable _ _ _ _ h hrec := Nat.le_trans hrec.jumps h
  start _ _ h := h

theorem asserts_unhooked : Asserts env te Unhooked where
  stable _ _ _ _ h hrec := Nat.le_zero.mp (h ▸ hrec.jumps)
  start _ _ h := Nat.le_of_lt_succ (by rw [h]; decide)

theorem asserts_flushed : Asserts env te Flushed where
  stable h h' _ _ hP hrec := by
    refine ⟨Nat.le_zero.mp (hP.1 ▸ hrec.jumps), ?_⟩
    rcases hrec.chain with heq | ⟨-, heq⟩ | heq
    · rw [heq]
      exact hP.2
    · exact .inr heq
    · exact .inl heq
  start _ _ h := Nat.le_of_lt_succ (by rw [h.1]; decide)

theorem asserts_gone : Asserts env te Gone where
  stable h h' _ _ hP hrec := by
    refine ⟨Nat.le_zero.mp (hP.1 ▸ hrec.jumps), ?_⟩
    rcases hrec.chain with heq | ⟨hne, -⟩ | heq
    · rw [heq]
      exact hP.2
    · exact absurd hP.2 hne
    · exact heq
  start _ _ h := Nat.le_of_lt_succ (by rw [h.1]; decide)

/-! ## The commands of a test -/

abbrev Outlines (env : Env) (te : TestEnv) (P : FwTable → Prop) (p : Commands Host Unit)
    (Q : FwTable → Prop) : Prop :=
  Outline (Regular env te) (fun h h' => Recedes h.mangle h'.mangle) (fun h => MayStart h.mangle)
    (fun h => P h.mangle) p fun _ h => Q h.mangle

variable {P Q M : FwTable → Prop} {f : FwTable → Option FwTable}

theorem outlines_bind {p q : Commands Host Unit} (hp : Outlines env te P p M)
    (hq : Outlines env te M q Q) : Outlines env te P (p >>= fun _ => q) Q :=
  outline_bind hp fun _ => hq

theorem outline_ipt (hinv : Invisible (Table.Obeys (MangleRule env te)) (Table.without .wztest) f)
    (hM : Asserts env te M)
    (hf : ∀ t, Table.Obeys (MangleRule env te) t → P t → (∀ t' ∈ f t, M t') ∧ (f t = none → M t)) :
    Outline (Regular env te) (fun h h' => Recedes h.mangle h'.mangle) (fun h => MayStart h.mangle)
      (fun h => P h.mangle) (ipt .mangle f) fun _ h => M h.mangle := by
  refine outline_invoke hM fun h hh hP => ⟨fun h' hh' => ?_, fun hnone => ?_⟩
  · refine ⟨(invisible_mangle hinv h hh h' hh').2, ?_⟩
    obtain ⟨t, ht, rfl⟩ := Option.map_eq_some_iff.mp hh'
    exact (hf h.mangle hh.mangle hP).1 t ht
  · exact (hf h.mangle hh.mangle hP).2 (Option.map_eq_none_iff.mp hnone)

theorem outlines_ipt (hinv : Invisible (Table.Obeys (MangleRule env te)) (Table.without .wztest) f)
    (hM : Asserts env te M)
    (hf : ∀ t, Table.Obeys (MangleRule env te) t → P t → (∀ t' ∈ f t, M t') ∧ (f t = none → M t)) :
    Outlines env te P (discard (ipt .mangle f)) M := outline_discard (outline_ipt hinv hM hf)

/-- The first jump goes, and there was one at most. -/
theorem outlines_unhook :
    Outlines env te MayStart (discard (ipt .mangle (Table.delete .output wztestJump))) Unhooked := by
  refine outlines_ipt (Table.invisible_delete (by decide) rfl) asserts_unhooked fun t _ ht => ?_
  unfold Table.delete
  cases ho : t .output with
  | none => exact ⟨by simp, fun _ => by simp [Unhooked, testJumps, ho]⟩
  | some l =>
    have hcount : l.count wztestJump ≤ 1 := by simpa [MayStart, testJumps, ho] using ht
    by_cases hmem : wztestJump ∈ l
    · refine ⟨fun t' ht' => ?_, by simp [hmem]⟩
      simp only [hmem, if_true] at ht'
      cases ht'
      rw [Unhooked, testJumps, Table.set_same, Option.getD_some, List.count_erase_self]
      omega
    · refine ⟨by simp [hmem], fun _ => ?_⟩
      rw [Unhooked, testJumps, ho, Option.getD_some, List.count_eq_zero]
      exact hmem

theorem testJumps_set {c : Chain} (hc : c ≠ .output) (rs : List FwRule) (t : FwTable) :
    testJumps (t.set c rs) = testJumps t := by
  rw [testJumps, testJumps, Table.set_ne hc.symm]

theorem outlines_flush :
    Outlines env te Unhooked (discard (ipt .mangle (Table.flush .wztest))) Flushed := by
  refine outlines_ipt Table.invisible_flush asserts_flushed fun t _ ht => ?_
  unfold Table.flush
  cases hc : t .wztest with
  | none => exact ⟨by simp, fun _ => ⟨ht, .inl hc⟩⟩
  | some l =>
    refine ⟨fun t' ht' => ?_, by simp⟩
    cases ht'
    exact ⟨(testJumps_set (by decide) _ _).trans ht, .inr (Table.set_same ..)⟩

/-- Where `OUTPUT` has no jump to the test chain, nothing has. -/
theorem unreferenced_wztest {t : FwTable} (hobeys : Table.Obeys (MangleRule env te) t)
    (ht : testJumps t = 0) : t.Unreferenced .wztest := by
  intro c rs hrs r hr hj
  obtain ⟨rfl, rfl⟩ := (hobeys c rs hrs r hr).hook hj
  rw [testJumps, Option.mem_def.mp hrs, Option.getD_some, List.count_eq_zero] at ht
  exact ht hr

theorem outlines_deleteChain :
    Outlines env te Flushed (discard (ipt .mangle (Table.deleteChain .wztest))) Gone := by
  refine outlines_ipt Table.invisible_deleteChain asserts_gone fun t hobeys ht => ?_
  have hfree := unreferenced_wztest hobeys ht.1
  unfold Table.deleteChain
  constructor
  · intro t' ht'
    split at ht'
    · cases ht'
      refine ⟨?_, Function.update_self ..⟩
      rw [testJumps, Function.update_of_ne (by decide)]
      exact ht.1
    · cases ht'
  · intro hnone
    refine ⟨ht.1, ht.2.resolve_right fun hempty => ?_⟩
    rw [if_pos ⟨hempty, hfree⟩] at hnone
    cases hnone

theorem outlines_removeTest : Outlines env te MayStart removeTest Gone :=
  outlines_bind outlines_unhook (outlines_bind outlines_flush outlines_deleteChain)

theorem outlines_append {r : FwRule} (hr : TestOnly te r) :
    Outlines env te Unhooked (discard (ipt .mangle (Table.append .wztest r))) Unhooked := by
  refine outlines_ipt (Table.invisible_append (mangleRule_wztest hr)) asserts_unhooked
    fun t _ ht => ⟨fun t' ht' => ?_, fun _ => ht⟩
  unfold Table.append at ht'
  split at ht'
  · cases ht'
  · split at ht'
    · cases ht'
      exact (testJumps_set (by decide) _ _).trans ht
    · cases ht'

theorem outlines_hook : Outlines env te Unhooked
    (discard (ipt .mangle (Table.insert .output 1 wztestJump))) MayStart := by
  refine outlines_ipt (Table.invisible_insert (by decide) mangleRule_wztestJump rfl 1)
    asserts_mayStart fun t _ ht => ⟨fun t' ht' => ?_, fun _ => Nat.le_of_lt_succ (by rw [ht]; decide)⟩
  unfold Table.insert at ht'
  split at ht'
  · cases ht'
  · rename_i l hl
    split at ht'
    · cases ht'
      rw [Unhooked, testJumps, hl, Option.getD_some] at ht
      simp [MayStart, testJumps, ht]
    · cases ht'

theorem outlines_installRules (sid : String) :
    Outlines env te Unhooked (installRules env te sid) MayStart := by
  have hmake : Outlines env te Unhooked (makeChain .mangle .wztest) Unhooked := by
    have hset {t : FwTable} (ht : Unhooked t) (rs : List FwRule) : Unhooked (t.set .wztest rs) :=
      (testJumps_set (by decide) _ _).trans ht
    refine outline_bind (outline_ipt (P := Unhooked) (M := Unhooked) Table.invisible_newChain
      asserts_unhooked fun t _ ht => ⟨fun t' ht' => ?_, fun _ => ht⟩) fun b => ?_
    · unfold Table.newChain at ht'
      split at ht'
      · cases ht'
        exact hset ht _
      · cases ht'
    · cases b with
      | true => exact outline_pure fun _ _ h => h
      | false =>
        refine outlines_ipt Table.invisible_flush asserts_unhooked
          fun t _ ht => ⟨fun t' ht' => ?_, fun _ => ht⟩
        unfold Table.flush at ht'
        split at ht'
        · cases ht'
        · cases ht'
          exact hset ht _
  refine outlines_bind hmake (outlines_bind (outlines_append (.inl rfl))
    (outlines_bind (outlines_append (.inl rfl)) ?_))
  split
  · exact outlines_bind (outlines_append (testOnly_testRule ..))
      (outlines_bind (outlines_append (testOnly_testRule ..)) outlines_hook)
  · exact outlines_hook

theorem outlines_testRun (r : TestRun) : Outlines env te MayStart (r.program env te) Gone := by
  refine outlines_bind outlines_removeTest ?_
  have hgone (h : Host) (_ : Regular env te h) (hP : Gone h.mangle) : Unhooked h.mangle := hP.1
  split
  · exact outlines_bind (outline_pre hgone (outlines_installRules r.sid)) outlines_removeTest
  · exact outline_pre (fun h hh hP => asserts_gone.start h hh hP) outlines_removeTest

/-! ## The host after a test -/

theorem withoutTest_of_gone {h : Host} (hh : Regular env te h) (hgone : Gone h.mangle) :
    h.withoutTest = h := by
  have hmangle : Table.without .wztest h.mangle = h.mangle := by
    funext c
    by_cases hc : c = .wztest
    · subst hc
      rw [Table.without_same, hgone.2]
    · rw [Table.without_ne hc]
      cases hrs : h.mangle c with
      | none => rfl
      | some rs =>
        rw [Option.map_some, List.filter_eq_self.mpr]
        exact fun r hr => decide_eq_true (unreferenced_wztest hh.mangle hgone.1 c rs hrs r hr)
  exact congrArg (fun m => { h with mangle := m }) hmangle

/-- **Tests leave nothing behind.** Once a test has ended, the host is what `wz-fw.sh` makes alone, even
if other tests have been killed before, as long as the tests' own commands do not fail. -/
theorem tests_leave_nothing (runs : List FwRun) (test : TestRun) {turns : List (Turn Host Unit)}
    {last : Pair Host Unit Unit} (htests : Tests env te turns) (hfaults : .second true ∉ turns)
    (hrun : (together Host Unit Unit).run
      ⟨Host.empty, gateway k env runs, test.program env te⟩ turns = some last)
    (hdone : last.second = .ret ()) :
    ∃ alone, (gateway k env runs).runFor (firstFaults turns) Host.empty = some (alone, last.state) := by
  obtain ⟨hregular, alone, halone, -⟩ := regular_together htests hrun
  have hrestart (q : Commands Host Unit) (hq : .restart q ∈ turns) :
      Outlines env te MayStart q Gone := by
    obtain ⟨r, rfl⟩ := htests q hq
    exact outlines_testRun r
  obtain ⟨-, -, hend⟩ := outline_run (unaware_gateway k runs).moves asserts_mayStart
    (outlines_testRun test) asserts_mayStart hrestart hfaults (regular_empty env te)
    (Nat.zero_le 1) hrun
  rw [withoutTest_of_gone hregular (hend () hdone)] at halone
  exact ⟨alone, halone⟩

/-- A test is killed once its jump is in, and the next one ends before it has rules of its own. -/
theorem tests_leave_nothing_example : ∃ last,
    (together Host Unit Unit).run
        ⟨Host.empty, gateway ⟨true⟩ defaultEnv [.stop],
          TestRun.program defaultEnv defaultTestEnv ⟨"none", true⟩⟩
        (List.replicate 7 (.second false) ++
          .restart (TestRun.program defaultEnv defaultTestEnv ⟨"none", false⟩) ::
          List.replicate 6 (.second false)) = some last ∧
    last.second = .ret () ∧
    ∃ alone, (gateway ⟨true⟩ defaultEnv [.stop]).runFor [] Host.empty = some (alone, last.state) := by
  have htests : Tests defaultEnv defaultTestEnv (List.replicate 7 (.second false) ++
      .restart (TestRun.program defaultEnv defaultTestEnv ⟨"none", false⟩) ::
      List.replicate 6 (.second false)) := by
    intro q hq
    simp at hq
    exact ⟨_, hq⟩
  have hfaults : .second true ∉ (List.replicate 7 (.second false) ++
      .restart (TestRun.program defaultEnv defaultTestEnv ⟨"none", false⟩) ::
      List.replicate 6 (.second false) : List (Turn Host Unit)) := by
    simp
  exact ⟨_, rfl, rfl, tests_leave_nothing [.stop] ⟨"none", true⟩ htests hfaults rfl rfl⟩

end Stepwise

end WebZapret
