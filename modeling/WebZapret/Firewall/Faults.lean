import WebZapret.Firewall.History

/-!
# A firewall start whose commands fail

`wz-fw.sh start` ignores the exit status of almost all of its commands. What a start leaves is
therefore a matter of which of them met a fault: a chain that is not flushed keeps its old rules, and
a rule whose command fails is not added (`fwApplyCase_runs`). The rules that a mode and a strategy
need are there exactly under `StartFits` (`installed_iff`).
-/

namespace WebZapret

open Script

/-- The rules of a chain. -/
def Table.rules (t : FwTable) (c : Chain) : List FwRule := (t c).getD []

@[simp] theorem Host.withTable_table (h : Host) (T : TableName) :
    h.withTable T (h.table T) = h := by
  cases T <;> rfl

@[simp] theorem Host.withTable_withTable (h : Host) (T : TableName) (t t' : FwTable) :
    (h.withTable T t).withTable T t' = h.withTable T t' := by
  cases T <;> rfl

/-! ## Commands -/

section Commands

variable {h : Host} {T : TableName} {g : Nat → Bool} {c : Chain} {r : FwRule}

theorem ipt_runs (h : Host) (T : TableName) (f : FwTable → Option FwTable) (g : Nat → Bool) :
    Runs (ipt T f) h g (!g 0 && (f (h.table T)).isSome)
      (h.withTable T (attempt (g 0) f (h.table T))) 1 := by
  have hstate : attempt (g 0) (fun h => (f (h.table T)).map (h.withTable T)) h =
      h.withTable T (attempt (g 0) f (h.table T)) := by
    cases hg : g 0 with
    | true => simp [attempt]
    | false => cases hf : f (h.table T) <;> simp [attempt, hf]
  have hruns := runs_cmd (fun h : Host => (f (h.table T)).map (h.withTable T)) h g
  rw [hstate, Option.isSome_map] at hruns
  exact hruns

theorem attempt_append (b : Bool) {t : FwTable} (hr : t.Resolves r) :
    attempt b (Table.append c r) t = t.mapChain c fun l => if b then l else l ++ [r] := by
  cases b with
  | true => simp [attempt]
  | false =>
    cases hc : t c with
    | none => funext d; by_cases hd : d = c <;> simp [attempt, Table.append, hc, hd]
    | some l => simp [attempt, Table.append, hc, hr, Table.mapChain, Table.set]

/-- Inserting as the first or the second rule. -/
def insertAt (n : Nat) (r : FwRule) (l : List FwRule) : List FwRule :=
  if n ≤ l.length + 1 then l.take (n - 1) ++ r :: l.drop (n - 1) else l

theorem attempt_insert (b : Bool) {t : FwTable} (hr : t.Resolves r) {n : Nat} (hn : 1 ≤ n) :
    attempt b (Table.insert c n r) t = t.mapChain c fun l => if b then l else insertAt n r l := by
  cases b with
  | true => simp [attempt]
  | false =>
    cases hc : t c with
    | none => funext d; by_cases hd : d = c <;> simp [attempt, Table.insert, hc, hd]
    | some l =>
      by_cases hl : n ≤ l.length + 1
      · simp [attempt, Table.insert, hc, hr, hn, hl, Table.mapChain, Table.set, insertAt]
      · have hself : Function.update t c (some l) = t := by rw [← hc, Function.update_eq_self]
        simp [attempt, Table.insert, hc, hl, Table.mapChain, insertAt, hself]

/-- An insertion changes no other chain. -/
theorem attempt_insert_ne (b : Bool) {t : FwTable} {n : Nat} {d : Chain} (hd : d ≠ c) :
    attempt b (Table.insert c n r) t d = t d := by
  unfold attempt Table.insert
  cases b with
  | true => rfl
  | false =>
    cases t c with
    | none => rfl
    | some l =>
      by_cases hr : t.Resolves r ∧ 1 ≤ n ∧ n ≤ l.length + 1
      · simp [hr, hd]
      · simp [hr]

theorem attempt_append_ne (b : Bool) {t : FwTable} {d : Chain} (hd : d ≠ c) :
    attempt b (Table.append c r) t d = t d := by
  unfold attempt Table.append
  cases b with
  | true => rfl
  | false =>
    cases t c with
    | none => rfl
    | some l => by_cases hr : t.Resolves r <;> simp [hr, hd]

theorem attempt_delete_ne (b : Bool) {t : FwTable} {d : Chain} (hd : d ≠ c) :
    attempt b (Table.delete c r) t d = t d := by
  unfold attempt Table.delete
  cases b with
  | true => rfl
  | false =>
    cases t c with
    | none => rfl
    | some l => by_cases hr : r ∈ l <;> simp [hr, hd]

theorem attempt_insert_unresolved (b : Bool) {t : FwTable} (hr : ¬t.Resolves r) (n : Nat) :
    attempt b (Table.insert c n r) t = t := by
  unfold attempt Table.insert
  cases b <;> cases t c <;> simp [hr]

theorem attempt_check (b : Bool) (t : FwTable) : attempt b (Table.check c r) t = t := by
  unfold attempt Table.check
  cases b with
  | true => rfl
  | false =>
    cases t c with
    | none => rfl
    | some l => by_cases hr : r ∈ l <;> simp [hr]

theorem mem_insertAt {n : Nat} {r' : FwRule} {l : List FwRule} :
    r' ∈ insertAt n r l ↔ r' ∈ l ∨ r' = r ∧ n ≤ l.length + 1 := by
  unfold insertAt
  by_cases hn : n ≤ l.length + 1
  · have hsplit : r' ∈ l ↔ r' ∈ l.take (n - 1) ∨ r' ∈ l.drop (n - 1) := by
      rw [← List.mem_append, List.take_append_drop]
    rw [if_pos hn, List.mem_append, List.mem_cons, hsplit]
    tauto
  · rw [if_neg hn]
    simp [hn]

end Commands

/-! ## Making a chain -/

section Chains

variable {h : Host} {T : TableName} {g : Nat → Bool} {c : Chain} {r : FwRule}

/-- The command that has to leave the chain empty fails: `-N`, or `-F` when the chain is there. -/
def notEmptied (t : FwTable) (c : Chain) (g : Nat → Bool) : Bool :=
  if (t c).isSome then g 1 else g 0

/-- How many commands `-N c || -F c` are. -/
def makeCost (t : FwTable) (c : Chain) (g : Nat → Bool) : Nat :=
  if (t c).isSome || g 0 then 2 else 1

/-- The rules that the chain has then, if it is there. -/
def madeRules (t : FwTable) (c : Chain) (g : Nat → Bool) : Option (List FwRule) :=
  if notEmptied t c g then t c else some []

theorem makeChain_runs (h : Host) (T : TableName) (c : Chain) (g : Nat → Bool) :
    Runs (makeChain T c) h g ()
      (h.withTable T (Function.update (h.table T) c (madeRules (h.table T) c g)))
      (makeCost (h.table T) c g) := by
  have hnew := ipt_runs h T (Table.newChain c) g
  unfold makeChain
  cases hc : h.table T c with
  | none =>
    cases hg : g 0 with
    | false =>
      have hcost : makeCost (h.table T) c g = 1 + 0 := by simp [makeCost, hc, hg]
      have hmade : madeRules (h.table T) c g = some [] := by simp [madeRules, notEmptied, hc, hg]
      rw [hcost, hmade]
      refine runs_bind hnew ?_
      simp only [hg, hc, attempt, Table.newChain, Table.set]
      exact runs_pure () _ _
    | true =>
      have hcost : makeCost (h.table T) c g = 1 + 1 := by simp [makeCost, hg]
      have hmade : madeRules (h.table T) c g = h.table T c := by
        simp [madeRules, notEmptied, hc, hg]
      rw [hcost, hmade, Function.update_eq_self]
      refine runs_bind hnew ?_
      simp only [hg, attempt, Bool.not_true, Bool.false_and, if_true, Host.withTable_table]
      have hflush := runs_discard (ipt_runs h T (Table.flush c) (later 1 g))
      simpa [attempt, Table.flush, hc] using hflush
  | some l =>
    have hcost : makeCost (h.table T) c g = 1 + 1 := by simp [makeCost, hc]
    have hmade : madeRules (h.table T) c g = if g 1 then some l else some [] := by
      simp [madeRules, notEmptied, hc]
    rw [hcost, hmade]
    refine runs_bind hnew ?_
    have hself : Function.update (h.table T) c (some l) = h.table T := by
      rw [← hc, Function.update_eq_self]
    have hflush := runs_discard (ipt_runs h T (Table.flush c) (later 1 g))
    cases hg : g 1 with
    | true => simpa [attempt, Table.newChain, hc, hg, hself] using hflush
    | false => simpa [attempt, Table.newChain, Table.flush, Table.set, hc, hg] using hflush

/-- The jump to a chain is one of the first rules of `OUTPUT`, or is put there; `n` commands have run
before. -/
def Hooked (t : FwTable) (c : Chain) (g : Nat → Bool) : Prop :=
  ⟨[], .jump c⟩ ∈ t.rules .output ∨
    (t .output).isSome ∧ (madeRules t c g).isSome ∧ g (makeCost t c g + 1) = false

/-- How many commands make the chain and its hook. -/
def openCost (t : FwTable) (c : Chain) (g : Nat → Bool) : Nat :=
  makeCost t c g +
    if decide (⟨[], .jump c⟩ ∈ t.rules .output) && !g (makeCost t c g) then 1 else 2

theorem hookOutput_runs (h : Host) (T : TableName) (r : FwRule) (g : Nat → Bool) :
    ∃ t, Runs (hookOutput T r) h g () (h.withTable T t)
        (if decide (r ∈ (h.table T).rules .output) && !g 0 then 1 else 2) ∧
      (r ∈ t.rules .output ↔ r ∈ (h.table T).rules .output ∨
        (h.table T .output).isSome ∧ (h.table T).Resolves r ∧ g 1 = false) ∧
      ∀ d, d ≠ .output → t d = h.table T d := by
  have hcheck := ipt_runs h T (Table.check .output r) g
  rw [attempt_check, Host.withTable_table] at hcheck
  unfold hookOutput
  by_cases hfound : r ∈ (h.table T).rules .output ∧ g 0 = false
  · -- the check finds the jump
    obtain ⟨hmem, hg⟩ := hfound
    obtain ⟨o, ho, hro⟩ : ∃ o, h.table T .output = some o ∧ r ∈ o := by
      cases ho : h.table T .output with
      | none => simp [Table.rules, ho] at hmem
      | some o => exact ⟨o, rfl, by simpa [Table.rules, ho] using hmem⟩
    refine ⟨h.table T, ?_, by simp [hmem], fun _ _ => rfl⟩
    have hcost : (if decide (r ∈ (h.table T).rules .output) && !g 0 then 1 else 2) = 1 + 0 := by
      simp [hmem, hg]
    rw [hcost, Host.withTable_table]
    refine runs_bind hcheck ?_
    simp only [hg, Table.check, ho, hro]
    exact runs_pure () _ _
  · have hanswer : (!g 0 && (Table.check .output r (h.table T)).isSome) = false := by
      cases hg : g 0 with
      | true => rfl
      | false =>
        cases ho : h.table T .output with
        | none => simp [Table.check, ho]
        | some o =>
          have hro : r ∉ o := fun hro => hfound ⟨by simpa [Table.rules, ho] using hro, hg⟩
          simp [Table.check, ho, hro]
    have hcost : (if decide (r ∈ (h.table T).rules .output) && !g 0 then 1 else 2) = 1 + 1 := by
      rw [if_neg]
      simpa using hfound
    rw [hanswer] at hcheck
    rw [hcost]
    refine ⟨attempt (g 1) (Table.insert .output 1 r) (h.table T), ?_, ?_, ?_⟩
    · exact runs_bind hcheck (runs_discard (ipt_runs h T (Table.insert .output 1 r) (later 1 g)))
    · by_cases hr : (h.table T).Resolves r
      · rw [attempt_insert (g 1) hr (Nat.le_refl 1), Table.rules, Table.mapChain_same]
        cases ho : h.table T .output with
        | none => simp [Table.rules, ho]
        | some o => cases hg : g 1 <;> simp [Table.rules, ho, hr, mem_insertAt]
      · rw [attempt_insert_unresolved (g 1) hr 1]
        simp [hr]
    · exact fun d hd => attempt_insert_ne (g 1) hd

/-- A chain and its hook: the rules that were kept, and whether the hook is there. -/
theorem openChain_runs (h : Host) (T : TableName) {c : Chain} (hc : c ≠ .output)
    (g : Nat → Bool) :
    ∃ t, Runs (makeChain T c >>= fun _ => hookOutput T ⟨[], .jump c⟩) h g () (h.withTable T t)
        (openCost (h.table T) c g) ∧
      t c = madeRules (h.table T) c g ∧
      (⟨[], .jump c⟩ ∈ t.rules .output ↔ Hooked (h.table T) c g) := by
  have hmake := makeChain_runs h T c g
  obtain ⟨t, hhook, hmem, hframe⟩ := hookOutput_runs
    (h.withTable T (Function.update (h.table T) c (madeRules (h.table T) c g))) T
    ⟨[], .jump c⟩ (later (makeCost (h.table T) c g) g)
  have houtput : Function.update (h.table T) c (madeRules (h.table T) c g) .output =
      h.table T .output := Function.update_of_ne hc.symm _ _
  simp only [Host.table_withTable, Host.withTable_withTable, Table.rules, houtput,
    Table.Resolves, Function.update_self, later_apply, Nat.zero_add] at hhook hmem hframe
  refine ⟨t, runs_bind hmake hhook, ?_, ?_⟩
  · rw [hframe c hc, Function.update_self]
  · unfold Hooked Table.rules
    rw [hmem, Nat.add_comm 1]

end Chains

/-! ## Rules that are added -/

/-- The rules of a list whose commands succeed. -/
def surviving : List FwRule → (Nat → Bool) → List FwRule
  | [], _ => []
  | r :: rs, g => (if g 0 then [] else [r]) ++ surviving rs (later 1 g)

theorem surviving_append (rs rs' : List FwRule) (g : Nat → Bool) :
    surviving (rs ++ rs') g = surviving rs g ++ surviving rs' (later rs.length g) := by
  induction rs generalizing g with
  | nil => rfl
  | cons r rs ih =>
    rw [List.cons_append, surviving, surviving, ih, later_later, List.append_assoc,
      List.length_cons, Nat.add_comm 1]

theorem mem_of_mem_surviving {rs : List FwRule} {g : Nat → Bool} {r : FwRule}
    (h : r ∈ surviving rs g) : r ∈ rs := by
  induction rs generalizing g with
  | nil => exact h
  | cons r' rs ih =>
    rcases List.mem_append.mp h with hhead | htail
    · by_cases hg : g 0 = true
      · simp [hg] at hhead
      · simp [hg] at hhead
        simp [hhead]
    · exact List.mem_cons_of_mem _ (ih htail)

section Added

variable {env : Env} {strategy : String} {h : Host} {g : Nat → Bool}

/-- The host with the rules added to `WZFW` whose commands succeed. -/
def Host.addWzfw (h : Host) (rs : List FwRule) (g : Nat → Bool) : Host :=
  h.withTable .mangle (h.mangle.mapChain .wzfw fun l => l ++ surviving rs g)

@[simp] theorem Host.addWzfw_nil (h : Host) (g : Nat → Bool) : h.addWzfw [] g = h := by
  simp [Host.addWzfw, surviving, Host.withTable]

theorem Host.addWzfw_addWzfw (h : Host) (rs rs' : List FwRule) (g : Nat → Bool) :
    (h.addWzfw rs g).addWzfw rs' (later rs.length g) = h.addWzfw (rs ++ rs') g := by
  simp [Host.addWzfw, Host.withTable, surviving_append]

@[simp] theorem Host.addWzfw_nat (h : Host) (rs : List FwRule) (g : Nat → Bool) :
    (h.addWzfw rs g).nat = h.nat := rfl

theorem nfqRule_runs (uid : Nat) (proto ports pktlim : String) (h : Host) (g : Nat → Bool) :
    Runs (nfqRule env strategy uid proto ports pktlim) h g ()
      (h.addWzfw (nfqRules env strategy uid proto ports pktlim) g)
      (nfqRules env strategy uid proto ports pktlim).length := by
  unfold nfqRule nfqRules
  by_cases hs : strategy = "none"
  · rw [if_pos hs, if_pos hs, Host.addWzfw_nil]
    exact runs_pure () h g
  · rw [if_neg hs, if_neg hs]
    have hadd := runs_discard (ipt_runs h .mangle
      (Table.append .wzfw (nfqRuleSpec env uid proto ports pktlim)) g)
    rw [attempt_append (g 0) (by rfl)] at hadd
    have hstate : (fun l => if g 0 then l else l ++ [nfqRuleSpec env uid proto ports pktlim]) =
        fun l => l ++ surviving [nfqRuleSpec env uid proto ports pktlim] g := by
      funext l
      cases hg : g 0 <;> simp [surviving, hg]
    rw [hstate] at hadd
    exact hadd

/-- Two calls of `nfq_rule`, whose rules are a list. -/
theorem nfqRule_nfqRule_runs (uid uid' : Nat) (proto proto' ports ports' pktlim pktlim' : String)
    (h : Host) (g : Nat → Bool) :
    Runs (do
        nfqRule env strategy uid proto ports pktlim
        nfqRule env strategy uid' proto' ports' pktlim') h g ()
      (h.addWzfw (nfqRules env strategy uid proto ports pktlim ++
        nfqRules env strategy uid' proto' ports' pktlim') g)
      (nfqRules env strategy uid proto ports pktlim ++
        nfqRules env strategy uid' proto' ports' pktlim').length := by
  rw [← Host.addWzfw_addWzfw, List.length_append]
  exact runs_bind (nfqRule_runs uid proto ports pktlim h g) (nfqRule_runs uid' proto' ports' pktlim' _ _)

theorem fwApplyExitFlows_runs (mode : ExitMode) (h : Host) (g : Nat → Bool) :
    Runs (fwApplyExitFlows env mode strategy) h g () (h.addWzfw (exitRules env mode strategy) g)
      (exitRules env mode strategy).length := by
  unfold fwApplyExitFlows exitRules
  by_cases hport : env.upPort mode = ""
  · simp only [hport, ne_eq, not_true_eq_false, if_false, if_true, Host.addWzfw_nil]
    exact runs_bind (runs_pure () h g) (runs_pure () h g)
  · simp only [hport, ne_eq, not_false_eq_true, if_false, if_true]
    exact nfqRule_nfqRule_runs _ _ _ _ _ _ _ _ h g

/-- How many commands the UDP part of an upstream start is. -/
def udpCost (env : Env) (strategy : String) : Nat :=
  if env.udpProxy = "relay" then 4 else (udpRules env strategy).length

/-- A command that leaves the tables alone, with or without a fault. -/
theorem attempt_tables {f : Host → Option Host}
    (hf : ∀ h t, f h = some t → t.mangle = h.mangle ∧ t.nat = h.nat) (b : Bool) (h : Host) :
    (attempt b f h).mangle = h.mangle ∧ (attempt b f h).nat = h.nat := by
  cases b with
  | true => exact ⟨rfl, rfl⟩
  | false =>
    cases hs : f h with
    | none => simp [attempt, hs]
    | some t => simpa [attempt, hs] using hf h t hs

theorem ruleAdd_tables (k : Kernel) (r : PolicyRule) (h t : Host) (ht : ruleAdd k r h = some t) :
    t.mangle = h.mangle ∧ t.nat = h.nat := by
  unfold ruleAdd at ht
  split at ht
  · cases ht
  · cases ht
    exact ⟨rfl, rfl⟩

theorem routeAdd_tables (r : Route) (h t : Host) (ht : routeAdd r h = some t) :
    t.mangle = h.mangle ∧ t.nat = h.nat := by
  unfold routeAdd at ht
  split at ht
  · cases ht
  · cases ht
    exact ⟨rfl, rfl⟩

theorem fwApplyUdp_runs (k : Kernel) (strategy : String) (h : Host) (g : Nat → Bool) :
    ∃ h', Runs (fwApplyUdp k env strategy) h g () h' (udpCost env strategy) ∧
      h'.mangle = (h.addWzfw (udpRules env strategy) g).mangle ∧ h'.nat = h.nat := by
  unfold fwApplyUdp udpCost udpRules
  by_cases hrelay : env.udpProxy = "relay"
  · simp only [hrelay, if_true, Host.addWzfw_nil]
    have hsome (h t : Host) (ht : some h = some t) : t.mangle = h.mangle ∧ t.nat = h.nat := by
      cases ht
      exact ⟨rfl, rfl⟩
    let ruled := attempt (g 0) (ruleAdd k (udpPolicy env)) h
    let routed := attempt (g 1) (routeAdd (udpRoute env)) ruled
    let up := attempt (g 2) some routed
    have hrule := attempt_tables (ruleAdd_tables k (udpPolicy env)) (g 0) h
    have hroute := attempt_tables (routeAdd_tables (udpRoute env)) (g 1) ruled
    have hup := attempt_tables hsome (g 2) routed
    have hflush := attempt_tables hsome (g 3) up
    refine ⟨attempt (g 3) some up, ?_, ?_, ?_⟩
    · show Runs _ h g () _ (1 + (1 + (1 + 1)))
      exact runs_bind (runs_discard (runs_cmd _ h g)) <|
        runs_bind (runs_discard (runs_cmd _ ruled _)) <|
        runs_bind (runs_discard (runs_cmd some routed _)) <|
        runs_discard (runs_cmd some up _)
    · exact hflush.1.trans (hup.1.trans (hroute.1.trans hrule.1))
    · exact hflush.2.trans (hup.2.trans (hroute.2.trans hrule.2))
  · simp only [hrelay, if_false]
    exact ⟨_, nfqRule_runs _ _ _ _ h g, rfl, rfl⟩

end Added

/-! ## The parts of a start -/

/-- The `case` of `fw_apply`; a `MODE` that is none of the three has no branch. -/
def fwApplyCase (k : Kernel) (env : Env) (strategy : String) : Option ExitMode → Script Host Unit
  | some mode => fwApplyMode k env mode strategy
  | none => pure ()

/-- `fw_apply` with the `MODE` that the state file holds. -/
def fwApplyAny (k : Kernel) (env : Env) (mode : Option ExitMode) (strategy : String) :
    Script Host Unit := do
  fwApplyWzfw env
  fwApplyCase k env strategy mode
  fwApplyNfqin

section Parts

variable {k : Kernel} {env : Env} {strategy : String}

/-- The rules of WZFW once the guards are inserted. -/
def guarded (env : Env) (g : Nat → Bool) (l : List FwRule) : List FwRule :=
  let marked := if g 0 then l else insertAt 1 (markGuard env) l
  if g 1 then marked else insertAt 2 loopbackGuard marked

theorem mem_guarded {g : Nat → Bool} {l : List FwRule} {r : FwRule} :
    r ∈ guarded env g l ↔ r ∈ l ∨ r = markGuard env ∧ g 0 = false ∨
      r = loopbackGuard ∧ g 1 = false ∧ (l ≠ [] ∨ g 0 = false) := by
  have hlength : 2 ≤ (insertAt 1 (markGuard env) l).length + 1 := by simp [insertAt]
  have hempty : 2 ≤ l.length + 1 ↔ l ≠ [] := by
    rw [← List.length_pos_iff]
    omega
  unfold guarded
  cases h0 : g 0 with
  | true => cases h1 : g 1 <;> simp [mem_insertAt, hempty]
  | false => cases h1 : g 1 <;> simp [mem_insertAt, hlength, or_assoc]

/-- mangle/WZFW: what is kept, the hook and the guards. -/
theorem fwApplyWzfw_runs (h : Host) (g : Nat → Bool) :
    ∃ t, Runs (fwApplyWzfw env) h g () (h.withTable .mangle t) (openCost h.mangle .wzfw g + 2) ∧
      t .wzfw = (madeRules h.mangle .wzfw g).map
        (guarded env (later (openCost h.mangle .wzfw g) g)) ∧
      (wzfwJump ∈ t.rules .output ↔ Hooked h.mangle .wzfw g) := by
  obtain ⟨t, hopen, hrules, hhook⟩ :
      ∃ t, Runs (makeChain .mangle .wzfw >>= fun _ => hookOutput .mangle wzfwJump) h g ()
          (h.withTable .mangle t) (openCost h.mangle .wzfw g) ∧
        t .wzfw = madeRules h.mangle .wzfw g ∧
        (wzfwJump ∈ t.rules .output ↔ Hooked h.mangle .wzfw g) :=
    openChain_runs h .mangle (by decide) g
  let g' := later (openCost h.mangle .wzfw g) g
  let marked := attempt (g' 0) (Table.insert .wzfw 1 (markGuard env)) t
  refine ⟨attempt (g' 1) (Table.insert .wzfw 2 loopbackGuard) marked, ?_, ?_, ?_⟩
  · have hmark := runs_discard (ipt_runs (h.withTable .mangle t) .mangle
      (Table.insert .wzfw 1 (markGuard env)) g')
    have hlo := runs_discard (ipt_runs (h.withTable .mangle marked) .mangle
      (Table.insert .wzfw 2 loopbackGuard) (later 1 g'))
    rw [Host.table_withTable, Host.withTable_withTable] at hmark hlo
    have hruns := runs_seq hopen (runs_seq hmark hlo)
    rw [bind_assoc] at hruns
    exact hruns
  · have hmarked : marked = t.mapChain .wzfw fun l =>
        if g' 0 then l else insertAt 1 (markGuard env) l := attempt_insert (g' 0) rfl (Nat.le_refl 1)
    rw [attempt_insert (g' 1) rfl (by decide), Table.mapChain_same, hmarked, Table.mapChain_same,
      hrules, Option.map_map]
    rfl
  · have hmarked : marked .output = t .output := attempt_insert_ne _ (by decide)
    rw [← hhook, Table.rules, Table.rules, attempt_insert_ne _ (by decide), hmarked]

/-- nat/WZREDIR: what is kept, the hook and the rule. -/
theorem fwApplyRedirect_runs (h : Host) (g : Nat → Bool) :
    ∃ t, Runs (fwApplyRedirect env) h g () (h.withTable .nat t) (openCost h.nat .wzredir g + 1) ∧
      t .wzredir = (madeRules h.nat .wzredir g).map (fun l =>
        if g (openCost h.nat .wzredir g) then l else l ++ [redirectRule env]) ∧
      (wzredirJump ∈ t.rules .output ↔ Hooked h.nat .wzredir g) := by
  obtain ⟨t, hopen, hrules, hhook⟩ :
      ∃ t, Runs (makeChain .nat .wzredir >>= fun _ => hookOutput .nat wzredirJump) h g ()
          (h.withTable .nat t) (openCost h.nat .wzredir g) ∧
        t .wzredir = madeRules h.nat .wzredir g ∧
        (wzredirJump ∈ t.rules .output ↔ Hooked h.nat .wzredir g) :=
    openChain_runs h .nat (by decide) g
  let g' := later (openCost h.nat .wzredir g) g
  refine ⟨attempt (g' 0) (Table.append .wzredir (redirectRule env)) t, ?_, ?_, ?_⟩
  · have happend := runs_discard (ipt_runs (h.withTable .nat t) .nat
      (Table.append .wzredir (redirectRule env)) g')
    rw [Host.table_withTable, Host.withTable_withTable] at happend
    have hruns := runs_seq hopen happend
    rw [bind_assoc] at hruns
    exact hruns
  · rw [attempt_append (g' 0) rfl, Table.mapChain_same, hrules]
    simp [g']
  · rw [← hhook, Table.rules, Table.rules, attempt_append_ne _ (by decide)]

/-- The NFQUEUE rules of a mode that may be none. -/
def caseRules (env : Env) (strategy : String) : Option ExitMode → List FwRule
  | some mode => modeRules env ⟨mode, strategy⟩
  | none => []

def isUpstream : Option ExitMode → Bool
  | some mode => mode.upstream
  | none => false

/-- The commands of the `case` before its first NFQUEUE rule. -/
def beforeRules (env : Env) (h : Host) (g : Nat → Bool) (mode : Option ExitMode) : Nat :=
  if isUpstream mode then
    openCost h.nat .wzredir g + 1 + if env.udpProxy = "relay" then 4 else 0
  else 0

/-- What the `case` leaves: the rules of WZFW that are added, and in the upstream modes the redirect. -/
structure CaseLeaves (env : Env) (strategy : String) (mode : Option ExitMode) (h : Host)
    (g : Nat → Bool) (h' : Host) : Prop where
  mangle : h'.mangle = h.mangle.mapChain .wzfw fun l =>
    l ++ surviving (caseRules env strategy mode) (later (beforeRules env h g mode) g)
  redirect : isUpstream mode = true → h'.nat .wzredir = (madeRules h.nat .wzredir g).map fun l =>
    if g (openCost h.nat .wzredir g) then l else l ++ [redirectRule env]
  hook : isUpstream mode = true →
    (wzredirJump ∈ h'.nat.rules .output ↔ Hooked h.nat .wzredir g)

theorem upstream_runs (mode : ExitMode) (h : Host) (g : Nat → Bool) :
    ∃ h' n, Runs (do
        fwApplyRedirect env
        fwApplyUdp k env strategy
        fwApplyExitFlows env mode strategy) h g () h' n ∧
      h'.mangle = (h.addWzfw (udpRules env strategy ++ exitRules env mode strategy)
        (later (openCost h.nat .wzredir g + 1 + if env.udpProxy = "relay" then 4 else 0) g)).mangle ∧
      h'.nat .wzredir = (madeRules h.nat .wzredir g).map (fun l =>
        if g (openCost h.nat .wzredir g) then l else l ++ [redirectRule env]) ∧
      (wzredirJump ∈ h'.nat.rules .output ↔ Hooked h.nat .wzredir g) := by
  obtain ⟨t, hredirect, hrules, hhook⟩ := @fwApplyRedirect_runs env h g
  obtain ⟨h₂, hudp, hmangle, hnat⟩ := @fwApplyUdp_runs env k strategy (h.withTable .nat t)
    (later (openCost h.nat .wzredir g + 1) g)
  have hexit := @fwApplyExitFlows_runs env strategy mode h₂
    (later (udpCost env strategy) (later (openCost h.nat .wzredir g + 1) g))
  refine ⟨_, _, runs_bind hredirect (runs_bind hudp hexit), ?_, ?_, ?_⟩
  · show (h₂.mangle.mapChain .wzfw fun l => l ++ surviving _ _) = _
    rw [hmangle]
    show (h.mangle.mapChain .wzfw _).mapChain .wzfw _ = h.mangle.mapChain .wzfw _
    rw [Table.mapChain_mapChain, udpCost]
    by_cases hrelay : env.udpProxy = "relay"
    · simp [hrelay, udpRules, surviving, later_later]
    · simp [hrelay, surviving_append, later_later]
  · rw [Host.addWzfw_nat, hnat]
    exact hrules
  · rw [Host.addWzfw_nat, hnat]
    exact hhook

theorem fwApplyCase_runs (mode : Option ExitMode) (h : Host) (g : Nat → Bool) :
    ∃ h' n, Runs (fwApplyCase k env strategy mode) h g () h' n ∧
      CaseLeaves env strategy mode h g h' := by
  have hupstream (mode : ExitMode) (hmode : mode.upstream = true)
      (hrules : modeRules env ⟨mode, strategy⟩ = udpRules env strategy ++ exitRules env mode strategy)
      (hcode : fwApplyMode k env mode strategy = do
        fwApplyRedirect env
        fwApplyUdp k env strategy
        fwApplyExitFlows env mode strategy) :
      ∃ h' n, Runs (fwApplyCase k env strategy (some mode)) h g () h' n ∧
        CaseLeaves env strategy (some mode) h g h' := by
    obtain ⟨h', n, hruns, hmangle, hredirect, hhook⟩ :=
      @upstream_runs k env strategy mode h g
    refine ⟨h', n, ?_, ?_, fun _ => hredirect, fun _ => hhook⟩
    · rw [fwApplyCase, hcode]
      exact hruns
    · rw [hmangle, caseRules, hrules, beforeRules, isUpstream, hmode]
      rfl
  cases mode with
  | none =>
    refine ⟨h, 0, runs_pure () h g, ?_, nofun, nofun⟩
    simp [caseRules, surviving]
  | some mode =>
    cases mode with
    | direct =>
      exact ⟨_, _, nfqRule_nfqRule_runs _ _ _ _ _ _ _ _ h g, rfl, nofun, nofun⟩
    | socks5 => exact hupstream .socks5 rfl rfl rfl
    | ss => exact hupstream .ss rfl rfl rfl

/-- The ingress chain is none of the others. -/
theorem fwApplyNfqin_runs (h : Host) (g : Nat → Bool) :
    ∃ h' n, Runs fwApplyNfqin h g () h' n ∧ h'.nat = h.nat ∧
      ∀ d, d ≠ .nfqin → d ≠ .prerouting → h'.mangle d = h.mangle d := by
  let made := Function.update h.mangle .nfqin (madeRules h.mangle .nfqin g)
  let g' := later (makeCost h.mangle .nfqin g) g
  let unhooked := attempt (g' 0) (Table.delete .prerouting nfqinJump) made
  let hooked := attempt (g' 1) (Table.insert .prerouting 1 nfqinJump) unhooked
  let counting := attempt (g' 2) (Table.append .nfqin nfqinReturn) hooked
  have hruns : Runs fwApplyNfqin h g () (h.withTable .mangle counting)
      (makeCost h.mangle .nfqin g + (1 + (1 + 1))) :=
    runs_bind (makeChain_runs h .mangle .nfqin g) <|
      runs_bind (runs_discard (ipt_runs (h.withTable .mangle made) .mangle _ g')) <|
      runs_bind (runs_discard (ipt_runs (h.withTable .mangle unhooked) .mangle _ _)) <|
      runs_discard (ipt_runs (h.withTable .mangle hooked) .mangle _ _)
  refine ⟨_, _, hruns, rfl, fun d hd hd' => ?_⟩
  calc counting d
      = hooked d := attempt_append_ne (g' 2) hd
    _ = unhooked d := attempt_insert_ne (g' 1) hd'
    _ = made d := attempt_delete_ne (g' 0) hd'
    _ = h.mangle d := Function.update_of_ne hd _ _

end Parts

/-! ## What is installed -/

/-- Every mandatory rule for the mode and the strategy is in its chain. -/
structure Installed (env : Env) (mode : Option ExitMode) (strategy : String) (h : Host) :
    Prop where
  hook : wzfwJump ∈ h.mangle.rules .output
  mark : markGuard env ∈ h.mangle.rules .wzfw
  loopback : loopbackGuard ∈ h.mangle.rules .wzfw
  queues : ∀ r ∈ caseRules env strategy mode, r ∈ h.mangle.rules .wzfw
  redirect : isUpstream mode = true →
    wzredirJump ∈ h.nat.rules .output ∧ redirectRule env ∈ h.nat.rules .wzredir

/-- The commands of a start before its `case`. -/
def beforeCase (h : Host) (g : Nat → Bool) : Nat := openCost h.mangle .wzfw g + 2

/-- The start meets no fault that costs WZFW its hook, a guard, or an NFQUEUE rule of the strategy
`needed`: the command of the rule succeeds, or the rule is kept since the chain is not flushed. -/
structure WzfwFits (env : Env) (mode : Option ExitMode) (used needed : String) (h : Host)
    (g : Nat → Bool) (kept : List FwRule) : Prop where
  made : madeRules h.mangle .wzfw g = some kept
  hook : Hooked h.mangle .wzfw g
  mark : markGuard env ∈ kept ∨ g (openCost h.mangle .wzfw g) = false
  loopback : loopbackGuard ∈ kept ∨ g (openCost h.mangle .wzfw g + 1) = false
  queues : ∀ r ∈ caseRules env needed mode, r ∈ kept ∨ r ∈ surviving (caseRules env used mode)
    (later (beforeRules env h (later (beforeCase h g) g) mode) (later (beforeCase h g) g))

/-- Nor one that costs the redirect. -/
structure RedirectFits (env : Env) (h : Host) (g : Nat → Bool) (kept : List FwRule) : Prop where
  made : madeRules h.nat .wzredir g = some kept
  hook : Hooked h.nat .wzredir g
  redirect : redirectRule env ∈ kept ∨ g (openCost h.nat .wzredir g) = false

/-- The faults of a start cost no rule that the mode and the strategy `needed` want. -/
structure StartFits (env : Env) (mode : Option ExitMode) (used needed : String) (h : Host)
    (g : Nat → Bool) : Prop where
  wzfw : ∃ kept, WzfwFits env mode used needed h g kept
  redirect : isUpstream mode = true → ∃ kept, RedirectFits env h (later (beforeCase h g) g) kept

section Installing

variable {env : Env} {mode : Option ExitMode} {strategy used needed : String} {h h' : Host}
  {g : Nat → Bool}

theorem nfqRules_target {uid : Nat} {proto ports pktlim : String} {r : FwRule}
    (h : r ∈ nfqRules env strategy uid proto ports pktlim) :
    r.target = .verdict (.nfqueueBypass env.qnumTcp) := by
  unfold nfqRules at h
  split at h
  · simp at h
  · rw [List.mem_singleton.mp h]
    rfl

/-- The rules of a mode queue packets. -/
theorem caseRules_target {r : FwRule} (h : r ∈ caseRules env strategy mode) :
    r.target = .verdict (.nfqueueBypass env.qnumTcp) := by
  have hupstream {mode : ExitMode} (h : r ∈ udpRules env strategy ++ exitRules env mode strategy) :
      r.target = .verdict (.nfqueueBypass env.qnumTcp) := by
    unfold udpRules exitRules at h
    rcases List.mem_append.mp h with hudp | hexit
    · split at hudp
      · simp at hudp
      · exact nfqRules_target hudp
    · split at hexit
      · simp at hexit
      · exact (List.mem_append.mp hexit).elim nfqRules_target nfqRules_target
  cases mode with
  | none => simp [caseRules] at h
  | some mode =>
    cases mode with
    | direct => exact (List.mem_append.mp h).elim nfqRules_target nfqRules_target
    | socks5 => exact hupstream h
    | ss => exact hupstream h

theorem not_surviving_of_ret {r : FwRule} (hr : r.target = .verdict .ret) {g : Nat → Bool} :
    r ∉ surviving (caseRules env strategy mode) g := by
  intro h
  have htarget := caseRules_target (mem_of_mem_surviving h)
  rw [hr] at htarget
  cases htarget

/-- What the rules of WZFW are at the end of a start. -/
def finalWzfw (env : Env) (mode : Option ExitMode) (used : String) (h : Host) (g : Nat → Bool)
    (kept : List FwRule) : List FwRule :=
  guarded env (later (openCost h.mangle .wzfw g) g) kept ++ surviving (caseRules env used mode)
    (later (beforeRules env h (later (beforeCase h g) g) mode) (later (beforeCase h g) g))

theorem wzfwFits_iff {kept : List FwRule} (hkept : madeRules h.mangle .wzfw g = some kept) :
    (markGuard env ∈ finalWzfw env mode used h g kept ∧
      loopbackGuard ∈ finalWzfw env mode used h g kept ∧
      (∀ r ∈ caseRules env needed mode, r ∈ finalWzfw env mode used h g kept) ∧
      Hooked h.mangle .wzfw g) ↔ WzfwFits env mode used needed h g kept := by
  have hne : markGuard env ≠ loopbackGuard := by simp [markGuard, loopbackGuard]
  have hmark : markGuard env ∈ finalWzfw env mode used h g kept ↔
      markGuard env ∈ kept ∨ g (openCost h.mangle .wzfw g) = false := by
    rw [finalWzfw, List.mem_append, or_iff_left (not_surviving_of_ret rfl), mem_guarded]
    simp [hne]
  have hlo (hkept : markGuard env ∈ kept ∨ g (openCost h.mangle .wzfw g) = false) :
      loopbackGuard ∈ finalWzfw env mode used h g kept ↔
        loopbackGuard ∈ kept ∨ g (openCost h.mangle .wzfw g + 1) = false := by
    have hsome : kept ≠ [] ∨ g (openCost h.mangle .wzfw g) = false :=
      hkept.imp_left List.ne_nil_of_mem
    rw [finalWzfw, List.mem_append, or_iff_left (not_surviving_of_ret rfl), mem_guarded,
      later_apply, later_apply, Nat.zero_add, and_iff_left hsome, Nat.add_comm 1]
    simp [hne.symm]
  have hqueue {r : FwRule} (hr : r ∈ caseRules env needed mode) :
      r ∈ finalWzfw env mode used h g kept ↔ r ∈ kept ∨ r ∈ surviving (caseRules env used mode)
        (later (beforeRules env h (later (beforeCase h g) g) mode) (later (beforeCase h g) g)) := by
    have hrmark : r ≠ markGuard env := by
      rintro rfl
      exact nomatch caseRules_target hr
    have hrlo : r ≠ loopbackGuard := by
      rintro rfl
      exact nomatch caseRules_target hr
    rw [finalWzfw, List.mem_append, mem_guarded]
    simp [hrmark, hrlo]
  constructor
  · rintro ⟨hm, hl, hq, hh⟩
    exact ⟨hkept, hh, hmark.mp hm, (hlo (hmark.mp hm)).mp hl, fun r hr => (hqueue hr).mp (hq r hr)⟩
  · rintro ⟨_, hh, hm, hl, hq⟩
    exact ⟨hmark.mpr hm, (hlo hm).mpr hl, fun r hr => (hqueue hr).mpr (hq r hr), hh⟩

theorem mem_appended {l : List FwRule} {r : FwRule} {b : Bool} :
    r ∈ (if b then l else l ++ [r]) ↔ r ∈ l ∨ b = false := by
  cases b <;> simp

/-- **What a start installs.** -/
theorem installed_iff (k : Kernel) (env : Env) (mode : Option ExitMode) (used : String) (h : Host)
    (g : Nat → Bool) :
    ∃ h' n, Runs (fwApplyAny k env mode used) h g () h' n ∧
      ∀ needed, Installed env mode needed h' ↔ StartFits env mode used needed h g := by
  obtain ⟨t, hwzfw, hguarded, hhook⟩ := @fwApplyWzfw_runs env h g
  obtain ⟨h₂, n, hcase, hmangle, hredirect, hredirhook⟩ :=
    @fwApplyCase_runs k env used mode (h.withTable .mangle t) (later (beforeCase h g) g)
  obtain ⟨h₃, m, hnfqin, hnat, hframe⟩ := fwApplyNfqin_runs h₂ (later n (later (beforeCase h g) g))
  refine ⟨h₃, _, runs_bind hwzfw (runs_bind hcase hnfqin), fun needed => ?_⟩
  have houtput : h₃.mangle .output = t .output := by
    rw [hframe .output (by decide) (by decide), hmangle]
    exact Table.mapChain_ne (by decide) _ _
  have hfinal : h₃.mangle .wzfw =
      (madeRules h.mangle .wzfw g).map (finalWzfw env mode used h g) := by
    rw [hframe .wzfw (by decide) (by decide), hmangle, Table.mapChain_same]
    show (t .wzfw).map _ = _
    rw [hguarded, Option.map_map]
    rfl
  have hwzfwIff : (wzfwJump ∈ h₃.mangle.rules .output ∧ markGuard env ∈ h₃.mangle.rules .wzfw ∧
      loopbackGuard ∈ h₃.mangle.rules .wzfw ∧
      ∀ r ∈ caseRules env needed mode, r ∈ h₃.mangle.rules .wzfw) ↔
        ∃ kept, WzfwFits env mode used needed h g kept := by
    unfold Table.rules at hhook ⊢
    rw [houtput, hhook, hfinal]
    cases hmade : madeRules h.mangle .wzfw g with
    | none =>
      refine iff_of_false ?_ ?_
      · rintro ⟨_, hmark, _⟩
        simp at hmark
      · rintro ⟨kept, hfits⟩
        exact nomatch hmade.symm.trans hfits.made
    | some kept =>
      have hiff := @wzfwFits_iff env mode used needed h g _ hmade
      constructor
      · rintro ⟨hh, hm, hl, hq⟩
        exact ⟨kept, hiff.mp ⟨hm, hl, hq, hh⟩⟩
      · rintro ⟨kept', hfits⟩
        obtain rfl : kept = kept' := Option.some.inj (hmade.symm.trans hfits.made)
        obtain ⟨hm, hl, hq, hh⟩ := hiff.mpr hfits
        exact ⟨hh, hm, hl, hq⟩
  have hredirectIff (hmode : isUpstream mode = true) :
      (wzredirJump ∈ h₃.nat.rules .output ∧ redirectRule env ∈ h₃.nat.rules .wzredir) ↔
        ∃ kept, RedirectFits env h (later (beforeCase h g) g) kept := by
    have hrules := hredirect hmode
    have hhooked := hredirhook hmode
    unfold Table.rules at hhooked ⊢
    rw [hnat, hhooked, hrules]
    show Hooked h.nat .wzredir (later (beforeCase h g) g) ∧ redirectRule env ∈
      ((madeRules h.nat .wzredir (later (beforeCase h g) g)).map _).getD [] ↔ _
    cases hmade : madeRules h.nat .wzredir (later (beforeCase h g) g) with
    | none =>
      refine iff_of_false ?_ ?_
      · rintro ⟨_, hmem⟩
        simp at hmem
      · rintro ⟨kept, hfits⟩
        exact nomatch hmade.symm.trans hfits.made
    | some kept =>
      rw [Option.map_some, Option.getD_some, mem_appended]
      constructor
      · rintro ⟨hh, hmem⟩
        exact ⟨kept, hmade, hh, hmem⟩
      · rintro ⟨kept', hfits⟩
        obtain rfl : kept = kept' := Option.some.inj (hmade.symm.trans hfits.made)
        exact ⟨hfits.hook, hfits.redirect⟩
  constructor
  · rintro ⟨hh, hm, hl, hq, hr⟩
    exact ⟨hwzfwIff.mp ⟨hh, hm, hl, hq⟩, fun hmode => (hredirectIff hmode).mp (hr hmode)⟩
  · rintro ⟨hwzfw, hr⟩
    obtain ⟨hh, hm, hl, hq⟩ := hwzfwIff.mpr hwzfw
    exact ⟨hh, hm, hl, hq, fun hmode => (hredirectIff hmode).mpr (hr hmode)⟩

end Installing

end WebZapret
