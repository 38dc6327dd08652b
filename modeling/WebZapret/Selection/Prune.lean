import WebZapret.Lib.Folders
import WebZapret.Lib.Py.Str
import Mathlib.Data.List.Lex

/-!
# Pruning the old runs

`prune_runs` unlinks what the directory of an old run holds and then removes the directory. The home
directory that `run` makes there cannot be unlinked, so that the directory stays, without its
reports; no error is seen. The runs are pruned as intended exactly if no old run holds a directory
(`pruneRuns_iff`), which for the runs that `run` made means that there are none to prune.
-/

namespace WebZapret.Selection

open Py

variable {C : Type}

/-- The directory of the runs. -/
abbrev Runs (C : Type) := Folder Str (Folder Str C)

/-- The names of the run directories, newest first. -/
def runNames (runs : Runs C) : List Str := runs.dirs.insertionSort (· ≥ ·)

/-- `names[i:]` -/
def fromIndex (names : List Str) (i : Int) : List Str :=
  if 0 ≤ i then names.drop i.toNat else names.drop (names.length - (-i).toNat)

/-- One directory of the loop: the runs and the names that are removed so far. -/
def pruneRun (acc : Runs C × List Str) (name : Str) : Runs C × List Str :=
  match acc.1.lookup name with
  | some (.dir run) =>
    let runs : Runs C := acc.1.insert name (.dir (Folder.unlinkAll run))
    match runs.rmdir name with
    | some runs => (runs, acc.2 ++ [name])
    | none => (runs, acc.2)
  | _ => acc

/-- `prune_runs`, of a directory that can be listed: what is left of it, and the names that are
returned. -/
def pruneRuns (runs : Runs C) (keep : Int) : Runs C × List Str :=
  (fromIndex (runNames runs) keep).foldl pruneRun (runs, [])

/-! ## What the loop does -/

/-- The run directory has no directory in it. -/
def flatRun (runs : Runs C) (name : Str) : Bool :=
  match runs.lookup name with
  | some (.dir run) => decide (Folder.Flat run)
  | _ => false

theorem flatRun_eq {runs : Runs C} {name : Str} {run : Folder Str C}
    (h : runs.lookup name = some (.dir run)) : flatRun runs name = decide run.Flat := by
  rw [flatRun, h]

/-- A directory is removed if it has no directory in it; the other names are as before. -/
theorem pruneRun_spec {acc : Runs C × List Str} {name : Str} (h : acc.1.isDir name = true) :
    (pruneRun acc name).2 = acc.2 ++ (if flatRun acc.1 name then [name] else []) ∧
      (flatRun acc.1 name = true → (pruneRun acc name).1.lookup name = none) ∧
      ∀ other, other ≠ name → (pruneRun acc name).1.lookup other = acc.1.lookup other := by
  obtain ⟨run, hrun⟩ := Folder.isDir_iff.mp h
  have hrmdir : ∀ runs : Runs C, runs = acc.1.insert name (.dir run.unlinkAll) →
      runs.rmdir name = if run.Flat then some (runs.erase name) else none := by
    intro runs hruns
    rw [Folder.rmdir, hruns, AList.lookup_insert]
    simp only [Folder.unlinkAll_empty_iff]
  rw [flatRun_eq hrun, pruneRun, hrun]
  simp only [hrmdir _ rfl]
  by_cases hflat : run.Flat
  · simp only [hflat, if_true, decide_true, true_and, AList.lookup_erase, forall_const]
    intro other hother
    rw [AList.lookup_erase_ne hother, AList.lookup_insert_ne hother]
  · simp only [hflat, if_false, decide_false, Bool.false_eq_true, List.append_nil, true_and,
      false_implies]
    intro other hother
    exact AList.lookup_insert_ne hother

/-- The loop over different directories: those without a directory are removed. -/
theorem foldl_pruneRun {names : List Str} (hnodup : names.Nodup) (acc : Runs C × List Str)
    (h : ∀ name ∈ names, acc.1.isDir name = true) :
    (names.foldl pruneRun acc).2 = acc.2 ++ names.filter (flatRun acc.1) ∧
      (∀ name ∈ names, flatRun acc.1 name = true →
        (names.foldl pruneRun acc).1.lookup name = none) ∧
      ∀ other, other ∉ names → (names.foldl pruneRun acc).1.lookup other = acc.1.lookup other := by
  induction names generalizing acc with
  | nil => simp
  | cons name names ih =>
    obtain ⟨hdir, hdirs⟩ := List.forall_mem_cons.mp h
    obtain ⟨hname, hnodup⟩ := List.nodup_cons.mp hnodup
    obtain ⟨hremoved, hnone, hother⟩ := pruneRun_spec hdir
    have hsame : ∀ n ∈ names, (pruneRun acc name).1.lookup n = acc.1.lookup n :=
      fun n hn => hother n fun heq => hname (heq ▸ hn)
    have hisDir : ∀ n ∈ names, (pruneRun acc name).1.isDir n = true := by
      intro n hn
      rw [Folder.isDir, hsame n hn]
      exact hdirs n hn
    have hflat : ∀ n ∈ names, flatRun (pruneRun acc name).1 n = flatRun acc.1 n := by
      intro n hn
      rw [flatRun, flatRun, hsame n hn]
    obtain ⟨ihremoved, ihnone, ihother⟩ := ih hnodup _ hisDir
    rw [List.foldl_cons]
    refine ⟨?_, ?_, ?_⟩
    · rw [ihremoved, hremoved, List.filter_congr hflat, List.filter_cons]
      split <;> simp
    · intro n hn hflatn
      rcases List.mem_cons.mp hn with rfl | hn
      · rw [ihother n hname]
        exact hnone hflatn
      · exact ihnone n hn ((hflat n hn).trans hflatn)
    · intro other hnot
      rw [List.mem_cons, not_or] at hnot
      rw [ihother other hnot.2, hother other hnot.1]

/-! ## The names -/

theorem runNames_perm (runs : Runs C) : (runNames runs).Perm runs.dirs :=
  List.perm_insertionSort _ _

/-- No name is there twice. -/
theorem runNames_descending (runs : Runs C) : (runNames runs).Pairwise (· > ·) := by
  have hsorted := List.sortedGE_insertionSort (l := runs.dirs)
  have hnodup : (runNames runs).Nodup := (runNames_perm runs).nodup_iff.mpr runs.dirs_nodup
  exact (hsorted.sortedGT_of_nodup hnodup).pairwise

/-! ## Which runs directories are pruned -/

/-- The `keep` newest runs are there as before, and so is what is no run; the other runs are gone
and returned. -/
def Pruned (keep : Nat) (before after : Runs C) (removed : List Str) : Prop :=
  ∃ kept, (kept ++ removed).Perm before.dirs ∧
    kept.length = min keep before.dirs.length ∧
    (∀ a ∈ kept, ∀ b ∈ removed, b < a) ∧
    ∀ name, after.lookup name = if name ∈ removed then none else before.lookup name

/-- The runs after the first `keep` are those with at least `keep` newer ones. -/
theorem mem_drop_runNames {runs : Runs C} {keep : Nat} {name : Str} :
    name ∈ (runNames runs).drop keep ↔
      runs.isDir name = true ∧ keep ≤ (runs.dirsAbove name).length := by
  rw [mem_drop_of_descending (runNames_descending runs), (runNames_perm runs).mem_iff,
    ((runNames_perm runs).filter _).length_eq, Folder.mem_dirs]
  rfl

theorem pruned_iff_flat (runs : Runs C) (keep : Nat) :
    Pruned keep runs (pruneRuns runs keep).1 (pruneRuns runs keep).2 ↔
      ∀ name ∈ (runNames runs).drop keep, flatRun runs name = true := by
  have hnodup : ((runNames runs).drop keep).Nodup :=
    ((runNames_descending runs).imp ne_of_gt).drop
  obtain ⟨hremoved, hnone, hother⟩ := foldl_pruneRun hnodup (runs, [])
    fun name hname => (mem_drop_runNames.mp hname).1
  have hloop : pruneRuns runs keep = ((runNames runs).drop keep).foldl pruneRun (runs, []) := by
    rw [pruneRuns, fromIndex, if_pos (Int.natCast_nonneg keep), Int.toNat_natCast]
  rw [List.nil_append] at hremoved
  dsimp only at hremoved hnone hother
  rw [hloop]
  constructor
  · intro hpruned
    obtain ⟨kept, hperm, hkept, _, _⟩ := hpruned
    rw [hremoved] at hperm
    have hlength := hperm.length_eq
    rw [List.length_append, hkept, ← (runNames_perm runs).length_eq] at hlength
    have hall : (((runNames runs).drop keep).filter (flatRun runs)).length =
        ((runNames runs).drop keep).length := by
      rw [List.length_drop]
      omega
    exact List.length_filter_eq_length_iff.mp hall
  · intro hall
    rw [List.filter_eq_self.mpr hall] at hremoved
    refine ⟨(runNames runs).take keep, ?_, ?_, ?_, ?_⟩
    · rw [hremoved, List.take_append_drop]
      exact runNames_perm runs
    · rw [List.length_take, (runNames_perm runs).length_eq]
    · have hsorted := runNames_descending runs
      rw [← List.take_append_drop keep (runNames runs), List.pairwise_append] at hsorted
      rw [hremoved]
      exact hsorted.2.2
    · intro name
      rw [hremoved]
      by_cases hname : name ∈ (runNames runs).drop keep
      · rw [if_pos hname]
        exact hnone name hname (hall name hname)
      · rw [if_neg hname]
        exact hother name hname

/-- **When the old runs are pruned**: if and only if no run with at least `keep` newer ones has a
directory in it. -/
theorem pruneRuns_iff (runs : Runs C) (keep : Nat) :
    Pruned keep runs (pruneRuns runs keep).1 (pruneRuns runs keep).2 ↔
      ∀ name run, runs.lookup name = some (.dir run) → keep ≤ (runs.dirsAbove name).length →
        Folder.Flat run := by
  rw [pruned_iff_flat]
  constructor
  · intro hall name run hrun hnewer
    have hflat := hall name (mem_drop_runNames.mpr ⟨Folder.isDir_iff.mpr ⟨run, hrun⟩, hnewer⟩)
    rw [flatRun_eq hrun] at hflat
    exact of_decide_eq_true hflat
  · intro hall name hname
    obtain ⟨hdir, hnewer⟩ := mem_drop_runNames.mp hname
    obtain ⟨run, hrun⟩ := Folder.isDir_iff.mp hdir
    rw [flatRun_eq hrun]
    exact decide_eq_true (hall name run hrun hnewer)

/-- The directory of each run has the home directory that `run` makes. -/
def Produced (runs : Runs C) : Prop :=
  ∀ name run, runs.lookup name = some (.dir run) → Folder.isDir run (lit "home") = true

/-- Of the runs that `run` made, none is ever removed. -/
theorem pruned_iff_of_produced {runs : Runs C} (h : Produced runs) (keep : Nat) :
    Pruned keep runs (pruneRuns runs keep).1 (pruneRuns runs keep).2 ↔
      runs.dirs.length ≤ keep := by
  have hnot : ∀ name ∈ (runNames runs).drop keep, flatRun runs name = false := by
    intro name hname
    obtain ⟨run, hrun⟩ := Folder.isDir_iff.mp (mem_drop_runNames.mp hname).1
    rw [flatRun_eq hrun]
    refine decide_eq_false fun hflat => ?_
    exact Bool.false_ne_true ((hflat (lit "home")).symm.trans (h name run hrun))
  rw [pruned_iff_flat, ← (runNames_perm runs).length_eq, ← List.drop_eq_nil_iff]
  constructor
  · intro hall
    rw [List.eq_nil_iff_forall_not_mem]
    intro name hname
    exact Bool.false_ne_true ((hnot name hname).symm.trans (hall name hname))
  · intro hnil
    rw [hnil]
    exact fun name hname => absurd hname List.not_mem_nil

/-- A run as `run` leaves it. -/
def madeRun : Entry (Folder Str Unit) :=
  .dir (List.toAList [⟨lit "settings.json", .file []⟩, ⟨lit "home", .dir ()⟩])

/-- Two runs, of which one is to be kept. -/
def twoRuns : Runs Unit :=
  List.toAList [⟨lit "20260101-030000", madeRun⟩, ⟨lit "20260102-030000", madeRun⟩]

theorem twoRuns_produced : Produced twoRuns := by
  intro name run hrun
  have hentries : twoRuns.entries =
      [⟨lit "20260101-030000", madeRun⟩, ⟨lit "20260102-030000", madeRun⟩] := rfl
  have hmem := AList.mem_lookup_iff.mp hrun
  rw [hentries] at hmem
  have hmade : Entry.dir run = madeRun := by
    rcases List.mem_cons.mp hmem with hmem | hmem
    · cases hmem
      rfl
    · cases List.mem_singleton.mp hmem
      rfl
  cases hmade
  rfl

theorem twoRuns_not_pruned :
    Produced twoRuns ∧ ¬Pruned 1 twoRuns (pruneRuns twoRuns 1).1 (pruneRuns twoRuns 1).2 := by
  refine ⟨twoRuns_produced, ?_⟩
  have hiff := pruned_iff_of_produced twoRuns_produced 1
  rw [Nat.cast_one] at hiff
  rw [hiff]
  decide

end WebZapret.Selection
