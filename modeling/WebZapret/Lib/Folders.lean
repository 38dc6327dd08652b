import WebZapret.Lib.Bytes
import Mathlib.Data.List.AList
import Mathlib.Data.List.Sort

/-!
# Folders

A folder is a finite map of names; listing it gives every name once, in an order of the file
system's own. `unlink` removes files only and `rmdir` empty directories only, so that unlinking all
that a folder holds empties it exactly if it holds no directory (`unlinkAll_empty_iff`).
-/

namespace WebZapret

/-- What a name of a folder refers to; directories hold a `C`. -/
inductive Entry (C : Type*) where
  | file (content : Bytes)
  | dir (inner : C)

/-- A folder with directories that hold a `C`. -/
abbrev Folder (N C : Type*) := AList fun _ : N => Entry C

namespace Folder

variable {N C : Type*} [DecidableEq N]

/-- `os.path.isdir` -/
def isDir (f : Folder N C) (name : N) : Bool :=
  match f.lookup name with
  | some (.dir _) => true
  | _ => false

theorem isDir_iff {f : Folder N C} {name : N} :
    f.isDir name = true ↔ ∃ inner, f.lookup name = some (.dir inner) := by
  unfold isDir
  split
  · rename_i inner h
    simp [h]
  · rename_i h
    simpa using h

/-- The directories in a folder. -/
def dirs (f : Folder N C) : List N := f.keys.filter f.isDir

/-- The directories with a greater name. -/
def dirsAbove [LinearOrder N] (f : Folder N C) (name : N) : List N := f.dirs.filter (name < ·)

theorem mem_dirs {f : Folder N C} {name : N} : name ∈ f.dirs ↔ f.isDir name = true := by
  rw [dirs, List.mem_filter, and_iff_right_iff_imp]
  intro h
  obtain ⟨inner, hinner⟩ := isDir_iff.mp h
  exact AList.mem_keys.mp (AList.lookup_isSome.mp (hinner ▸ rfl))

theorem dirs_nodup (f : Folder N C) : f.dirs.Nodup := f.keys_nodup.filter _

/-- The folder has no directory in it. -/
def Flat (f : Folder N C) : Prop := ∀ name, f.isDir name = false

/-- `os.unlink`; a directory cannot be unlinked. -/
def unlink (f : Folder N C) (name : N) : Option (Folder N C) :=
  match f.lookup name with
  | some (.file _) => some (f.erase name)
  | _ => none

/-- Unlink, and go on if that fails. -/
def tryUnlink (f : Folder N C) (name : N) : Folder N C := (f.unlink name).getD f

/-- Unlink all that is listed. -/
def unlinkAll (f : Folder N C) : Folder N C := f.keys.foldl tryUnlink f

/-- `os.rmdir`; only an empty directory can be removed. -/
def rmdir {D : Type*} (f : Folder N (Folder N D)) (name : N) : Option (Folder N (Folder N D)) :=
  match f.lookup name with
  | some (.dir inner) => if inner.keys = [] then some (f.erase name) else none
  | _ => none

theorem lookup_tryUnlink_self {f : Folder N C} {name : N} {entry : Entry C} :
    (f.tryUnlink name).lookup name = some entry ↔
      f.lookup name = some entry ∧ f.isDir name = true := by
  cases h : f.lookup name with
  | none => simp [tryUnlink, unlink, h]
  | some e =>
    cases e with
    | file content => simp [tryUnlink, unlink, isDir, h]
    | dir inner => simp [tryUnlink, unlink, isDir, h]

theorem lookup_tryUnlink_ne {f : Folder N C} {name name' : N} (h : name ≠ name') :
    (f.tryUnlink name').lookup name = f.lookup name := by
  unfold tryUnlink unlink
  split
  · exact AList.lookup_erase_ne h
  · rfl

/-- Directories stay. -/
theorem isDir_tryUnlink (f : Folder N C) (name name' : N) :
    (f.tryUnlink name').isDir name = f.isDir name := by
  rw [Bool.eq_iff_iff, isDir_iff, isDir_iff]
  by_cases h : name = name'
  · subst h
    simp only [lookup_tryUnlink_self, isDir_iff]
    constructor
    · rintro ⟨inner, _, hdir⟩
      exact hdir
    · rintro ⟨inner, hinner⟩
      exact ⟨inner, hinner, inner, hinner⟩
  · rw [lookup_tryUnlink_ne h]

theorem lookup_foldl_tryUnlink (names : List N) (f : Folder N C) {name : N} {entry : Entry C} :
    (names.foldl tryUnlink f).lookup name = some entry ↔
      f.lookup name = some entry ∧ (name ∈ names → f.isDir name = true) := by
  induction names generalizing f with
  | nil => simp
  | cons n names ih =>
    rw [List.foldl_cons, ih, isDir_tryUnlink]
    by_cases h : name = n
    · subst h
      rw [lookup_tryUnlink_self]
      simp +contextual
    · rw [lookup_tryUnlink_ne h, List.mem_cons, or_iff_right h]

/-- A folder is empty after unlinking everything exactly if it has no directory in it. -/
theorem unlinkAll_empty_iff {f : Folder N C} : f.unlinkAll.keys = [] ↔ f.Flat := by
  constructor
  · intro hempty name
    rw [← Bool.not_eq_true]
    intro hdir
    obtain ⟨inner, hinner⟩ := isDir_iff.mp hdir
    have hkept := (lookup_foldl_tryUnlink f.keys f).mpr ⟨hinner, fun _ => hdir⟩
    have hmem : name ∈ f.unlinkAll := AList.lookup_isSome.mp (hkept ▸ rfl)
    rw [AList.mem_keys, hempty] at hmem
    exact List.not_mem_nil hmem
  · intro hflat
    rw [List.eq_nil_iff_forall_not_mem]
    intro name hname
    obtain ⟨entry, hentry⟩ := Option.isSome_iff_exists.mp
      (AList.lookup_isSome.mpr (AList.mem_keys.mpr hname))
    obtain ⟨hlookup, hdir⟩ := (lookup_foldl_tryUnlink f.keys f).mp hentry
    have hmem : name ∈ f.keys := AList.mem_keys.mp (AList.lookup_isSome.mp (hlookup ▸ rfl))
    exact Bool.false_ne_true ((hflat name).symm.trans (hdir hmem))

instance (f : Folder N C) : Decidable f.Flat := decidable_of_iff _ unlinkAll_empty_iff

end Folder

/-! ## The last elements of a descending list -/

/-- In a descending list the elements after the first `k` are those that `k` others exceed. -/
theorem mem_drop_of_descending {α : Type*} [LinearOrder α] {l : List α} (h : l.Pairwise (· > ·))
    {k : Nat} {a : α} : a ∈ l.drop k ↔ a ∈ l ∧ k ≤ (l.filter (a < ·)).length := by
  induction l generalizing k with
  | nil => simp
  | cons x l ih =>
    obtain ⟨hx, hl⟩ := List.pairwise_cons.mp h
    cases k with
    | zero => simp
    | succ k =>
      rw [List.drop_succ_cons, ih hl, List.mem_cons]
      by_cases ha : a ∈ l
      · have hlt : a < x := hx a ha
        rw [List.filter_cons_of_pos (by simpa using hlt), List.length_cons]
        simp [ha]
      · simp only [ha, false_and, or_false, false_iff, not_and, not_le]
        intro hax
        subst hax
        have hnone : (a :: l).filter (a < ·) = [] := by
          rw [List.filter_eq_nil_iff]
          intro b hb
          rcases List.mem_cons.mp hb with rfl | hb
          · simp
          · simpa using (hx b hb).le
        rw [hnone]
        exact Nat.succ_pos k

end WebZapret
