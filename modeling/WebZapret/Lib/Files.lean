import WebZapret.Lib.Bytes
import Mathlib.Logic.Function.Basic

/-!
# Files, names and open descriptors

Names refer to inodes and a rename moves a reference, so that a descriptor goes on writing to
the inode it was opened on, whatever name that inode has by then. An inode that no name refers to
keeps its content for those who have it open.
-/

namespace WebZapret

/-- A directory: the content of every inode, the first unused inode, and the names. -/
structure Files (N : Type*) where
  content : Nat → Bytes
  next : Nat
  names : N → Option Nat

namespace Files

variable {N : Type*} (fs : Files N)

/-- Put a chunk into a file at an offset; a gap before it is filled with zeros. -/
def overwrite (content : Bytes) (offset : Nat) (chunk : Bytes) : Bytes :=
  (content ++ List.replicate (offset - content.length) 0).take offset ++ chunk ++
    content.drop (offset + chunk.length)

/-- `write` at a descriptor's offset. -/
def pwrite (k offset : Nat) (chunk : Bytes) : Files N :=
  { fs with content := Function.update fs.content k (overwrite (fs.content k) offset chunk) }

/-- Writing at the end appends. -/
theorem overwrite_end (content chunk : Bytes) :
    overwrite content content.length chunk = content ++ chunk := by
  rw [overwrite, Nat.sub_self, List.replicate_zero, List.append_nil, List.take_length,
    List.drop_eq_nil_of_le (Nat.le_add_right ..), List.append_nil]

section

variable {fs}

theorem pwrite_content_ne (fs : Files N) {j k : Nat} (h : j ≠ k) (offset : Nat) (chunk : Bytes) :
    (fs.pwrite k offset chunk).content j = fs.content j := Function.update_of_ne h ..

/-- Writing at the end of an inode appends to it. -/
theorem pwrite_end (fs : Files N) (k : Nat) (chunk : Bytes) :
    (fs.pwrite k (fs.content k).length chunk).content k = fs.content k ++ chunk := by
  rw [pwrite]
  simp only [Function.update_self, overwrite_end]

end

/-! ## Names -/

variable [DecidableEq N]

/-- `open(name, O_WRONLY | O_CREAT | O_TRUNC)`: the directory and the inode that is open. -/
def create (name : N) : Files N × Nat :=
  match fs.names name with
  | some k => ({ fs with content := Function.update fs.content k [] }, k)
  | none => ({
      content := Function.update fs.content fs.next []
      next := fs.next + 1
      names := Function.update fs.names name (some fs.next) }, fs.next)

/-- `rename(a, b)`, which fails when there is no file `a`. -/
def rename (a b : N) : Option (Files N) :=
  (fs.names a).map fun k =>
    { fs with names := Function.update (Function.update fs.names a none) b (some k) }

variable {fs}

/-- After `open`, the name refers to the open inode, which is empty. -/
theorem create_spec (fs : Files N) (name : N) :
    (fs.create name).1.names name = some (fs.create name).2 ∧
      (fs.create name).1.content (fs.create name).2 = [] := by
  unfold create
  split
  · rename_i k hk
    exact ⟨hk, Function.update_self ..⟩
  · exact ⟨Function.update_self .., Function.update_self ..⟩

theorem create_names {name n : N} (h : n ≠ name) : (fs.create name).1.names n = fs.names n := by
  unfold create
  split
  · rfl
  · exact Function.update_of_ne h ..

/-- An inode in use that has another name, or none, is not touched by `open`. -/
theorem create_content {name : N} {k : Nat} (hname : fs.names name ≠ some k) (hk : k < fs.next) :
    (fs.create name).1.content k = fs.content k := by
  unfold create
  split
  · rename_i j hj
    exact Function.update_of_ne (fun heq => hname (by rw [hj, heq])) ..
  · exact Function.update_of_ne (Nat.ne_of_lt hk) ..

theorem create_ne {name : N} {k : Nat} (hname : fs.names name ≠ some k) (hk : k < fs.next) :
    (fs.create name).2 ≠ k := by
  unfold create
  split
  · rename_i j hj
    exact fun heq => hname (hj.trans (congrArg some heq))
  · exact (Nat.ne_of_lt hk).symm

theorem create_next_le (name : N) : fs.next ≤ (fs.create name).1.next := by
  unfold create
  split
  · exact Nat.le_refl _
  · exact Nat.le_succ _

theorem create_lt {name : N} (h : ∀ k, fs.names name = some k → k < fs.next) :
    (fs.create name).2 < (fs.create name).1.next := by
  unfold create
  split
  · rename_i k hk
    exact h k hk
  · exact Nat.lt_succ_self _

end Files

end WebZapret
