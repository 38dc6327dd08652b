import WebZapret.Lib.StableSort
import WebZapret.Panel.Logs
import Mathlib.Data.List.Lex

/-!
# Merging the logs

`_collected_entries` gives every line the timestamp of the line, or of the last line of its file that
had one, and sorts the lines of all modules by timestamp, module and place in the file.

The timestamps of a file may go backwards, and then a file is cut into pieces. The cuts are before
lines with a timestamp: **Theorem (`collectedEntries_merged`).** Every line is there once, in the order
of its timestamp, and a line without one comes immediately after the line before it in its file.
-/

namespace WebZapret.Panel.Http

open Py Failing Selection

section

variable [Tables]

/-- The lines that `_collected_entries` reads of a module. -/
def logLines (logs : Str → LogFile) (tailBytes : Str → Nat) (mod : Str) : List Str :=
  (readFileLines (logs mod) (tailBytes mod)).getD []

/-- The last timestamp of the lines up to one. -/
def lastTimestamp (lines : List Str) (seq : Nat) : Option Str :=
  (lines.take (seq + 1)).reverse.findSome? timestamp

/-- The entry of a line: its own timestamp, or the one that it inherits, or none. -/
def lineEntry (rank : Nat) (mod : Str) (lines : List Str) (line : Str) (seq : Nat) : LogEntry :=
  ⟨(lastTimestamp lines seq).getD [], rank, seq, tagged mod line⟩

/-- The entries of a module, in the order of its file. -/
def fileEntries (logs : Str → LogFile) (tailBytes : Str → Nat) (mod : Str) (rank : Nat) :
    List LogEntry :=
  (logLines logs tailBytes mod).zipIdx.map fun p =>
    lineEntry rank mod (logLines logs tailBytes mod) p.1 p.2

/-- What a merged log should be. -/
structure Merged (logs : Str → LogFile) (tailBytes : Str → Nat) (out : List LogEntry) : Prop where
  complete : out.Perm (logModules.zipIdx.flatMap fun (mod, rank) =>
    fileEntries logs tailBytes mod rank)
  ordered : out.Pairwise fun a b => a.ts ≤ b.ts
  inFileOrder : out.Pairwise fun a b => a.ts = b.ts → a.rank = b.rank → a.seq < b.seq
  together : ∀ mod rank, (mod, rank) ∈ logModules.zipIdx → ∀ seq line next,
    (logLines logs tailBytes mod)[seq]? = some line →
    (logLines logs tailBytes mod)[seq + 1]? = some next → timestamp next = none →
    ∃ pre post, out = pre ++ lineEntry rank mod (logLines logs tailBytes mod) line seq ::
      lineEntry rank mod (logLines logs tailBytes mod) next (seq + 1) :: post

/-! ## The entries of a module -/

theorem lastTimestamp_cons (line : Str) (lines : List Str) (seq : Nat) :
    lastTimestamp (line :: lines) (seq + 1) = (lastTimestamp lines seq).or (timestamp line) := by
  rw [lastTimestamp, List.take_succ_cons, List.reverse_cons, List.findSome?_append,
    List.findSome?_singleton]
  rfl

/-- The loop over the lines of a module. -/
theorem moduleEntries_eq (rank : Nat) (mod lastTs : Str) (seq : Nat) (lines : List Str) :
    moduleEntries rank mod lastTs seq lines = lines.zipIdx.map fun p =>
      ⟨(lastTimestamp lines p.2).getD lastTs, rank, seq + p.2, tagged mod p.1⟩ := by
  induction lines generalizing lastTs seq with
  | nil => rfl
  | cons line lines ih =>
    have hfirst : lastTimestamp (line :: lines) 0 = timestamp line := by
      rw [lastTimestamp]
      exact List.findSome?_singleton ..
    have hstep (p : Str × Nat) : (lastTimestamp lines p.2).getD ((timestamp line).getD lastTs) =
        (lastTimestamp (line :: lines) (p.2 + 1)).getD lastTs := by
      rw [lastTimestamp_cons]
      cases lastTimestamp lines p.2 <;> rfl
    rw [moduleEntries, ih, List.zipIdx_cons', List.map_cons, List.map_map, hfirst]
    refine congrArg _ (List.map_congr_left fun p _ => ?_)
    rw [hstep, Nat.add_assoc, Nat.add_comm 1]
    rfl

/-- The entries before they are sorted. -/
def allEntries (logs : Str → LogFile) (tailBytes : Str → Nat) : List LogEntry :=
  logModules.zipIdx.flatMap fun (mod, rank) => fileEntries logs tailBytes mod rank

theorem collectedEntries_eq (logs : Str → LogFile) (tailBytes : Str → Nat) :
    collectedEntries logs tailBytes = (allEntries logs tailBytes).insertionSort LogEntry.Before := by
  unfold collectedEntries allEntries
  refine congrArg _ (List.flatMap_congr fun p _ => ?_)
  show moduleEntries p.2 p.1 [] 0 (logLines logs tailBytes p.1) = _
  rw [moduleEntries_eq]
  refine List.map_congr_left fun q _ => ?_
  rw [Nat.zero_add]
  rfl

/-! ## Places -/

/-- The order of the places of the lines: by module, then in the file. -/
def LogEntry.Earlier (a b : LogEntry) : Prop := a.rank < b.rank ∨ a.rank = b.rank ∧ a.seq < b.seq

theorem mem_fileEntries {logs : Str → LogFile} {tailBytes : Str → Nat} {mod : Str} {rank : Nat}
    {e : LogEntry} : e ∈ fileEntries logs tailBytes mod rank ↔
      ∃ line seq, (logLines logs tailBytes mod)[seq]? = some line ∧
        e = lineEntry rank mod (logLines logs tailBytes mod) line seq := by
  unfold fileEntries
  rw [List.mem_map]
  constructor
  · rintro ⟨⟨line, seq⟩, hmem, rfl⟩
    exact ⟨line, seq, List.mem_zipIdx_iff_getElem?.mp hmem, rfl⟩
  · rintro ⟨line, seq, hline, rfl⟩
    exact ⟨(line, seq), List.mem_zipIdx_iff_getElem?.mpr hline, rfl⟩

omit [Tables] in
/-- An index that grows along the list. -/
theorem pairwise_zipIdx {α : Type} (l : List α) (i : Nat) :
    (l.zipIdx i).Pairwise fun p q => p.2 < q.2 := by
  have hsnd : ((l.zipIdx i).map Prod.snd).Pairwise (· < ·) := by
    rw [List.zipIdx_map_snd]
    exact List.pairwise_lt_range'
  exact List.pairwise_map.mp hsnd

/-- Before they are sorted, the entries are in the order of their places. -/
theorem pairwise_earlier (logs : Str → LogFile) (tailBytes : Str → Nat) :
    (allEntries logs tailBytes).Pairwise LogEntry.Earlier := by
  refine List.pairwise_flatMap.mpr ⟨fun p _ => ?_, ?_⟩
  · refine List.pairwise_map.mpr ((pairwise_zipIdx _ 0).imp fun h => ?_)
    exact .inr ⟨rfl, h⟩
  · refine (pairwise_zipIdx logModules 0).imp fun {p q} h a ha b hb => ?_
    obtain ⟨_, _, _, rfl⟩ := mem_fileEntries.mp ha
    obtain ⟨_, _, _, rfl⟩ := mem_fileEntries.mp hb
    exact .inl h

/-! ## The order of the merged log -/

end

namespace LogEntry

variable {a b c : LogEntry}

theorem before_total (a b : LogEntry) : a.Before b ∨ b.Before a := by
  unfold Before
  rcases lt_trichotomy a.ts b.ts with h | h | h
  · exact .inl (.inl h)
  · rw [h]
    rcases lt_trichotomy a.rank b.rank with hrank | hrank | hrank
    · exact .inl (.inr ⟨rfl, .inl hrank⟩)
    · rw [hrank]
      rcases le_total a.seq b.seq with hseq | hseq
      · exact .inl (.inr ⟨rfl, .inr ⟨rfl, hseq⟩⟩)
      · exact .inr (.inr ⟨rfl, .inr ⟨rfl, hseq⟩⟩)
    · exact .inr (.inr ⟨rfl, .inl hrank⟩)
  · exact .inr (.inl h)

theorem before_trans (hab : a.Before b) (hbc : b.Before c) : a.Before c := by
  unfold Before at hab hbc ⊢
  rcases hab with hab | ⟨hts, hab⟩
  · rcases hbc with hbc | ⟨hts, _⟩
    · exact .inl (lt_trans hab hbc)
    · exact .inl (hts ▸ hab)
  · rw [hts]
    rcases hbc with hbc | ⟨hts, hbc⟩
    · exact .inl hbc
    · exact .inr ⟨hts, by omega⟩

instance : Std.Total Before := ⟨before_total⟩

instance : IsTrans LogEntry Before := ⟨fun _ _ _ => before_trans⟩

/-- The order of the entries of different lines. -/
def Precedes (a b : LogEntry) : Prop := a.ts < b.ts ∨ a.ts = b.ts ∧ a.Earlier b

theorem precedes_asymm (a b : LogEntry) (hab : a.Precedes b) : ¬b.Precedes a := by
  unfold Precedes Earlier at *
  rcases hab with hab | ⟨hts, hab⟩
  · rintro (hba | ⟨hts, _⟩)
    · exact lt_asymm hab hba
    · exact lt_irrefl _ (hts ▸ hab)
  · rw [hts]
    rintro (hba | ⟨_, hba⟩)
    · exact lt_irrefl _ hba
    · omega

end LogEntry

variable [Tables]

/-- **The merged log is strictly sorted.** -/
theorem pairwise_precedes (logs : Str → LogFile) (tailBytes : Str → Nat) :
    (collectedEntries logs tailBytes).Pairwise LogEntry.Precedes := by
  rw [collectedEntries_eq]
  have hsorted := List.pairwise_insertionSort LogEntry.Before (allEntries logs tailBytes)
  have hdistinct : ((allEntries logs tailBytes).insertionSort LogEntry.Before).Pairwise
      fun a b => ¬(a.rank = b.rank ∧ a.seq = b.seq) := by
    refine ((List.perm_insertionSort _ _).pairwise_iff ?_).mpr ?_
    · rintro a b hab ⟨hrank, hseq⟩
      exact hab ⟨hrank.symm, hseq.symm⟩
    · refine (pairwise_earlier logs tailBytes).imp fun {a b} h => ?_
      unfold LogEntry.Earlier at h
      omega
  refine (hsorted.and hdistinct).imp fun {a b} h => ?_
  obtain ⟨hbefore, hne⟩ := h
  unfold LogEntry.Before at hbefore
  unfold LogEntry.Precedes LogEntry.Earlier
  exact hbefore.imp_right (And.imp_right fun hplace => by omega)

/-- A line without a timestamp inherits that of the line before it. -/
theorem lastTimestamp_succ {lines : List Str} {seq : Nat} {next : Str}
    (hnext : lines[seq + 1]? = some next) (hnone : timestamp next = none) :
    lastTimestamp lines (seq + 1) = lastTimestamp lines seq := by
  have htake : lines.take (seq + 1 + 1) = lines.take (seq + 1) ++ [next] := by
    rw [List.take_add_one, hnext]
    rfl
  rw [lastTimestamp, htake, List.reverse_append, List.reverse_singleton, List.findSome?_append,
    List.findSome?_singleton, hnone, Option.none_or]
  rfl

/-- **Merging loses and scatters nothing.** -/
theorem collectedEntries_merged (logs : Str → LogFile) (tailBytes : Str → Nat) :
    Merged logs tailBytes (collectedEntries logs tailBytes) := by
  have hstrict := pairwise_precedes logs tailBytes
  have hperm : (collectedEntries logs tailBytes).Perm (allEntries logs tailBytes) := by
    rw [collectedEntries_eq]
    exact List.perm_insertionSort _ _
  refine ⟨hperm, hstrict.imp fun h => ?_, hstrict.imp fun h hts hrank => ?_, ?_⟩
  · exact h.elim le_of_lt fun h => le_of_eq h.1
  · rcases h with h | ⟨_, h⟩
    · exact absurd (hts ▸ h) (lt_irrefl _)
    · unfold LogEntry.Earlier at h
      omega
  · intro mod rank hmod seq line next hline hnext hnone
    have hmem {l : Str} {k : Nat} (h : (logLines logs tailBytes mod)[k]? = some l) :
        lineEntry rank mod (logLines logs tailBytes mod) l k ∈ collectedEntries logs tailBytes :=
      hperm.mem_iff.mpr (List.mem_flatMap.mpr ⟨(mod, rank), hmod, mem_fileEntries.mpr ⟨l, k, h, rfl⟩⟩)
    have hts : (lineEntry rank mod (logLines logs tailBytes mod) line seq).ts =
        (lineEntry rank mod (logLines logs tailBytes mod) next (seq + 1)).ts :=
      congrArg (fun ts => ts.getD []) (lastTimestamp_succ hnext hnone).symm
    refine exists_adjacent LogEntry.precedes_asymm hstrict (hmem hline) (hmem hnext) ?_ ?_
    · exact .inr ⟨hts, .inr ⟨rfl, Nat.lt_succ_self seq⟩⟩
    · -- an entry between the two would have their timestamp and a place between theirs
      rintro e _ (hlt | ⟨heq, hplace⟩) (hlt' | ⟨heq', hplace'⟩)
      · exact lt_asymm hlt (hts ▸ hlt')
      · rw [hts, heq'] at hlt
        exact lt_irrefl _ hlt
      · rw [← heq, hts] at hlt'
        exact lt_irrefl _ hlt'
      · unfold LogEntry.Earlier lineEntry at hplace hplace'
        dsimp only at hplace hplace'
        omega

end WebZapret.Panel.Http
