import WebZapret.Lib.Files
import WebZapret.Lib.Machine

/-!
# Replacing a JSON file

`write_json` writes a document to `path + ".tmp"` and renames that over `path`. Every call uses
the same temporary name, so a second call that opens it truncates the file the first one is still
writing, or is about to publish. While no two calls are between their `open` and their
`os.replace`, readers see whole documents and the last document published is one whose call
returned `True`.

Any number of calls (`ι`) and of reads (`ρ`) run concurrently, in steps of single system calls.

Main results: `replaced_atomically` and the run `shared_tmp_torn`, in which two calls meet.
-/

namespace WebZapret.Panel

/-- The two names of `write_json`. -/
inductive Name where
  | path
  | tmp
  deriving DecidableEq

/-- How far a call of `write_json` is. -/
inductive Call where
  | idle
  | writing (inode offset : Nat)
  | closed
  | returned (ok : Bool)
  deriving DecidableEq

/-- A call is between its `open` and its `os.replace`. -/
def Call.Active : Call → Prop
  | .idle => False
  | .writing _ _ => True
  | .closed => True
  | .returned _ => False

/-- How far a read of `path` is, and what it has read. -/
inductive Read where
  | idle
  | reading (inode : Nat) (got : Bytes)
  | finished (got : Bytes)
  deriving DecidableEq

structure Disk (ι ρ : Type*) where
  files : Files Name
  calls : ι → Call
  reads : ρ → Read

inductive Label (ι ρ : Type*) where
  | openTmp (i : ι)
  | write (i : ι) (n : Nat)
  | close (i : ι)
  | replace (i : ι)
  | openPath (r : ρ)
  | read (r : ρ) (n : Nat)
  | endRead (r : ρ)

variable {ι ρ : Type*}

namespace Disk

/-- `path` holds a document; a file may be left under the temporary name. -/
def start (old : Bytes) (leftover : Option Bytes) : Disk ι ρ where
  files := {
    content := fun k => if k = 0 then old else leftover.getD []
    next := 2
    names := fun
      | .path => some 0
      | .tmp => leftover.map fun _ => 1 }
  calls := fun _ => .idle
  reads := fun _ => .idle

variable [DecidableEq ι] [DecidableEq ρ]

def setCall (s : Disk ι ρ) (i : ι) (c : Call) : Disk ι ρ :=
  { s with calls := Function.update s.calls i c }

def setRead (s : Disk ι ρ) (r : ρ) (c : Read) : Disk ι ρ :=
  { s with reads := Function.update s.reads r c }

/-- One system call of one of the calls or reads; `doc i` is the document of call `i`. -/
def step (doc : ι → Bytes) (s : Disk ι ρ) : Label ι ρ → Option (Disk ι ρ)
  | .openTmp i =>
    match s.calls i with
    | .idle =>
      let (files, k) := s.files.create .tmp
      some ({ s with files := files }.setCall i (.writing k 0))
    | _ => none
  | .write i n =>
    match s.calls i with
    | .writing k offset =>
      let chunk := ((doc i).drop offset).take n
      some ({ s with files := s.files.pwrite k offset chunk }.setCall i
        (.writing k (offset + chunk.length)))
    | _ => none
  | .close i =>
    match s.calls i with
    | .writing _ offset => if offset = (doc i).length then some (s.setCall i .closed) else none
    | _ => none
  | .replace i =>
    match s.calls i with
    | .closed =>
      match s.files.rename .tmp .path with
      | some files => some ({ s with files := files }.setCall i (.returned true))
      | none => some (s.setCall i (.returned false))
    | _ => none
  | .openPath r =>
    match s.reads r, s.files.names .path with
    | .idle, some k => some (s.setRead r (.reading k []))
    | _, _ => none
  | .read r n =>
    match s.reads r with
    | .reading k got =>
      some (s.setRead r (.reading k (got ++ ((s.files.content k).drop got.length).take n)))
    | _ => none
  | .endRead r =>
    match s.reads r with
    | .reading k got =>
      if (s.files.content k).length ≤ got.length then some (s.setRead r (.finished got)) else none
    | _ => none

def machine (doc : ι → Bytes) : Machine (Disk ι ρ) (Label ι ρ) := ⟨step doc⟩

end Disk

/-! ## What atomic replacement means -/

/-- A whole document: the old one, or the one of some call. -/
def Whole (old : Bytes) (doc : ι → Bytes) (b : Bytes) : Prop := b = old ∨ ∃ i, b = doc i

namespace Disk

/-- `path` holds the document of a call that returned `True`. -/
def Holds (doc : ι → Bytes) (s : Disk ι ρ) : Prop :=
  ∃ i k, s.calls i = .returned true ∧ s.files.names .path = some k ∧ s.files.content k = doc i

/-- Every read that has ended has read a whole document, and once every call has returned,
`path` holds the document of one that returned `True`. -/
structure Atomic (old : Bytes) (doc : ι → Bytes) (s : Disk ι ρ) : Prop where
  reads : ∀ r got, s.reads r = .finished got → Whole old doc got
  final : (∀ i, ∃ ok, s.calls i = .returned ok) → s.Holds doc

/-- No call opens the temporary file while another one uses it. -/
def Exclusive (s : Disk ι ρ) : Label ι ρ → Prop
  | .openTmp _ => ∀ j, ¬Call.Active (s.calls j)
  | _ => True

/-! ## The invariant of exclusive runs -/

/-- What the temporary name refers to while call `i` uses it, and what has been written. -/
def Progress (doc : ι → Bytes) (s : Disk ι ρ) (i : ι) : Call → Prop
  | .idle => True
  | .writing k offset => s.files.names .tmp = some k ∧ s.files.content k = (doc i).take offset ∧
      offset ≤ (doc i).length
  | .closed => ∃ k, s.files.names .tmp = some k ∧ s.files.content k = doc i
  | .returned ok => ok = true ∧ s.Holds doc

/-- An inode that has been published: it holds a whole document and no call will write to it. -/
structure Published (old : Bytes) (doc : ι → Bytes) (s : Disk ι ρ) (k : Nat) : Prop where
  whole : Whole old doc (s.files.content k)
  ne_tmp : s.files.names .tmp ≠ some k
  lt : k < s.files.next

/-- What a read has got so far is the front of a published document. -/
def Reads (old : Bytes) (doc : ι → Bytes) (s : Disk ι ρ) : Read → Prop
  | .idle => True
  | .reading k got => Published old doc s k ∧ got <+: s.files.content k
  | .finished got => Whole old doc got

structure Inv (old : Bytes) (doc : ι → Bytes) (s : Disk ι ρ) : Prop where
  path : ∃ k, s.files.names .path = some k ∧ Published old doc s k
  tmp_lt : ∀ k, s.files.names .tmp = some k → k < s.files.next
  single : ∀ i j, Call.Active (s.calls i) → Call.Active (s.calls j) → i = j
  progress : ∀ i, Progress doc s i (s.calls i)
  reads : ∀ r, Reads old doc s (s.reads r)

variable {old : Bytes} {doc : ι → Bytes} {s t : Disk ι ρ}

theorem inv_start (leftover : Option Bytes) :
    Inv old doc (start old leftover : Disk ι ρ) where
  path := by
    refine ⟨0, rfl, .inl rfl, ?_, Nat.zero_lt_two⟩
    cases leftover with
    | none => exact fun h => by cases h
    | some b => exact fun h => by cases h
  tmp_lt k h := by
    cases leftover with
    | none => cases h
    | some b =>
      cases h
      exact Nat.one_lt_two
  single _ _ h := h.elim
  progress _ := trivial
  reads _ := trivial

/-- The property follows from the invariant. -/
theorem Inv.atomic [Nonempty ι] (h : Inv old doc s) : Atomic old doc s where
  reads r got hr := by
    have hread := h.reads r
    rw [hr] at hread
    exact hread
  final hall := by
    obtain ⟨i⟩ := ‹Nonempty ι›
    obtain ⟨ok, hi⟩ := hall i
    have hprogress := h.progress i
    rw [hi] at hprogress
    exact hprogress.2

/-- Published inodes stay as they are from `s` to `t`. -/
def Keeps (old : Bytes) (doc : ι → Bytes) (s t : Disk ι ρ) : Prop :=
  ∀ k, Published old doc s k → Published old doc t k ∧ t.files.content k = s.files.content k

theorem Keeps.reads (h : Keeps old doc s t) {c : Read} (hc : Reads old doc s c) :
    Reads old doc t c := by
  cases c with
  | idle => trivial
  | reading k got =>
    obtain ⟨hk, hgot⟩ := hc
    obtain ⟨hk', hcontent⟩ := h k hk
    exact ⟨hk', hcontent ▸ hgot⟩
  | finished got => exact hc

/-- A step that neither renames nor ends a call keeps `path` where it is. -/
theorem Keeps.holds (h : Keeps old doc s t) (hinv : Inv old doc s)
    (hpath : t.files.names .path = s.files.names .path)
    (hcalls : ∀ i, s.calls i = .returned true → t.calls i = .returned true) (hs : s.Holds doc) :
    t.Holds doc := by
  obtain ⟨i, k, hi, hk, hcontent⟩ := hs
  obtain ⟨k', hk', hpub⟩ := hinv.path
  rw [hk] at hk'
  cases hk'
  exact ⟨i, k, hcalls i hi, by rw [hpath, hk], by rw [(h k hpub).2, hcontent]⟩

theorem Keeps.path (h : Keeps old doc s t) (hinv : Inv old doc s)
    (hpath : t.files.names .path = s.files.names .path) :
    ∃ k, t.files.names .path = some k ∧ Published old doc t k := by
  obtain ⟨k, hk, hpub⟩ := hinv.path
  exact ⟨k, by rw [hpath, hk], (h k hpub).1⟩

/-- While one call is active no other one is. -/
theorem Inv.others {i : ι} (h : Inv old doc s) (hi : (s.calls i).Active) (j : ι) (hj : j ≠ i) :
    ¬(s.calls j).Active :=
  fun hactive => hj (h.single j i hactive hi)

section

variable [DecidableEq ι]

@[simp] theorem setCall_files (i : ι) (c : Call) : (s.setCall i c).files = s.files := rfl

@[simp] theorem setCall_self (i : ι) (c : Call) : (s.setCall i c).calls i = c :=
  Function.update_self ..

theorem setCall_ne {i j : ι} (h : j ≠ i) (c : Call) : (s.setCall i c).calls j = s.calls j :=
  Function.update_of_ne h ..

/-- A step of call `i` while no other call is active. The invariant is about the files alone and
about the progress of call `i`. -/
theorem inv_call {i : ι} {c : Call} (files : Files Name) (h : Inv old doc s)
    (hi : s.calls i ≠ .returned true) (hothers : ∀ j, j ≠ i → ¬(s.calls j).Active)
    (hkeeps : Keeps old doc s ({ s with files := files }.setCall i c))
    (hpath : c = .returned true ∨ files.names .path = s.files.names .path)
    (hpublished : ∃ k, files.names .path = some k ∧
      Published old doc ({ s with files := files }.setCall i c) k)
    (htmp : ∀ k, files.names .tmp = some k → k < files.next)
    (hprogress : Progress doc ({ s with files := files }.setCall i c) i c) :
    Inv old doc ({ s with files := files }.setCall i c) := by
  have honly : ∀ j, (({ s with files := files }.setCall i c).calls j).Active → j = i := by
    intro j hj
    by_contra hne
    rw [setCall_ne hne] at hj
    exact hothers j hne hj
  have hcalls : ∀ j, s.calls j = .returned true →
      ({ s with files := files }.setCall i c).calls j = .returned true := by
    intro j hj
    have hne : j ≠ i := fun heq => hi (heq ▸ hj)
    rw [setCall_ne hne, hj]
  refine ⟨hpublished, htmp, ?_, ?_, fun r => hkeeps.reads (h.reads r)⟩
  · intro j j' hj hj'
    rw [honly j hj, honly j' hj']
  · intro j
    by_cases hj : j = i
    · subst hj
      rw [setCall_self]
      exact hprogress
    · have hbefore := h.progress j
      have hinactive := hothers j hj
      rw [setCall_ne hj]
      cases hc : s.calls j with
      | idle => trivial
      | writing k offset =>
        rw [hc] at hinactive
        exact absurd trivial hinactive
      | closed =>
        rw [hc] at hinactive
        exact absurd trivial hinactive
      | returned ok =>
        rw [hc] at hbefore
        refine ⟨hbefore.1, ?_⟩
        rcases hpath with hreturned | hpath
        · rw [hreturned] at hprogress ⊢
          exact hprogress.2
        · exact hkeeps.holds h hpath hcalls hbefore.2

theorem inv_openTmp {i : ι} (h : Inv old doc s) (hg : ∀ j, ¬(s.calls j).Active)
    (hi : s.calls i = .idle) :
    Inv old doc ({ s with files := (s.files.create .tmp).1 }.setCall i
      (.writing (s.files.create .tmp).2 0)) := by
  obtain ⟨htmp, hempty⟩ := Files.create_spec s.files Name.tmp
  have hpath : (s.files.create Name.tmp).1.names .path = s.files.names .path :=
    Files.create_names (by decide)
  have hkeeps : Keeps old doc s ({ s with files := (s.files.create .tmp).1 }.setCall i
      (.writing (s.files.create .tmp).2 0)) := by
    intro k hk
    have hcontent := Files.create_content hk.ne_tmp hk.lt
    refine ⟨⟨hcontent ▸ hk.whole, ?_, hk.lt.trans_le (Files.create_next_le _)⟩, hcontent⟩
    rw [setCall_files, htmp]
    exact fun heq => Files.create_ne hk.ne_tmp hk.lt (Option.some.inj heq)
  refine inv_call _ h (by simp [hi]) (fun j _ => hg j) hkeeps (.inr hpath) (hkeeps.path h hpath)
    ?_ ⟨htmp, hempty, Nat.zero_le _⟩
  intro k hk
  rw [htmp] at hk
  cases hk
  exact Files.create_lt h.tmp_lt

theorem inv_write {i : ι} {k offset n : Nat} (h : Inv old doc s)
    (hi : s.calls i = .writing k offset) :
    Inv old doc ({ s with files := s.files.pwrite k offset (((doc i).drop offset).take n) }.setCall i
      (.writing k (offset + (((doc i).drop offset).take n).length))) := by
  have hprogress := h.progress i
  rw [hi] at hprogress
  obtain ⟨htmp, hcontent, hoffset⟩ := hprogress
  have hkeeps : Keeps old doc s
      ({ s with files := s.files.pwrite k offset (((doc i).drop offset).take n) }.setCall i
        (.writing k (offset + (((doc i).drop offset).take n).length))) := by
    intro k' hk'
    have hne : k' ≠ k := fun heq => hk'.ne_tmp (heq ▸ htmp)
    have hsame := Files.pwrite_content_ne s.files hne offset (((doc i).drop offset).take n)
    exact ⟨⟨hsame ▸ hk'.whole, hk'.ne_tmp, hk'.lt⟩, hsame⟩
  refine inv_call _ h (by simp [hi]) (h.others (by simp [hi, Call.Active])) hkeeps (.inr rfl)
    (hkeeps.path h rfl) h.tmp_lt ⟨htmp, ?_, ?_⟩
  · have hlen : (s.files.content k).length = offset := by
      rw [hcontent, List.length_take, Nat.min_eq_left hoffset]
    have happend := Files.pwrite_end s.files k (((doc i).drop offset).take n)
    rw [hlen, hcontent] at happend
    rw [setCall_files, happend, List.take_add]
    congr 1
    rw [List.length_take, ← List.take_take, List.take_length]
  · rw [List.length_take, List.length_drop]
    omega

theorem inv_close {i : ι} {k offset : Nat} (h : Inv old doc s)
    (hi : s.calls i = .writing k offset) (hend : offset = (doc i).length) :
    Inv old doc (s.setCall i .closed) := by
  have hprogress := h.progress i
  rw [hi] at hprogress
  obtain ⟨htmp, hcontent, -⟩ := hprogress
  have hkeeps : Keeps old doc s (s.setCall i .closed) :=
    fun k hk => ⟨⟨hk.whole, hk.ne_tmp, hk.lt⟩, rfl⟩
  refine inv_call s.files h (by simp [hi]) (h.others (by simp [hi, Call.Active])) hkeeps
    (.inr rfl) (hkeeps.path h rfl) h.tmp_lt ⟨k, htmp, ?_⟩
  rw [setCall_files, hcontent, hend, List.take_length]

theorem inv_replace {i : ι} {files : Files Name} (h : Inv old doc s) (hi : s.calls i = .closed)
    (hrename : s.files.rename .tmp .path = some files) :
    Inv old doc ({ s with files := files }.setCall i (.returned true)) := by
  have hprogress := h.progress i
  rw [hi] at hprogress
  obtain ⟨k, htmp, hcontent⟩ := hprogress
  rw [Files.rename, htmp] at hrename
  injection hrename with hrename
  subst hrename
  have hpublished : Published old doc ({ s with files := { s.files with
      names := Function.update (Function.update s.files.names .tmp none) .path (some k) } }.setCall i
      (.returned true)) k := ⟨.inr ⟨i, hcontent⟩, (fun hno => by cases hno), h.tmp_lt k htmp⟩
  refine inv_call _ h (by simp [hi]) (h.others (by simp [hi, Call.Active]))
    (fun k' hk' => ⟨⟨hk'.whole, (fun hno => by cases hno), hk'.lt⟩, rfl⟩) (.inl rfl)
    ⟨k, rfl, hpublished⟩ (fun k' hk' => by cases hk') ⟨rfl, i, k, setCall_self .., rfl, hcontent⟩

end

/-! ## Reads and runs -/

/-- A step of a read changes neither the files nor the calls. -/
theorem inv_read [DecidableEq ρ] {r : ρ} {c : Read} (h : Inv old doc s) (hc : Reads old doc s c) :
    Inv old doc (s.setRead r c) where
  path := by
    obtain ⟨k, hk, hpub⟩ := h.path
    exact ⟨k, hk, hpub.whole, hpub.ne_tmp, hpub.lt⟩
  tmp_lt := h.tmp_lt
  single := h.single
  progress i := by
    have hprogress := h.progress i
    show Progress doc _ i (s.calls i)
    cases hi : s.calls i with
    | idle => trivial
    | writing k offset =>
      rw [hi] at hprogress
      exact hprogress
    | closed =>
      rw [hi] at hprogress
      exact hprogress
    | returned ok =>
      rw [hi] at hprogress
      exact hprogress
  reads r' := by
    have hkeeps : Keeps old doc s (s.setRead r c) :=
      fun k hk => ⟨⟨hk.whole, hk.ne_tmp, hk.lt⟩, rfl⟩
    by_cases hr : r' = r
    · have hself : (s.setRead r c).reads r' = c := hr ▸ Function.update_self ..
      rw [hself]
      exact hkeeps.reads hc
    · have hother : (s.setRead r c).reads r' = s.reads r' := Function.update_of_ne hr ..
      rw [hother]
      exact hkeeps.reads (h.reads r')

variable [DecidableEq ι] [DecidableEq ρ]

/-- **A step of an exclusive run keeps the invariant.** -/
theorem inv_step {a : Label ι ρ} (h : Inv old doc s) (hg : Exclusive s a)
    (hstep : step doc s a = some t) : Inv old doc t := by
  cases a with
  | openTmp i =>
    simp only [step] at hstep
    split at hstep
    · cases hstep
      exact inv_openTmp h hg ‹_›
    · cases hstep
  | write i n =>
    simp only [step] at hstep
    split at hstep
    · cases hstep
      exact inv_write h ‹_›
    · cases hstep
  | close i =>
    simp only [step] at hstep
    split at hstep
    · split at hstep
      · cases hstep
        exact inv_close h ‹_› ‹_›
      · cases hstep
    · cases hstep
  | replace i =>
    simp only [step] at hstep
    split at hstep
    · rename_i hclosed
      split at hstep
      · cases hstep
        exact inv_replace h hclosed ‹_›
      · -- the temporary file of a closed call is there
        rename_i hrename
        have hprogress := h.progress i
        rw [hclosed] at hprogress
        obtain ⟨k, htmp, -⟩ := hprogress
        rw [Files.rename, htmp] at hrename
        cases hrename
    · cases hstep
  | openPath r =>
    simp only [step] at hstep
    split at hstep
    · rename_i k _ hk
      cases hstep
      obtain ⟨k', hk', hpub⟩ := h.path
      rw [hk] at hk'
      cases hk'
      exact inv_read h ⟨hpub, List.nil_prefix⟩
    · cases hstep
  | read r n =>
    simp only [step] at hstep
    split at hstep
    · rename_i k got hr
      cases hstep
      have hread := h.reads r
      rw [hr] at hread
      obtain ⟨hpub, rest, hrest⟩ := hread
      refine inv_read h ⟨hpub, ?_⟩
      rw [← hrest, List.drop_left]
      exact List.prefix_append_right_inj got |>.mpr (List.take_prefix n rest)
    · cases hstep
  | endRead r =>
    simp only [step] at hstep
    split at hstep
    · rename_i k got hr
      split at hstep
      · rename_i hlen
        cases hstep
        have hread := h.reads r
        rw [hr] at hread
        obtain ⟨hpub, hgot⟩ := hread
        have heq : got = s.files.content k := hgot.eq_of_length_le hlen
        exact inv_read h (heq ▸ hpub.whole)
      · cases hstep
    · cases hstep

/-- **Replacement is atomic in exclusive runs.** While no call opens the temporary file between
another call's `open` and its `os.replace`, every read gets the old document or the document of
some call, and when all calls have returned `path` holds the document of one that returned
`True`. -/
theorem replaced_atomically [Nonempty ι] (old : Bytes) (doc : ι → Bytes)
    (leftover : Option Bytes) (labels : List (Label ι ρ))
    (h : (machine doc).Guarded Exclusive (start old leftover) labels) :
    (machine doc).Always (Atomic old doc) (start old leftover) labels :=
  ((machine doc).always_of_guarded (fun _ _ _ hi hg hs => inv_step hi hg hs) (inv_start leftover)
    h).mono fun _ hi => hi.atomic

/-! ## Two calls that meet -/

/-- The documents of two calls, `22` and `333`. -/
def exampleDoc : Bool → Bytes
  | false => [0x32, 0x32]
  | true => [0x33, 0x33, 0x33]

/-- The second call opens the temporary file when the first one is about to publish it. -/
def meeting : List (Label Bool Unit) :=
  [.openTmp false, .write false 2, .close false, .openTmp true, .replace false, .openPath (),
    .endRead (), .write true 3, .close true, .replace true]

/-- **A torn read and a lost rename.** The reader gets the empty file that the second call has
just truncated, the second call returns `False`, and its document is the one that stays. -/
theorem shared_tmp_torn :
    (∃ t, (machine exampleDoc).run (start [0x31] none) meeting = some t ∧
      t.reads () = .finished [] ∧ t.calls false = .returned true ∧
      t.calls true = .returned false ∧ t.files.names .path = some 2 ∧
      t.files.content 2 = exampleDoc true) ∧
    ¬(machine exampleDoc).Always (Atomic [0x31] exampleDoc) (start [0x31] none) meeting := by
  obtain ⟨t, hrun⟩ : ∃ t, (machine exampleDoc).run (start [0x31] none) meeting = some t := ⟨_, rfl⟩
  have hread : t.reads () = .finished [] := by
    cases hrun
    rfl
  refine ⟨⟨t, hrun, hread, ?_⟩, fun halways => ?_⟩
  · cases hrun
    exact ⟨rfl, rfl, rfl, rfl⟩
  · rcases (halways.last hrun).reads () [] hread with hold | ⟨i, hi⟩
    · cases hold
    · cases i with
      | false => cases hi
      | true => cases hi

/-- One call at a time. -/
def turns : List (Label Bool Unit) :=
  [.openTmp false, .write false 1, .openPath (), .write false 5, .close false, .replace false,
    .read () 9, .openTmp true, .write true 3, .endRead (), .close true, .replace true]

theorem replaced_atomically_turns :
    (machine exampleDoc).Guarded Exclusive (start [0x31] none) turns ∧
    (machine exampleDoc).Always (Atomic [0x31] exampleDoc) (start [0x31] none) turns := by
  have hfirst : Exclusive (start [0x31] none : Disk Bool Unit) (.openTmp false) := by
    intro j
    exact id
  have hguarded : (machine exampleDoc).Guarded Exclusive (start [0x31] none) turns := by
    refine .cons rfl hfirst <| .cons rfl trivial <| .cons rfl trivial <| .cons rfl trivial <|
      .cons rfl trivial <| .cons rfl trivial <| .cons rfl trivial <| .cons rfl ?_ <|
      .cons rfl trivial <| .cons rfl trivial <| .cons rfl trivial <| .cons rfl trivial trivial
    -- the first call has returned
    intro j
    cases j with
    | false => exact id
    | true => exact id
  exact ⟨hguarded, replaced_atomically _ _ none turns hguarded⟩

end Disk

end WebZapret.Panel
