import WebZapret.Lib.Py.Str
import Mathlib.Data.List.DropRight
import Mathlib.Data.List.TakeWhile
import Mathlib.Tactic.Common

/-!
# Stripping, splitting and `dict.fromkeys`

A text without the characters `p` at its ends is what `stripBy p` leaves, and stripping it again
changes nothing. The words of a text have no blank in them. `dict.fromkeys` of a list
(`List.eraseDups`) has each of its elements once, and leaves a list without repetitions as it is.
-/

namespace WebZapret.Py.Str

variable {p : Nat → Bool} {s : Str}

theorem stripBy_eq (p : Nat → Bool) (s : Str) :
    s.stripBy p = (s.dropWhile p).rdropWhile p := rfl

/-- Nothing to strip at either end. -/
theorem stripBy_eq_self (hhead : ∀ c ∈ s.head?, p c = false)
    (hlast : ∀ c ∈ s.getLast?, p c = false) : s.stripBy p = s := by
  have hfront : s.dropWhile p = s := by
    cases s with
    | nil => rfl
    | cons c s => exact List.dropWhile_cons_of_neg (by simp [hhead c rfl])
  rw [stripBy_eq, hfront, List.rdropWhile_eq_self_iff]
  intro hne
  simp [hlast _ (List.getLast?_eq_some_getLast hne)]

theorem stripBy_getLast (p : Nat → Bool) (s : Str) :
    ∀ c ∈ (s.stripBy p).getLast?, p c = false := by
  intro c hc
  rw [stripBy_eq] at hc
  have hne : List.rdropWhile p (s.dropWhile p) ≠ [] := by
    intro hnil
    rw [hnil] at hc
    cases hc
  rw [List.getLast?_eq_some_getLast hne] at hc
  cases hc
  simpa using List.rdropWhile_last_not p (s.dropWhile p) hne

theorem stripBy_head (p : Nat → Bool) (s : Str) : ∀ c ∈ (s.stripBy p).head?, p c = false := by
  intro c hc
  obtain ⟨t, ht⟩ := List.rdropWhile_prefix p (s.dropWhile p)
  have hhead : (s.dropWhile p).head? = some c := by
    rw [stripBy_eq] at hc
    rw [← ht, List.head?_append, hc]
    rfl
  have hnot := List.head?_dropWhile_not p s
  rw [hhead] at hnot
  simpa using hnot

/-- Only the characters at the ends that are stripped are gone. -/
theorem mem_stripBy {c : Nat} (hc : c ∈ s) (hp : p c = false) : c ∈ s.stripBy p := by
  have hmem {l : Str} (hl : c ∈ l) : c ∈ l.dropWhile p := by
    rw [← List.takeWhile_append_dropWhile (p := p) (l := l), List.mem_append] at hl
    refine hl.resolve_left fun htake => ?_
    rw [List.mem_takeWhile_imp htake] at hp
    cases hp
  exact List.mem_reverse.mpr (hmem (List.mem_reverse.mpr (hmem hc)))

/-- Stripping twice is stripping once. -/
theorem stripBy_stripBy (p : Nat → Bool) (s : Str) : (s.stripBy p).stripBy p = s.stripBy p :=
  stripBy_eq_self (stripBy_head p s) (stripBy_getLast p s)

@[simp] theorem strip_strip (s : Str) : s.strip.strip = s.strip := stripBy_stripBy isSpace s

/-- A text without blanks is stripped. -/
theorem strip_eq_self (h : ∀ c ∈ s, isSpace c = false) : s.strip = s :=
  stripBy_eq_self (fun c hc => h c (List.mem_of_mem_head? hc))
    fun c hc => h c (List.mem_of_getLast? hc)

theorem not_isNumberSpace {c : Nat} (h : isSpace c = false) : isNumberSpace c = false := by
  rw [isNumberSpace, h, Bool.false_and]

/-- Nor is there anything for `int` to pass over. -/
theorem stripBy_numberSpace (h : ∀ c ∈ s, isSpace c = false) : s.stripBy isNumberSpace = s :=
  stripBy_eq_self (fun c hc => not_isNumberSpace (h c (List.mem_of_mem_head? hc)))
    fun c hc => not_isNumberSpace (h c (List.mem_of_getLast? hc))

/-! ## Words -/

theorem wordsFrom_clean {cur : Str} (hcur : ∀ c ∈ cur, isSpace c = false) (s : Str) :
    ∀ w ∈ wordsFrom cur s, w ≠ [] ∧ ∀ c ∈ w, isSpace c = false := by
  induction s generalizing cur with
  | nil =>
    intro w hw
    rw [wordsFrom] at hw
    split at hw
    · cases hw
    · rename_i hne
      rw [List.mem_singleton.mp hw]
      exact ⟨hne, hcur⟩
  | cons c s ih =>
    intro w hw
    rw [wordsFrom] at hw
    by_cases hc : isSpace c = true
    · rw [if_pos hc] at hw
      by_cases hnil : cur = []
      · rw [if_pos hnil] at hw
        exact ih (by simp) w hw
      · rw [if_neg hnil] at hw
        rcases List.mem_cons.mp hw with rfl | hw
        · exact ⟨hnil, hcur⟩
        · exact ih (by simp) w hw
    · rw [if_neg hc] at hw
      refine ih ?_ w hw
      intro d hd
      rcases List.mem_append.mp hd with hd | hd
      · exact hcur d hd
      · rw [List.mem_singleton.mp hd]
        simpa using hc

/-- The words of a text are not empty and have no blanks. -/
theorem words_clean (s : Str) : ∀ w ∈ s.words, w ≠ [] ∧ ∀ c ∈ w, isSpace c = false :=
  wordsFrom_clean (by simp) s

theorem wordsFrom_append {w : Str} (hw : ∀ c ∈ w, isSpace c = false) (cur s : Str) :
    wordsFrom cur (w ++ s) = wordsFrom (cur ++ w) s := by
  induction w generalizing cur with
  | nil => rw [List.nil_append, List.append_nil]
  | cons c w ih =>
    have hc := hw c List.mem_cons_self
    rw [List.cons_append, wordsFrom, if_neg (by rw [hc]; decide),
      ih (fun d hd => hw d (List.mem_cons_of_mem c hd)), List.append_assoc, List.singleton_append]

/-- Words that are joined by blanks are found again. -/
theorem words_join {ws : List Str} (h : ∀ w ∈ ws, w ≠ [] ∧ ∀ c ∈ w, isSpace c = false) :
    (Str.join (lit " ") ws).words = ws := by
  unfold words Str.join
  induction ws with
  | nil => rfl
  | cons w ws ih =>
    obtain ⟨⟨hne, hw⟩, hrest⟩ := List.forall_mem_cons.mp h
    cases ws with
    | nil =>
      have hword : wordsFrom [] (w ++ []) = [w] := by
        rw [wordsFrom_append hw, List.nil_append, wordsFrom, if_neg hne]
      rw [List.append_nil] at hword
      rw [List.intercalate_singleton, hword]
    | cons next ws =>
      have hblank : lit " " = [32] := rfl
      have hspace : isSpace 32 = true := by decide
      rw [List.intercalate_cons_cons, List.append_assoc, wordsFrom_append hw, List.nil_append, hblank,
        List.singleton_append, wordsFrom, if_pos hspace, if_neg hne, ← hblank, ih hrest]

/-- Splitting and joining again settles the blanks. -/
theorem words_join_words (s : Str) : (Str.join (lit " ") s.words).words = s.words :=
  words_join (words_clean s)

end WebZapret.Py.Str

namespace WebZapret.Py

variable {α : Type*} [BEq α] [LawfulBEq α]

theorem nodup_eraseDups (l : List α) : l.eraseDups.Nodup := by
  induction hn : l.length using Nat.strong_induction_on generalizing l with
  | _ n ih =>
    cases l with
    | nil => exact List.nodup_nil
    | cons a l =>
      rw [List.eraseDups_cons]
      refine List.nodup_cons.mpr ⟨fun hmem => ?_, ih _ ?_ _ rfl⟩
      · simp at hmem
      · rw [← hn]
        exact Nat.lt_succ_of_le (List.length_filter_le _ l)

theorem eraseDups_eq_self {l : List α} (h : l.Nodup) : l.eraseDups = l := by
  induction l with
  | nil => rfl
  | cons a l ih =>
    obtain ⟨ha, hl⟩ := List.nodup_cons.mp h
    have hfilter : (l.filter fun b => !b == a) = l := by
      apply List.filter_eq_self.mpr
      intro b hb
      have hne : b ≠ a := fun heq => ha (heq ▸ hb)
      simpa using hne
    rw [List.eraseDups_cons, hfilter, ih hl]

end WebZapret.Py
