import WebZapret.Lib.Py.Strip

/-!
# The runs of a text

The runs of the characters `p`, longest first come, are what is left of a text whose other
characters are put into one `_` a run and stripped at the ends: the runs with a `_` between
(`stripBy_squash`).
-/

namespace WebZapret.Py.Str

/-- The runs of the characters `p`, with the characters of the current one. -/
def runsFrom (p : Nat → Bool) (cur : Str) : Str → List Str
  | [] => if cur = [] then [] else [cur]
  | c :: s =>
    if p c then runsFrom p (cur ++ [c]) s
    else if cur = [] then runsFrom p [] s else cur :: runsFrom p [] s

/-- The runs of the characters `p`. -/
def runs (p : Nat → Bool) (s : Str) : List Str := runsFrom p [] s

variable {p : Nat → Bool}

theorem runsFrom_clean {cur : Str} (hcur : ∀ c ∈ cur, p c = true) (s : Str) :
    ∀ w ∈ runsFrom p cur s, w ≠ [] ∧ ∀ c ∈ w, p c = true := by
  induction s generalizing cur with
  | nil =>
    by_cases hnil : cur = []
    · simp [runsFrom, hnil]
    · simpa [runsFrom, hnil] using hcur
  | cons c s ih =>
    by_cases hc : p c = true
    · rw [runsFrom, if_pos hc]
      apply ih
      simpa [or_imp, forall_and] using ⟨hcur, hc⟩
    · rw [runsFrom, if_neg hc]
      have hrest := @ih [] (by simp)
      split
      · exact hrest
      · rename_i hnil
        exact List.forall_mem_cons.mpr ⟨⟨hnil, hcur⟩, hrest⟩

theorem runs_clean (p : Nat → Bool) (s : Str) : ∀ w ∈ runs p s, w ≠ [] ∧ ∀ c ∈ w, p c = true :=
  runsFrom_clean (by simp) s

/-- What is left of a text after `squash`, where a run may be open: its runs and some `_`. -/
theorem squashFrom_eq (cur : Str) (inRun : Bool) (h : inRun = true ↔ cur = []) (s : Str) :
    ∃ n, cur ++ s.squashFrom p inRun =
      join [95] (runsFrom p cur s) ++ List.replicate n 95 := by
  induction s generalizing cur inRun with
  | nil =>
    refine ⟨0, ?_⟩
    by_cases hnil : cur = []
    · simp [runsFrom, hnil, squashFrom, join]
    · simp [runsFrom, hnil, squashFrom, join]
  | cons c s ih =>
    by_cases hc : p c = true
    · obtain ⟨n, hn⟩ := ih (cur ++ [c]) false (by simp)
      refine ⟨n, ?_⟩
      rw [runsFrom, if_pos hc, ← hn, squashFrom, if_pos hc]
      simp
    · obtain ⟨n, hn⟩ := ih [] true (by simp)
      rw [List.nil_append] at hn
      rw [runsFrom, if_neg hc, squashFrom, if_neg hc]
      by_cases hnil : cur = []
      · refine ⟨n, ?_⟩
        rw [if_pos (h.mpr hnil), if_pos hnil, hn, hnil, List.nil_append]
      · rw [if_neg (mt h.mp hnil), if_neg hnil, hn]
        cases runsFrom p [] s with
        | nil => exact ⟨n + 1, by simp [join, List.replicate_succ]⟩
        | cons w ws => exact ⟨n, by simp [join]⟩

/-- Stripping what is to be stripped. -/
theorem stripBy_padded {q : Nat → Bool} {s : Str} (hhead : ∀ c ∈ s.head?, q c = false)
    (hlast : ∀ c ∈ s.getLast?, q c = false) {pre post : Str} (hpre : ∀ c ∈ pre, q c = true)
    (hpost : ∀ c ∈ post, q c = true) : (pre ++ (s ++ post)).stripBy q = s := by
  rw [stripBy_eq, List.dropWhile_append_of_pos hpre]
  cases s with
  | nil =>
    rw [List.nil_append, List.dropWhile_eq_nil_iff.mpr hpost, List.rdropWhile_nil]
  | cons a s =>
    have ha : q a = false := hhead a rfl
    rw [List.cons_append, List.dropWhile_cons_of_neg (by simp [ha]), ← List.cons_append,
      List.rdropWhile, List.reverse_append,
      List.dropWhile_append_of_pos fun c hc => hpost c (List.mem_reverse.mp hc), ← List.rdropWhile,
      List.rdropWhile_eq_self_iff]
    intro hne
    simp [hlast _ (List.getLast?_eq_some_getLast hne)]

theorem join_ne_nil {sep w : Str} {ws : List Str} (hw : w ≠ []) : join sep (w :: ws) ≠ [] := by
  cases ws with
  | nil => simpa [join] using hw
  | cons w' ws => simp [join, hw]

/-- Joined runs begin and end with a character of a run. -/
theorem join_ends {q : Nat → Bool} {ws : List Str} (h : ∀ w ∈ ws, w ≠ [] ∧ ∀ c ∈ w, q c = false) :
    (∀ c ∈ (join [95] ws).head?, q c = false) ∧ ∀ c ∈ (join [95] ws).getLast?, q c = false := by
  induction ws with
  | nil => simp [join]
  | cons w ws ih =>
    obtain ⟨⟨hne, hw⟩, hws⟩ := List.forall_mem_cons.mp h
    obtain ⟨_, hlast⟩ := ih hws
    cases ws with
    | nil =>
      simp only [join, List.intercalate_singleton]
      exact ⟨fun c hc => hw c (List.mem_of_mem_head? hc), fun c hc => hw c (List.mem_of_getLast? hc)⟩
    | cons w' ws =>
      have hcons : join [95] (w :: w' :: ws) = w ++ 95 :: join [95] (w' :: ws) := by simp [join]
      have hrest : join [95] (w' :: ws) ≠ [] := join_ne_nil (hws w' List.mem_cons_self).1
      rw [hcons]
      constructor
      · intro c hc
        rw [List.head?_append_of_ne_nil _ hne] at hc
        exact hw c (List.mem_of_mem_head? hc)
      · intro c hc
        rw [List.getLast?_append_cons, List.getLast?_cons_of_ne_nil hrest] at hc
        exact hlast c hc

/-- **Squashing and stripping leaves the runs**, with a `_` between them. -/
theorem stripBy_squash (hp : p 95 = false) (s : Str) :
    (s.squash p).stripBy (· == 95) = join [95] (runs p s) := by
  have hwords : ∀ w ∈ runs p s, w ≠ [] ∧ ∀ c ∈ w, (c == 95) = false := by
    intro w hw
    obtain ⟨hne, hclean⟩ := runs_clean p s w hw
    refine ⟨hne, ?_⟩
    intro c hc
    rw [beq_eq_false_iff_ne]
    intro h
    rw [h] at hc
    exact Bool.false_ne_true (hp.symm.trans (hclean 95 hc))
  have hends := join_ends hwords
  have hpad : ∀ pre : Str, (∀ c ∈ pre, (c == 95) = true) → ∀ n,
      (pre ++ (join [95] (runs p s) ++ List.replicate n 95)).stripBy (· == 95) =
        join [95] (runs p s) :=
    fun pre hpre n => stripBy_padded hends.1 hends.2 hpre (by simp)
  cases s with
  | nil => rfl
  | cons c s =>
    by_cases hc : p c = true
    · obtain ⟨n, hn⟩ := squashFrom_eq (p := p) [c] false (by simp) s
      have hruns : runs p (c :: s) = runsFrom p [c] s := by
        rw [runs, runsFrom, if_pos hc, List.nil_append]
      rw [← hpad [] (by simp) n, hruns, ← hn, squash, squashFrom, if_pos hc]
      rfl
    · obtain ⟨n, hn⟩ := squashFrom_eq (p := p) [] true (by simp) s
      have hruns : runs p (c :: s) = runsFrom p [] s := by
        rw [runs, runsFrom, if_neg hc, if_pos rfl]
      rw [← hpad [95] (by simp) n, hruns, ← hn, squash, squashFrom, if_neg hc]
      rfl

end WebZapret.Py.Str
