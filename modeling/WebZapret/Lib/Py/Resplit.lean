import WebZapret.Lib.Py.Shlex

/-!
# Splitting what was joined

The words of a text, joined by blanks and split again, are the same words exactly when none of them
has a blank, a quote or a backslash (`split_join_iff`): each of these that the lexer interprets is a
character that the new words lack.
-/

namespace WebZapret.Py.Shlex

/-- A quote or a backslash, outside of quotes. -/
def isSyntax (c : Nat) : Bool := isQuote c || c = 92

/-- The lexer takes every character of the word as it stands. -/
def Plain (token : Str) : Prop := ∀ c ∈ token, isGap c = false ∧ isSyntax c = false

instance (token : Str) : Decidable (Plain token) := by
  unfold Plain
  infer_instance

/-- The characters of the words, with one blank after each. -/
def cost (tokens : List Str) : Nat := (tokens.map fun t => t.length + 1).sum

@[simp] theorem cost_nil : cost [] = 0 := rfl

@[simp] theorem cost_cons (t : Str) (ts : List Str) : cost (t :: ts) = t.length + 1 + cost ts := by
  simp [cost]

/-- What the end of the input may add to the cost: the blank after the last word, unless a quote has
still to be closed. -/
def slack : State → Nat
  | .quote _ => 0
  | _ => 1

/-- A word that is put before the words of the rest. -/
theorem cons_ok {t : Str} {r : Result (List Str)} {ts : List Str}
    (h : (do return t :: (← r)) = Except.ok ts) : ∃ rest, r = .ok rest ∧ ts = t :: rest := by
  cases r with
  | error e => cases h
  | ok rest =>
    cases h
    exact ⟨rest, rfl, rfl⟩

theorem lex_cost {state : State} {token : Str} {quoted : Bool} {s : Str} {ts : List Str}
    (h : lex state token quoted s = .ok ts) : cost ts ≤ token.length + s.length + slack state := by
  induction s generalizing state token quoted ts with
  | nil =>
    cases state with
    | gap =>
      cases h
      simp
    | word =>
      simp only [lex] at h
      split at h
      · cases h
        simp [slack]
      · cases h
        simp
    | quote q => cases h
    | escape back => cases h
  | cons c s ih =>
    cases state with
    | gap =>
      simp only [lex] at h
      split_ifs at h <;>
        (have hrest := ih h
         simp [slack] at hrest ⊢
         omega)
    | word =>
      simp only [lex] at h
      split_ifs at h with hgap hopen
      · obtain ⟨rest, hlex, rfl⟩ := cons_ok h
        have hrest := ih hlex
        simp [slack] at hrest ⊢
        omega
      all_goals
        have hrest := ih h
        simp [slack] at hrest ⊢
        omega
    | quote q =>
      simp only [lex] at h
      split_ifs at h <;>
        (have hrest := ih h
         simp [slack] at hrest ⊢
         omega)
    | escape back =>
      have hrest := ih h
      cases back with
      | none =>
        simp [slack, State.after] at hrest ⊢
        omega
      | some q =>
        split_ifs at hrest <;> simp [slack, State.after] at hrest ⊢ <;> omega

/-! ## One character -/

theorem isGap_of_isSyntax {c : Nat} (h : isSyntax c = true) : isGap c = false := by
  simp [isSyntax, isQuote, isGap] at h ⊢
  omega

section Step

variable {c : Nat} (token : Str) (quoted : Bool) (s : Str)

theorem lex_gap_gap (h : isGap c = true) : lex .gap token quoted (c :: s) = lex .gap [] false s := by
  simp [lex, h]

theorem lex_gap_plain (hgap : isGap c = false) (hspecial : isSyntax c = false) :
    lex .gap token quoted (c :: s) = lex .word [c] false s := by
  simp [isSyntax] at hspecial
  simp [lex, hgap, hspecial]

theorem lex_word_gap (h : isGap c = true) (htoken : token ≠ []) :
    lex .word token quoted (c :: s) = (do return token :: (← lex .gap [] false s)) := by
  simp [lex, h, htoken]

theorem lex_word_plain (hgap : isGap c = false) (hspecial : isSyntax c = false) :
    lex .word token quoted (c :: s) = lex .word (token ++ [c]) quoted s := by
  simp [isSyntax] at hspecial
  simp [lex, hgap, hspecial]

/-- A quote or a backslash is not in the words. -/
theorem lex_syntax_cost {state : State} {ts : List Str} (hstate : state = .gap ∨ state = .word)
    (hc : isSyntax c = true) (h : lex state token quoted (c :: s) = .ok ts) :
    cost ts ≤ token.length + (c :: s).length := by
  have hgap := isGap_of_isSyntax hc
  simp [isSyntax] at hc
  rcases hstate with rfl | rfl
  · by_cases hback : c = 92
    · simp [lex, hback, show isGap 92 = false by decide] at h
      have hrest := lex_cost h
      simp [slack] at hrest ⊢
      omega
    · simp [lex, hgap, hback, hc.resolve_right hback] at h
      have hrest := lex_cost h
      simp [slack] at hrest ⊢
      omega
  · by_cases hquote : isQuote c = true
    · simp [lex, hgap, hquote] at h
      have hrest := lex_cost h
      simp [slack] at hrest ⊢
      omega
    · simp [lex, hc.resolve_left hquote] at h
      have hrest := lex_cost h
      simp [slack] at hrest ⊢
      omega

end Step

/-! ## A text -/

/-- What the lexer interprets is not in the words. -/
theorem lex_cost_lt {state : State} {token : Str} {quoted : Bool} {s : Str} {ts : List Str}
    (hstate : state = .gap ∨ state = .word) (h : lex state token quoted s = .ok ts)
    (hs : ∃ c ∈ s, isSyntax c = true) : cost ts ≤ token.length + s.length := by
  induction s generalizing state token quoted ts with
  | nil => simp at hs
  | cons c s ih =>
    cases hc : isSyntax c with
    | true => exact lex_syntax_cost token quoted s hstate hc h
    | false =>
      have hrest : ∃ d ∈ s, isSyntax d = true := by
        obtain ⟨d, hd, hspecial⟩ := hs
        rcases List.mem_cons.mp hd with rfl | hd
        · simp [hc] at hspecial
        · exact ⟨d, hd, hspecial⟩
      cases hgap : isGap c with
      | true =>
        rcases hstate with rfl | rfl
        · rw [lex_gap_gap token quoted s hgap] at h
          have hlex := ih (.inl rfl) h hrest
          simp at hlex ⊢
          omega
        · simp only [lex, hgap, if_true] at h
          split_ifs at h
          · obtain ⟨rest, hlex, rfl⟩ := cons_ok h
            have hlex := ih (.inl rfl) hlex hrest
            simp at hlex ⊢
            omega
          · have hlex := ih (.inl rfl) h hrest
            simp at hlex ⊢
            omega
      | false =>
        rcases hstate with rfl | rfl
        · rw [lex_gap_plain token quoted s hgap hc] at h
          have hlex := ih (.inr rfl) h hrest
          simp at hlex ⊢
          omega
        · rw [lex_word_plain token quoted s hgap hc] at h
          have hlex := ih (.inr rfl) h hrest
          simp at hlex ⊢
          omega

/-- The words of a text that has no quotes and no backslashes are plain. -/
theorem lex_plain {state : State} {token : Str} {quoted : Bool} {s : Str} {ts : List Str}
    (hstate : state = .gap ∨ state = .word) (h : lex state token quoted s = .ok ts)
    (hs : ∀ c ∈ s, isSyntax c = false) (htoken : Plain token) : ∀ t ∈ ts, Plain t := by
  induction s generalizing state token quoted ts with
  | nil =>
    rcases hstate with rfl | rfl
    · cases h
      simp
    · simp only [lex] at h
      split at h
      · cases h
        simpa using htoken
      · cases h
        simp
  | cons c s ih =>
    have hc := hs c List.mem_cons_self
    have hrest : ∀ d ∈ s, isSyntax d = false := fun d hd => hs d (List.mem_cons_of_mem c hd)
    have hnil : Plain [] := by simp [Plain]
    cases hgap : isGap c with
    | true =>
      rcases hstate with rfl | rfl
      · rw [lex_gap_gap token quoted s hgap] at h
        exact ih (.inl rfl) h hrest hnil
      · simp only [lex, hgap, if_true] at h
        split_ifs at h
        · obtain ⟨rest, hlex, rfl⟩ := cons_ok h
          intro t ht
          rcases List.mem_cons.mp ht with rfl | ht
          · exact htoken
          · exact ih (.inl rfl) hlex hrest hnil t ht
        · exact ih (.inl rfl) h hrest hnil
    | false =>
      rcases hstate with rfl | rfl
      · rw [lex_gap_plain token quoted s hgap hc] at h
        refine ih (.inr rfl) h hrest ?_
        simp [Plain, hgap, hc]
      · rw [lex_word_plain token quoted s hgap hc] at h
        refine ih (.inr rfl) h hrest ?_
        intro d hd
        rcases List.mem_append.mp hd with hd | hd
        · exact htoken d hd
        · rw [List.mem_singleton.mp hd]
          exact ⟨hgap, hc⟩

/-- Plain characters go on with a word. -/
theorem lex_word_append (w : Str) {token : Str} {quoted : Bool} {s : Str} (hw : Plain w) :
    lex .word token quoted (w ++ s) = lex .word (token ++ w) quoted s := by
  induction w generalizing token with
  | nil => simp
  | cons c w ih =>
    obtain ⟨hc, hrest⟩ := List.forall_mem_cons.mp hw
    rw [List.cons_append, lex_word_plain token quoted _ hc.1 hc.2, ih hrest, List.append_assoc]
    rfl

/-! ## Joined words -/

theorem join_cons_cons (t t' : Str) (ts : List Str) :
    Str.join (lit " ") (t :: t' :: ts) = t ++ 32 :: Str.join (lit " ") (t' :: ts) := by
  simp [Str.join, List.intercalate, lit]

theorem length_join {ts : List Str} (hne : ts ≠ []) :
    (Str.join (lit " ") ts).length + 1 = cost ts := by
  induction ts with
  | nil => exact absurd rfl hne
  | cons t ts ih =>
    cases ts with
    | nil => simp [Str.join, List.intercalate]
    | cons t' ts =>
      have hrest := ih (by simp)
      rw [join_cons_cons]
      simp at hrest ⊢
      omega

theorem split_join_plain {ts : List Str} (h : ∀ t ∈ ts, t ≠ [] ∧ Plain t) :
    split (Str.join (lit " ") ts) = .ok ts := by
  unfold split
  induction ts with
  | nil => rfl
  | cons t ts ih =>
    obtain ⟨⟨hne, ht⟩, hts⟩ := List.forall_mem_cons.mp h
    obtain ⟨c, w, rfl⟩ := List.exists_cons_of_ne_nil hne
    obtain ⟨hc, hw⟩ := List.forall_mem_cons.mp ht
    cases ts with
    | nil =>
      have hjoin : Str.join (lit " ") [c :: w] = c :: w := by simp [Str.join, List.intercalate]
      have hword := @lex_word_append w [c] false [] hw
      rw [List.append_nil] at hword
      rw [hjoin, lex_gap_plain _ _ _ hc.1 hc.2, hword]
      simp [lex]
    | cons t' ts =>
      rw [join_cons_cons, List.cons_append, lex_gap_plain _ _ _ hc.1 hc.2, lex_word_append w hw,
        lex_word_gap _ _ _ (by decide) (by simp), ih hts]
      rfl

/-- **Joining and splitting again.** -/
theorem split_join_iff {ts : List Str} (h : ∀ t ∈ ts, t ≠ []) :
    split (Str.join (lit " ") ts) = .ok ts ↔ ∀ t ∈ ts, Plain t := by
  constructor
  · intro hsplit
    by_cases hne : ts = []
    · simp [hne]
    have hlength := length_join hne
    refine lex_plain (.inl rfl) hsplit ?_ (by simp [Plain])
    intro c hc
    by_contra hspecial
    have hcost := lex_cost_lt (.inl rfl) hsplit ⟨c, hc, by simpa using hspecial⟩
    simp at hcost
    omega
  · intro hplain
    exact split_join_plain fun t ht => ⟨h t ht, hplain t ht⟩

end WebZapret.Py.Shlex
