import WebZapret.Lib.Py.JsonRead

/-!
# Where a value ends

The scanner decides by what it takes: of the same characters with something else after them it takes the
same value (`value_token`). For a number this holds if what is after it does not go on with it; an object
ends with its brace. So no proper beginning of the text of an object is the text of a value
(`rawDecode_prefix`).
-/

namespace WebZapret.Py

namespace Scan

/-! ## Numbers -/

theorem whole_token {s digits rest : Str} (h : whole s = some (digits, rest)) :
    whole digits = some (digits, []) := by
  cases s with
  | nil => cases h
  | cons c s =>
    rw [whole] at h
    split_ifs at h with hzero hdigit
    · obtain ⟨rfl, -⟩ := Prod.mk.inj (Option.some.inj h)
      rfl
    · obtain ⟨rfl, -⟩ := Prod.mk.inj (Option.some.inj h)
      have hall : ∀ d ∈ s.takeWhile isAsciiDigit, isAsciiDigit d = true :=
        fun d hd => List.mem_takeWhile_imp hd
      rw [whole, if_neg hzero, if_pos hdigit, List.takeWhile_eq_self_iff.mpr hall,
        List.dropWhile_eq_nil_iff.mpr hall]

theorem fraction_token (s : Str) : fraction (fraction s).1 = ((fraction s).1, []) := by
  cases s with
  | nil => rfl
  | cons c s =>
    by_cases hc : c = 46
    · subst hc
      rw [fraction]
      split_ifs with hnil
      · rfl
      · have hall : ∀ d ∈ s.takeWhile isAsciiDigit, isAsciiDigit d = true :=
          fun d hd => List.mem_takeWhile_imp hd
        rw [fraction, List.takeWhile_eq_self_iff.mpr hall, List.dropWhile_eq_nil_iff.mpr hall,
          if_neg hnil]
    · rw [fraction_of_ne (s := c :: s) fun d hd => Option.some.inj hd ▸ hc]
      rfl

theorem sign_digits (s : Str) :
    sign ((sign s).1 ++ (sign s).2.takeWhile isAsciiDigit) =
      ((sign s).1, (sign s).2.takeWhile isAsciiDigit) := by
  cases s with
  | nil => rfl
  | cons c s =>
    by_cases hc : c = 43 ∨ c = 45
    · have hsign (t : Str) : sign (c :: t) = ([c], t) := if_pos hc
      rw [hsign]
      exact hsign _
    · have hsign (t : Str) : sign (c :: t) = ([], c :: t) := if_neg hc
      rw [hsign, List.nil_append, List.takeWhile_cons]
      split_ifs
      · exact hsign _
      · rfl

theorem exponent_token (s : Str) : exponent (exponent s).1 = ((exponent s).1, []) := by
  cases s with
  | nil => rfl
  | cons c s =>
    rw [exponent]
    split_ifs with hc
    · have hall : ∀ d ∈ (sign s).2.takeWhile isAsciiDigit, isAsciiDigit d = true :=
        fun d hd => List.mem_takeWhile_imp hd
      rw [List.cons_append, exponent, sign_digits]
      dsimp only
      rw [List.takeWhile_eq_self_iff.mpr hall, List.dropWhile_eq_nil_iff.mpr hall, if_pos hc]
      rfl
    · rfl

/-- A fraction or an exponent does not begin with a digit. -/
theorem head_fraction (s : Str) : ∀ c ∈ (fraction s).1.head?, c = 46 := by
  cases s with
  | nil => nofun
  | cons c s =>
    by_cases hc : c = 46
    · subst hc
      rw [fraction]
      split_ifs
      · exact fun c hc => absurd hc (Option.not_mem_none c)
      · exact fun c hc => (Option.some.inj hc).symm
    · rw [fraction_of_ne (s := c :: s) fun d hd => Option.some.inj hd ▸ hc]
      exact fun c hc => absurd hc (Option.not_mem_none c)

theorem head_exponent (s : Str) : ∀ c ∈ (exponent s).1.head?, c = 101 ∨ c = 69 := by
  cases s with
  | nil => nofun
  | cons c s =>
    rw [exponent]
    split_ifs with h
    · exact fun d hd => Option.some.inj hd ▸ h.1
    · exact fun c hc => absurd hc (Option.not_mem_none c)

/-- A whole part begins with a digit. -/
theorem head_whole {s digits rest after : Str} (h : whole s = some (digits, rest)) :
    ∀ c ∈ (digits ++ after).head?, c ≠ 45 := by
  cases s with
  | nil => cases h
  | cons d s =>
    rw [whole] at h
    split_ifs at h with hzero hdigit
    · obtain ⟨rfl, -⟩ := Prod.mk.inj (Option.some.inj h)
      intro c hc
      obtain rfl := Option.some.inj hc
      decide
    · obtain ⟨rfl, -⟩ := Prod.mk.inj (Option.some.inj h)
      intro c hc
      obtain rfl := Option.some.inj hc
      rintro rfl
      cases hdigit

theorem minus_token (s : Str) {u : Str} (hu : ∀ c ∈ u.head?, c ≠ 45) :
    minus ((minus s).1 ++ u) = ((minus s).1, u) := by
  have hnone : minus u = ([], u) := by
    cases u with
    | nil => rfl
    | cons c u => exact if_neg (hu c rfl)
  cases s with
  | nil => exact hnone
  | cons c s =>
    rw [minus]
    split_ifs
    · rfl
    · exact hnone

/-- A numeral is the characters that it takes. -/
theorem numeral_token {s digits tail rest : Str} (h : numeral s = some (digits, tail, rest)) :
    s = digits ++ (tail ++ rest) ∧ numeral (digits ++ tail) = some (digits, tail, []) := by
  have hplain : Style.Plain fun _ => True := fun _ _ _ => trivial
  unfold numeral at h
  cases hwhole : whole (minus s).2 with
  | none =>
    rw [hwhole] at h
    cases h
  | some d =>
    obtain ⟨ds, t⟩ := d
    rw [hwhole] at h
    obtain ⟨rfl, rfl, rfl⟩ : _ ∧ _ ∧ _ := by simpa using h
    have hexp := (hplain.exponent (fraction t).2).2
    have hfrac := (hplain.fraction t).2
    have hfirst := Style.whole_eq hwhole
    refine ⟨?_, ?_⟩
    · rw [List.append_assoc, List.append_assoc, ← hexp, ← hfrac, ← hfirst]
      exact Style.minus_eq s
    · have hafter :
          ∀ c ∈ ((fraction t).1 ++ (exponent (fraction t).2).1).head?, isAsciiDigit c = false := by
        intro c hc
        rw [List.head?_append, Option.mem_def, Option.or_eq_some_iff] at hc
        rcases hc with hc | ⟨-, hc⟩
        · rw [head_fraction t c hc]
          rfl
        · rcases head_exponent _ c hc with rfl | rfl <;> rfl
      have hexponent : ∀ c ∈ (exponent (fraction t).2).1.head?, isAsciiDigit c = false ∧ c ≠ 46 := by
        intro c hc
        rcases head_exponent _ c hc with rfl | rfl <;> decide
      unfold numeral
      rw [List.append_assoc, minus_token _ (head_whole hwhole)]
      dsimp only
      rw [whole_append hafter (whole_token hwhole)]
      dsimp only
      rw [List.nil_append, fraction_append hexponent, fraction_token]
      dsimp only
      rw [List.nil_append, exponent_token]

/-! ## Strings -/

/-- A string is the characters that it takes. -/
theorem string_token {high : Option Nat} {s t rest : Str} (h : string high s = some (t, rest)) :
    ∃ token, s = token ++ rest ∧ ∀ u, string high (token ++ u) = some (t, u) := by
  have hmap {read : Str → Option (Str × Str)} {f : Str × Str → Str × Str} {g : Str → Str}
      {s t rest : Str} (hf : ∀ v w, f (v, w) = (g v, w))
      (hread : ∀ {t rest : Str}, read s = some (t, rest) →
        ∃ token, s = token ++ rest ∧ ∀ u, read (token ++ u) = some (t, u))
      (h : (read s).map f = some (t, rest)) :
      ∃ token, s = token ++ rest ∧ ∀ u, (read (token ++ u)).map f = some (t, u) := by
    obtain ⟨⟨v, w⟩, hv, hvw⟩ := Option.map_eq_some_iff.mp h
    rw [hf] at hvw
    obtain ⟨rfl, rfl⟩ := Prod.mk.inj hvw
    obtain ⟨token, hs, hu⟩ := hread hv
    exact ⟨token, hs, fun u => by rw [hu, Option.map_some, hf]⟩
  fun_induction string high s generalizing t rest with
  | case1 => cases h
  | case2 high s =>
    obtain ⟨rfl, rfl⟩ := Prod.mk.inj (Option.some.inj h)
    exact ⟨[34], rfl, fun u => string_close⟩
  | case3 => cases h
  | case4 a b c d s u hunit k hlow ih =>
    obtain ⟨token, rfl, hu⟩ := hmap (fun _ _ => rfl) ih h
    refine ⟨92 :: 117 :: a :: b :: c :: d :: token, rfl, fun v => ?_⟩
    simp only [List.cons_append, string, hunit, if_pos hlow]
    exact hu v
  | case5 a b c d s u hunit k hlow hhigh ih =>
    obtain ⟨token, rfl, hu⟩ := hmap (fun _ _ => rfl) ih h
    refine ⟨92 :: 117 :: a :: b :: c :: d :: token, rfl, fun v => ?_⟩
    simp only [List.cons_append, string, hunit, if_neg hlow, if_pos hhigh]
    exact hu v
  | case6 a b c d s u hunit k hlow hhigh ih =>
    obtain ⟨token, rfl, hu⟩ := hmap (fun _ _ => rfl) ih h
    refine ⟨92 :: 117 :: a :: b :: c :: d :: token, rfl, fun v => ?_⟩
    simp only [List.cons_append, string, hunit, if_neg hlow, if_neg hhigh]
    exact hu v
  | case7 a b c d s u hunit hhigh ih =>
    obtain ⟨token, rfl, hu⟩ := ih h
    refine ⟨92 :: 117 :: a :: b :: c :: d :: token, rfl, fun v => ?_⟩
    simp only [List.cons_append, string, hunit, if_pos hhigh]
    exact hu v
  | case8 a b c d s u hunit hhigh ih =>
    obtain ⟨token, rfl, hu⟩ := hmap (fun _ _ => rfl) ih h
    refine ⟨92 :: 117 :: a :: b :: c :: d :: token, rfl, fun v => ?_⟩
    simp only [List.cons_append, string, hunit, if_neg hhigh]
    exact hu v
  | case9 => cases h
  | case10 high e s hunicode c hshort ih =>
    have hne : e ≠ 117 := by
      rintro rfl
      cases hshort
    obtain ⟨token, rfl, hu⟩ := hmap (fun _ _ => rfl) ih h
    refine ⟨92 :: e :: token, rfl, fun v => ?_⟩
    rw [List.cons_append, List.cons_append, string_short hshort hne]
    exact hu v
  | case11 => cases h
  | case12 high c s hquote _ hescape hplain ih =>
    obtain ⟨hcontrol, hslash⟩ := not_or.mp hplain
    obtain ⟨token, rfl, hu⟩ := hmap (fun _ _ => rfl) ih h
    refine ⟨c :: token, rfl, fun v => ?_⟩
    rw [List.cons_append, string_plain (not_lt.mp hcontrol) hquote hslash]
    exact hu v

/-! ## Values -/

/-- Blanks are skipped up to a character that is none. -/
theorem skip_token {s t : Str} {c : Nat} (h : skip s = c :: t) :
    ∃ blanks, s = blanks ++ c :: t ∧ (∀ b ∈ blanks, isBlank b = true) ∧ isBlank c = false := by
  refine ⟨s.takeWhile isBlank, ?_, fun b hb => List.mem_takeWhile_imp hb, ?_⟩
  · rw [← h, skip, List.takeWhile_append_dropWhile]
  · have hhead := List.head?_dropWhile_not isBlank s
    rw [skip] at h
    rw [h] at hhead
    simpa using hhead

theorem skip_blanks {blanks u : Str} {c : Nat} (hblanks : ∀ b ∈ blanks, isBlank b = true)
    (hc : isBlank c = false) : skip (blanks ++ c :: u) = c :: u := by
  rw [skip_append hblanks, skip_cons hc]

theorem follow_blanks {blanks u : Str} {c : Nat} (hblanks : ∀ b ∈ blanks, isBlank b = true)
    (hc : isAsciiDigit c = false ∧ c ≠ 46 ∧ c ≠ 101 ∧ c ≠ 69) : Follow (blanks ++ c :: u) := by
  cases blanks with
  | nil => exact follow_cons hc
  | cons b blanks =>
    have hb := hblanks b List.mem_cons_self
    refine follow_cons ?_
    simp [isBlank] at hb
    rcases hb with ((rfl | rfl) | rfl) | rfl <;> decide

/-- Blanks, and what is after them. -/
theorem skip_eq (s : Str) : ∃ blanks, s = blanks ++ skip s ∧ ∀ b ∈ blanks, isBlank b = true :=
  ⟨s.takeWhile isBlank, List.takeWhile_append_dropWhile.symm, fun _ hb => List.mem_takeWhile_imp hb⟩

/-- What blanks were skipped to is skipped to again, with the same beginning. -/
theorem skip_again {s more t u lead : Str} {c : Nat} (h : skip s = more ++ c :: t)
    (hlead : ∀ b ∈ lead, isBlank b = true) : skip (lead ++ (more ++ c :: u)) = more ++ c :: u := by
  cases more with
  | nil =>
    obtain ⟨-, -, -, hc⟩ := skip_token (s := s) h
    exact skip_blanks hlead hc
  | cons d more =>
    obtain ⟨-, -, -, hd⟩ := skip_token (s := s) h
    exact skip_blanks hlead hd

variable [Tables]

theorem number_token {s rest : Str} {x : Json} (h : number s = some (x, rest)) :
    ∃ token, s = token ++ rest ∧ ∀ u, Follow u → number (token ++ u) = some (x, u) := by
  unfold number at h
  cases hnumeral : numeral s with
  | none =>
    rw [hnumeral] at h
    cases h
  | some d =>
    obtain ⟨digits, tail, t⟩ := d
    rw [hnumeral] at h
    obtain ⟨y, hvalue, hy⟩ := Option.map_eq_some_iff.mp h
    obtain ⟨rfl, rfl⟩ := Prod.mk.inj hy
    obtain ⟨hs, htoken⟩ := numeral_token hnumeral
    refine ⟨digits ++ tail, by rw [hs, List.append_assoc], fun u hu => number_append hu ?_⟩
    unfold number
    rw [htoken]
    simp [hvalue]

/-- A number is an integer or a float. -/
theorem ends_number {s rest u : Str} {x : Json} (h : number s = some (x, rest)) (hu : Ends x u) :
    Follow u := by
  unfold number at h
  cases hnumeral : numeral s with
  | none =>
    rw [hnumeral] at h
    cases h
  | some d =>
    rw [hnumeral] at h
    obtain ⟨y, hvalue, hy⟩ := Option.map_eq_some_iff.mp h
    obtain ⟨rfl, -⟩ := Prod.mk.inj hy
    unfold numberValue at hvalue
    split_ifs at hvalue
    · obtain ⟨i, -, rfl⟩ := Option.map_eq_some_iff.mp hvalue
      exact hu
    · obtain ⟨f, -, rfl⟩ := Option.map_eq_some_iff.mp hvalue
      exact hu

mutual

/-- **A value is the characters that it takes.** The last one of an object is its brace. -/
theorem value_token : (fuel : Nat) → ∀ {s rest : Str} {x : Json}, value fuel s = some (x, rest) →
    ∃ token, s = token ++ rest ∧ (∀ n ≥ fuel, ∀ u, Ends x u → value n (token ++ u) = some (x, u)) ∧
      ∀ ms, x = .obj ms → ∃ t, token = t ++ [125]
  | 0, _, _, _, h => by cases h
  | fuel + 1, s, rest, x, h => by
    have hsucc {n : Nat} (hn : n ≥ fuel + 1) : ∃ m ≥ fuel, n = m + 1 := ⟨n - 1, by omega, by omega⟩
    rw [value.eq_def] at h
    dsimp only at h
    split at h
    · obtain ⟨t, ht, hx⟩ := Option.map_eq_some_iff.mp h
      obtain ⟨rfl, rfl⟩ := Prod.mk.inj hx
      obtain ⟨token, rfl, hu⟩ := string_token ht
      refine ⟨34 :: token, rfl, fun n hn u _ => ?_, by simp⟩
      obtain ⟨m, -, rfl⟩ := hsucc hn
      show (string none (token ++ u)).map _ = _
      rw [hu]
      rfl
    · rename_i t
      obtain ⟨lead, hlead, hblanks⟩ := skip_eq t
      split at h
      · rename_i hskip
        cases h
        refine ⟨123 :: lead ++ [125], by simp [← hskip, ← hlead], fun n hn u _ => ?_,
          fun _ _ => ⟨_, rfl⟩⟩
        obtain ⟨m, -, rfl⟩ := hsucc hn
        have hend : skip (lead ++ 125 :: u) = 125 :: u := skip_blanks hblanks rfl
        rw [List.append_assoc]
        simp [value, hend]
      · obtain ⟨⟨ms, w⟩, hmembers, hx⟩ := Option.map_eq_some_iff.mp h
        obtain ⟨rfl, rfl⟩ := Prod.mk.inj hx
        obtain ⟨more, hmore, hms⟩ := members_token fuel hmembers
        have ht := hlead.trans (congrArg (lead ++ ·) hmore)
        refine ⟨123 :: lead ++ 34 :: more ++ [125], by simpa using ht, fun n hn u _ => ?_,
          fun _ _ => ⟨_, rfl⟩⟩
        obtain ⟨m, hm, rfl⟩ := hsucc hn
        rw [List.append_assoc, List.append_assoc, List.cons_append]
        exact value_obj (skip_blanks hblanks rfl) (hms m hm u)
    · rename_i t
      obtain ⟨lead, hlead, hblanks⟩ := skip_eq t
      split at h
      · rename_i hskip
        cases h
        refine ⟨91 :: lead ++ [93], by simp [← hskip, ← hlead], fun n hn u _ => ?_, by simp⟩
        obtain ⟨m, -, rfl⟩ := hsucc hn
        have hend : skip (lead ++ 93 :: u) = 93 :: u := skip_blanks hblanks rfl
        rw [List.append_assoc]
        simp [value, hend]
      · rename_i hne
        obtain ⟨⟨xs, w⟩, hitems, hx⟩ := Option.map_eq_some_iff.mp h
        obtain ⟨rfl, rfl⟩ := Prod.mk.inj hx
        obtain ⟨more, hmore, hxs⟩ := items_token fuel hitems
        refine ⟨91 :: lead ++ more ++ [93], by simp [← hmore, ← hlead], fun n hn u _ => ?_, by simp⟩
        obtain ⟨m, hm, rfl⟩ := hsucc hn
        rw [List.append_assoc, List.append_assoc, List.cons_append]
        have hskip := skip_again (u := u) hmore hblanks
        cases more with
        | nil => exact absurd hmore (hne w)
        | cons c more =>
          have hc : c ≠ 93 := by
            rintro rfl
            exact hne _ hmore
          exact value_arr hskip hc (hxs m hm u)
    · cases h
      refine ⟨lit "null", rfl, fun n hn u _ => ?_, by simp⟩
      obtain ⟨m, -, rfl⟩ := hsucc hn
      rfl
    · cases h
      refine ⟨lit "true", rfl, fun n hn u _ => ?_, by simp⟩
      obtain ⟨m, -, rfl⟩ := hsucc hn
      rfl
    · cases h
      refine ⟨lit "false", rfl, fun n hn u _ => ?_, by simp⟩
      obtain ⟨m, -, rfl⟩ := hsucc hn
      rfl
    · cases h
      refine ⟨lit "NaN", rfl, fun n hn u _ => ?_, by simp⟩
      obtain ⟨m, -, rfl⟩ := hsucc hn
      rfl
    · cases h
      refine ⟨lit "Infinity", rfl, fun n hn u _ => ?_, by simp⟩
      obtain ⟨m, -, rfl⟩ := hsucc hn
      rfl
    · cases h
      refine ⟨lit "-Infinity", rfl, fun n hn u _ => ?_, by simp⟩
      obtain ⟨m, -, rfl⟩ := hsucc hn
      rfl
    · obtain ⟨token, rfl, hu⟩ := number_token h
      refine ⟨token, rfl, fun n hn u hend => ?_, ?_⟩
      · obtain ⟨m, -, rfl⟩ := hsucc hn
        exact value_number (hu u (ends_number h hend)) m
      · rintro ms rfl
        exact absurd (ends_number (u := [46]) h trivial 46 rfl).2.1 (by decide)

theorem items_token : (fuel : Nat) → ∀ {s rest : Str} {xs : List Json}, items fuel s = some (xs, rest) →
    ∃ token, s = token ++ 93 :: rest ∧ ∀ n ≥ fuel, ∀ u, items n (token ++ 93 :: u) = some (xs, u)
  | 0, _, _, _, h => by cases h
  | fuel + 1, s, rest, xs, h => by
    have hsucc {n : Nat} (hn : n ≥ fuel + 1) : ∃ m ≥ fuel, n = m + 1 := ⟨n - 1, by omega, by omega⟩
    rw [items] at h
    split at h
    · cases h
    · rename_i x t hvalue
      obtain ⟨token, rfl, hx, -⟩ := value_token fuel hvalue
      split at h
      · rename_i hskip
        cases h
        obtain ⟨blanks, rfl, hblanks, hc⟩ := skip_token hskip
        refine ⟨token ++ blanks, by simp, fun n hn u => ?_⟩
        obtain ⟨m, hm, rfl⟩ := hsucc hn
        have hfollow : Follow (blanks ++ 93 :: u) := follow_blanks hblanks (by decide)
        rw [List.append_assoc]
        exact items_last (hx m hm _ (hfollow.ends x)) (skip_blanks hblanks hc)
      · rename_i v hskip
        obtain ⟨blanks, rfl, hblanks, hc⟩ := skip_token hskip
        obtain ⟨⟨ys, w⟩, hrest, hxs⟩ := Option.map_eq_some_iff.mp h
        obtain ⟨rfl, rfl⟩ := Prod.mk.inj hxs
        obtain ⟨more, hmore, hys⟩ := items_token fuel hrest
        obtain ⟨lead, hlead, hleadBlanks⟩ := skip_eq v
        refine ⟨token ++ blanks ++ 44 :: lead ++ more, by simp [← hmore, ← hlead], fun n hn u => ?_⟩
        obtain ⟨m, hm, rfl⟩ := hsucc hn
        have hfollow (t : Str) : Follow (blanks ++ 44 :: t) := follow_blanks hblanks (by decide)
        simp only [List.append_assoc, List.cons_append]
        refine items_more (hx m hm _ ((hfollow _).ends x)) (skip_blanks hblanks hc) ?_
        rw [skip_again hmore hleadBlanks]
        exact hys m hm u
      · cases h

theorem members_token : (fuel : Nat) → ∀ {s rest : Str} {before ms : Dict},
    members fuel before s = some (ms, rest) →
    ∃ token, s = 34 :: token ++ 125 :: rest ∧
      ∀ n ≥ fuel, ∀ u, members n before (34 :: token ++ 125 :: u) = some (ms, u)
  | 0, _, _, _, _, h => by cases h
  | fuel + 1, s, rest, before, ms, h => by
    have hsucc {n : Nat} (hn : n ≥ fuel + 1) : ∃ m ≥ fuel, n = m + 1 := ⟨n - 1, by omega, by omega⟩
    rw [members.eq_def] at h
    dsimp only at h
    split at h
    · split at h
      · cases h
      · rename_i key t hkey
        obtain ⟨name, rfl, hname⟩ := string_token hkey
        split at h
        · rename_i v hskip
          obtain ⟨b1, rfl, hb1, -⟩ := skip_token hskip
          obtain ⟨b2, hv, hb2⟩ := skip_eq v
          have hcolon (t : Str) : skip (b1 ++ 58 :: t) = 58 :: t := skip_blanks hb1 rfl
          split at h
          · cases h
          · rename_i x w hvalue
            obtain ⟨token, htoken, hx, -⟩ := value_token fuel hvalue
            split at h
            · rename_i hbrace
              cases h
              obtain ⟨b3, rfl, hb3, hc⟩ := skip_token hbrace
              rw [← List.append_assoc] at htoken
              refine ⟨name ++ b1 ++ 58 :: b2 ++ token ++ b3, ?_, fun n hn u => ?_⟩
              · rw [hv.trans (congrArg (b2 ++ ·) htoken)]
                simp
              · obtain ⟨m, hm, rfl⟩ := hsucc hn
                have hfollow : Follow (b3 ++ 125 :: u) := follow_blanks hb3 (by decide)
                have hagain := skip_again (u := u) htoken hb2
                simp only [List.append_assoc, List.cons_append] at hagain ⊢
                refine members_last (hname _) (hcolon _) ?_ (skip_blanks hb3 hc)
                rw [hagain]
                exact hx m hm _ (hfollow.ends x)
            · rename_i y hcomma
              obtain ⟨b3, rfl, hb3, hc⟩ := skip_token hcomma
              rw [← List.append_assoc] at htoken
              obtain ⟨b4, hy, hb4⟩ := skip_eq y
              obtain ⟨more, hmore, hms⟩ := members_token fuel h
              refine ⟨name ++ b1 ++ 58 :: b2 ++ token ++ b3 ++ 44 :: b4 ++ 34 :: more, ?_,
                fun n hn u => ?_⟩
              · rw [hv.trans (congrArg (b2 ++ ·) htoken), hy.trans (congrArg (b4 ++ ·) hmore)]
                simp
              · obtain ⟨m, hm, rfl⟩ := hsucc hn
                have hfollow : Follow (b3 ++ 44 :: (b4 ++ 34 :: more ++ 125 :: u)) :=
                  follow_blanks hb3 (by decide)
                have hagain := skip_again (u := b4 ++ 34 :: more ++ 125 :: u) htoken hb2
                have hvalue := hx m hm _ (hfollow.ends x)
                have hrest := hms m hm u
                rw [List.cons_append, ← skip_blanks hb4 rfl] at hrest
                simp only [List.append_assoc, List.cons_append] at hagain hvalue hrest ⊢
                rw [← hagain] at hvalue
                exact members_more (hname _) (hcolon _) hvalue (skip_blanks hb3 hc) hrest
            · cases h
        · cases h
    · cases h

end

/-! ## Texts that are cut off -/

/-- An object begins with its brace, and nothing else does. -/
theorem head_of_obj {fuel : Nat} {s rest : Str} {ms : Dict} (h : value fuel s = some (.obj ms, rest)) :
    ∃ t, s = 123 :: t := by
  cases fuel with
  | zero => cases h
  | succ fuel =>
    rw [value.eq_def] at h
    dsimp only at h
    split at h
    · obtain ⟨t, -, hx⟩ := Option.map_eq_some_iff.mp h
      cases hx
    · exact ⟨_, rfl⟩
    · split at h
      · cases h
      · obtain ⟨t, -, hx⟩ := Option.map_eq_some_iff.mp h
        cases hx
    · cases h
    · cases h
    · cases h
    · cases h
    · cases h
    · cases h
    · exact absurd (ends_number (u := [46]) h trivial 46 rfl).2.1 (by decide)

theorem obj_of_head {fuel : Nat} {t rest : Str} {x : Json} (h : value fuel (123 :: t) = some (x, rest)) :
    ∃ ms, x = .obj ms := by
  cases fuel with
  | zero => cases h
  | succ fuel =>
    rw [value] at h
    split at h
    · cases h
      exact ⟨[], rfl⟩
    · obtain ⟨d, -, hx⟩ := Option.map_eq_some_iff.mp h
      obtain ⟨rfl, -⟩ := Prod.mk.inj hx
      exact ⟨d.1, rfl⟩

/-- **A text that is cut off is not the text of an object.** Nothing is decoded from a beginning of the
text of an object, also if there is one more character after it that is no brace. -/
theorem rawDecode_prefix {s front extra : Str} {ms : Dict} (h : rawDecode s = some (.obj ms, []))
    (hfront : front <+: s) (hstart : front ≠ []) (hne : front ≠ s)
    (hextra : extra.length ≤ 1 ∧ 125 ∉ extra) : rawDecode (front ++ extra) = none := by
  by_contra hsome
  obtain ⟨⟨x, rest⟩, hx⟩ := Option.ne_none_iff_exists'.mp hsome
  obtain ⟨q, rfl⟩ := hfront
  obtain ⟨c, front, rfl⟩ := List.exists_cons_of_ne_nil hstart
  obtain ⟨t, ht⟩ := head_of_obj h
  obtain ⟨rfl, -⟩ := List.cons.inj ht
  obtain ⟨ms', rfl⟩ := obj_of_head hx
  obtain ⟨token, hsplit, htakes, hbrace⟩ := value_token _ hx
  obtain ⟨body, rfl⟩ := hbrace ms' rfl
  -- the brace is no extra character, so all of the object is in front
  have hbefore : body ++ [125] <+: 123 :: front := by
    rcases List.append_eq_append_iff.mp hsplit with ⟨tail, htoken, htail⟩ | ⟨r, hr, -⟩
    · rcases List.eq_nil_or_concat tail with rfl | ⟨first, last, rfl⟩
      · exact ⟨[], htoken.trans (List.append_nil _) ▸ List.append_nil _⟩
      · rw [List.concat_eq_append, ← List.append_assoc] at htoken
        obtain ⟨-, hlast⟩ := List.append_inj' htoken rfl
        refine absurd ?_ hextra.2
        rw [htail, (List.cons.inj hlast).1]
        simp
    · exact ⟨r, hr.symm⟩
  obtain ⟨r, hr⟩ := hbefore
  have hq : q ≠ [] := by
    rintro rfl
    exact hne (List.append_nil _).symm
  have hlong : (123 :: front ++ q).length + 1 ≥ (123 :: front ++ extra).length + 1 := by
    have := List.length_pos_iff.mpr hq
    simp only [List.length_append]
    omega
  have hall := htakes _ hlong (r ++ q) trivial
  rw [← List.append_assoc, hr] at hall
  have hend := h.symm.trans hall
  have hnil : r ++ q = [] := (Prod.mk.inj (Option.some.inj hend)).2.symm
  exact hq (List.append_eq_nil_iff.mp hnil).2

end Scan

end WebZapret.Py
