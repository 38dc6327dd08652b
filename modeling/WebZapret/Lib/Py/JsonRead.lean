import WebZapret.Lib.Py.JsonChars
import WebZapret.Lib.Py.Utf8

/-!
# The characters of a value that was read

An escape names a code point, also the pair of surrogates that stands for a character beyond U+FFFF. So
the texts of a value have code points alone, if the text has them that the value was read from
(`isText_value`).
-/

namespace WebZapret.Py

namespace Scan

/-! ## Strings -/

theorem hexValue_lt {c n : Nat} (h : hexValue c = some n) : n < 16 := by
  unfold hexValue at h
  split_ifs at h <;>
    obtain rfl := Option.some.inj h <;>
    omega

theorem hexUnit_lt {a b c d u : Nat} (h : hexUnit a b c d = some u) : u < 65536 := by
  simp only [hexUnit, Option.pure_def, Option.bind_eq_bind, Option.bind_eq_some_iff,
    Option.some.injEq] at h
  obtain ⟨w, hw, x, hx, y, hy, z, hz, rfl⟩ := h
  have := hexValue_lt hw
  have := hexValue_lt hx
  have := hexValue_lt hy
  have := hexValue_lt hz
  omega

theorem shortValue_lt {e c : Nat} (h : shortValue e = some c) : c < 128 := by
  unfold shortValue at h
  split_ifs at h <;>
    obtain rfl := Option.some.inj h <;>
    decide

/-- A high surrogate that waits is a code point. -/
theorem isText_high {high : Option Nat} (h : ∀ c ∈ high, IsHigh c) : IsText high.toList := by
  cases high with
  | none => exact List.forall_mem_nil _
  | some c =>
    have hc := h c rfl
    unfold IsHigh at hc
    exact List.forall_mem_singleton.mpr (by omega)

/-- Characters before a string that is read to its end. -/
theorem isText_map (pre : Str) (hpre : IsText pre) {read : Option (Str × Str)}
    (hread : ∀ {t rest : Str}, read = some (t, rest) → IsText t ∧ IsText rest) {t rest : Str}
    (h : read.map (fun (t, rest) => (pre ++ t, rest)) = some (t, rest)) : IsText t ∧ IsText rest := by
  obtain ⟨⟨u, v⟩, hu, huv⟩ := Option.map_eq_some_iff.mp h
  obtain ⟨rfl, rfl⟩ := Prod.mk.inj huv
  obtain ⟨htext, hrest⟩ := hread hu
  exact ⟨isText_append.mpr ⟨hpre, htext⟩, hrest⟩

/-- **What is read of a string is code points.** -/
theorem isText_string {high : Option Nat} {s : Str} (hhigh : ∀ h ∈ high, IsHigh h) (hs : IsText s)
    {t rest : Str} (h : string high s = some (t, rest)) : IsText t ∧ IsText rest := by
  have hnone : ∀ h ∈ (none : Option Nat), IsHigh h := by simp
  fun_induction string high s generalizing t rest with
  | case1 => cases h
  | case2 high s =>
    obtain ⟨rfl, rfl⟩ := Prod.mk.inj (Option.some.inj h)
    exact ⟨isText_high hhigh, (isText_cons.mp hs).2⟩
  | case3 => cases h
  | case4 a b c d s u hunit k hlow ih =>
    have hk := hhigh k rfl
    have hjoin : joinUnits k u < 1114112 := by
      unfold IsHigh at hk
      unfold IsLow at hlow
      unfold joinUnits
      omega
    have hs : IsText s := fun e he => hs e (by simp [he])
    exact isText_map [joinUnits k u] (List.forall_mem_singleton.mpr hjoin) (ih hnone hs) h
  | case5 a b c d s u hunit k hlow hhigh' ih =>
    have hk := isText_high hhigh
    have hs : IsText s := fun e he => hs e (by simp [he])
    exact isText_map [k] hk (ih (by simpa using hhigh') hs) h
  | case6 a b c d s u hunit k hlow hhigh' ih =>
    have hk : k < 1114112 := isText_high hhigh k (by simp)
    have hu : u < 1114112 := (hexUnit_lt hunit).trans (by decide)
    have hs : IsText s := fun e he => hs e (by simp [he])
    exact isText_map [k, u] (isText_cons.mpr ⟨hk, List.forall_mem_singleton.mpr hu⟩)
      (ih hnone hs) h
  | case7 a b c d s u hunit hhigh' ih =>
    exact ih (by simpa using hhigh') (fun e he => hs e (by simp [he])) h
  | case8 a b c d s u hunit hhigh' ih =>
    have hu : u < 1114112 := (hexUnit_lt hunit).trans (by decide)
    have hs : IsText s := fun e he => hs e (by simp [he])
    exact isText_map [u] (List.forall_mem_singleton.mpr hu) (ih hnone hs) h
  | case9 => cases h
  | case10 high e s _ c hshort ih =>
    have hc : c < 1114112 := (shortValue_lt hshort).trans (by decide)
    have hs : IsText s := fun e he => hs e (by simp [he])
    have hpre : IsText (high.toList ++ [c]) :=
      isText_append.mpr ⟨isText_high hhigh, List.forall_mem_singleton.mpr hc⟩
    refine isText_map _ hpre (ih hnone hs) ?_
    simpa only [List.append_assoc, List.singleton_append] using h
  | case11 => cases h
  | case12 high c s _ _ _ hplain ih =>
    obtain ⟨hc, hs⟩ := isText_cons.mp hs
    have hpre : IsText (high.toList ++ [c]) :=
      isText_append.mpr ⟨isText_high hhigh, List.forall_mem_singleton.mpr hc⟩
    refine isText_map _ hpre (ih hnone hs) ?_
    simpa only [List.append_assoc, List.singleton_append] using h

/-! ## Values -/

theorem skip_suffix (s : Str) : skip s <:+ s := List.dropWhile_suffix isBlank

theorem numeral_suffix {s digits tail rest : Str} (h : numeral s = some (digits, tail, rest)) :
    rest <:+ s := by
  have hplain : Style.Plain fun _ => True := fun _ _ _ => trivial
  unfold numeral at h
  cases hwhole : whole (minus s).2 with
  | none =>
    rw [hwhole] at h
    cases h
  | some d =>
    obtain ⟨ds, t⟩ := d
    rw [hwhole] at h
    obtain ⟨-, -, rfl⟩ : _ ∧ _ ∧ _ := by simpa using h
    have hexp : (exponent (fraction t).2).2 <:+ (fraction t).2 := ⟨_, (hplain.exponent _).2.symm⟩
    have hfrac : (fraction t).2 <:+ t := ⟨_, (hplain.fraction t).2.symm⟩
    have ht : t <:+ (minus s).2 := ⟨_, (Style.whole_eq hwhole).symm⟩
    have hminus : (minus s).2 <:+ s := ⟨_, (Style.minus_eq s).symm⟩
    exact hexp.trans (hfrac.trans (ht.trans hminus))

theorem charsMembers_set {p : Nat → Prop} {d : Dict} {key : Str} {x : Json} (hd : Json.CharsMembers p d)
    (hkey : ∀ c ∈ key, p c) (hx : x.Chars p) : Json.CharsMembers p (d.set key x) := by
  induction d with
  | nil => exact ⟨hkey, hx, trivial⟩
  | cons m d ih =>
    obtain ⟨k, v⟩ := m
    obtain ⟨hk, hv, hd⟩ := hd
    rw [Dict.set]
    split_ifs
    · exact ⟨hk, hx, hd⟩
    · exact ⟨hk, hv, ih hd⟩

section

variable [Tables]

theorem isText_number {s rest : Str} {x : Json} (hs : IsText s) (h : number s = some (x, rest)) :
    x.Chars (· < 1114112) ∧ IsText rest := by
  unfold number at h
  cases hnumeral : numeral s with
  | none =>
    rw [hnumeral] at h
    cases h
  | some d =>
    obtain ⟨digits, tail, t⟩ := d
    rw [hnumeral] at h
    obtain ⟨y, hvalue, hy⟩ := Option.map_eq_some_iff.mp h
    obtain ⟨rfl, rfl⟩ := Prod.mk.inj hy
    refine ⟨?_, hs.suffix (numeral_suffix hnumeral)⟩
    unfold numberValue at hvalue
    split_ifs at hvalue
    · obtain ⟨i, -, rfl⟩ := Option.map_eq_some_iff.mp hvalue
      trivial
    · obtain ⟨f, -, rfl⟩ := Option.map_eq_some_iff.mp hvalue
      trivial

mutual

/-- **The texts of a value that was read are code points.** -/
theorem isText_value : (fuel : Nat) → ∀ {s rest : Str} {x : Json}, IsText s →
    value fuel s = some (x, rest) → x.Chars (· < 1114112) ∧ IsText rest
  | 0, _, _, _, _, h => by cases h
  | fuel + 1, s, rest, x, hs, h => by
    rw [value.eq_def] at h
    dsimp only at h
    split at h
    · obtain ⟨t, ht, hx⟩ := Option.map_eq_some_iff.mp h
      obtain ⟨rfl, rfl⟩ := Prod.mk.inj hx
      exact isText_string (by simp) (isText_cons.mp hs).2 ht
    · rename_i t
      have ht := (isText_cons.mp hs).2.suffix (skip_suffix t)
      split at h
      · rename_i hskip
        cases h
        exact ⟨trivial, (isText_cons.mp (hskip ▸ ht)).2⟩
      · obtain ⟨d, hd, hx⟩ := Option.map_eq_some_iff.mp h
        obtain ⟨rfl, rfl⟩ := Prod.mk.inj hx
        exact isText_members fuel ht hd trivial
    · rename_i t
      have ht := (isText_cons.mp hs).2.suffix (skip_suffix t)
      split at h
      · rename_i hskip
        cases h
        exact ⟨trivial, (isText_cons.mp (hskip ▸ ht)).2⟩
      · obtain ⟨d, hd, hx⟩ := Option.map_eq_some_iff.mp h
        obtain ⟨rfl, rfl⟩ := Prod.mk.inj hx
        exact isText_items fuel ht hd
    · cases h
      exact ⟨trivial, hs.suffix (List.suffix_append (lit "null") _)⟩
    · cases h
      exact ⟨trivial, hs.suffix (List.suffix_append (lit "true") _)⟩
    · cases h
      exact ⟨trivial, hs.suffix (List.suffix_append (lit "false") _)⟩
    · cases h
      exact ⟨trivial, hs.suffix (List.suffix_append (lit "NaN") _)⟩
    · cases h
      exact ⟨trivial, hs.suffix (List.suffix_append (lit "Infinity") _)⟩
    · cases h
      exact ⟨trivial, hs.suffix (List.suffix_append (lit "-Infinity") _)⟩
    · exact isText_number hs h

theorem isText_items : (fuel : Nat) → ∀ {s rest : Str} {xs : List Json}, IsText s →
    items fuel s = some (xs, rest) → Json.CharsItems (· < 1114112) xs ∧ IsText rest
  | 0, _, _, _, _, h => by cases h
  | fuel + 1, s, rest, xs, hs, h => by
    rw [items] at h
    split at h
    · cases h
    · rename_i x t hvalue
      obtain ⟨hx, ht⟩ := isText_value fuel hs hvalue
      have hskip := ht.suffix (skip_suffix t)
      split at h
      · rename_i heq
        cases h
        exact ⟨⟨hx, trivial⟩, (isText_cons.mp (heq ▸ hskip)).2⟩
      · rename_i u heq
        obtain ⟨d, hd, hxs⟩ := Option.map_eq_some_iff.mp h
        obtain ⟨rfl, rfl⟩ := Prod.mk.inj hxs
        have hu := (isText_cons.mp (heq ▸ hskip)).2.suffix (skip_suffix u)
        obtain ⟨hrest, hend⟩ := isText_items fuel hu hd
        exact ⟨⟨hx, hrest⟩, hend⟩
      · cases h

theorem isText_members : (fuel : Nat) → ∀ {s rest : Str} {before ms : Dict}, IsText s →
    members fuel before s = some (ms, rest) → Json.CharsMembers (· < 1114112) before →
    Json.CharsMembers (· < 1114112) ms ∧ IsText rest
  | 0, _, _, _, _, _, h, _ => by cases h
  | fuel + 1, s, rest, before, ms, hs, h, hbefore => by
    rw [members.eq_def] at h
    dsimp only at h
    split at h
    · split at h
      · cases h
      · rename_i key t hkey
        obtain ⟨hkeytext, ht⟩ := isText_string (by simp) (isText_cons.mp hs).2 hkey
        have hskip := ht.suffix (skip_suffix t)
        split at h
        · rename_i u heq
          have hu := (isText_cons.mp (heq ▸ hskip)).2.suffix (skip_suffix u)
          split at h
          · cases h
          · rename_i x v hvalue
            obtain ⟨hx, hv⟩ := isText_value fuel hu hvalue
            have hset := charsMembers_set hbefore hkeytext hx
            have hskip' := hv.suffix (skip_suffix v)
            split at h
            · rename_i heq'
              cases h
              exact ⟨hset, (isText_cons.mp (heq' ▸ hskip')).2⟩
            · rename_i w heq'
              have hw := (isText_cons.mp (heq' ▸ hskip')).2.suffix (skip_suffix w)
              exact isText_members fuel hw h hset
            · cases h
        · cases h
    · cases h

end

end

/-- The texts of what was read are code points. -/
theorem isText_loads [Tables] {s : Str} {x : Json} (hs : IsText s) (h : loads s = some x) :
    x.Chars (· < 1114112) := by
  unfold loads at h
  split at h
  · cases h
  · split at h
    · rename_i y rest hdecode
      split_ifs at h
      cases h
      exact (isText_value _ (hs.suffix (skip_suffix s)) hdecode).1
    · cases h

end Scan

end WebZapret.Py
