import WebZapret.Lib.Py.JsonRoundTrip

/-!
# What reading JSON gives

A value that was read has distinct keys in every object, short integers, and floats that `float`
returned. Printing it without escapes loses nothing of it (`keeps_of_loads`), so what was read and
printed is read back.
-/

namespace WebZapret.Py

/-- What Python documents of the text of a double: `float` and JSON read the double back from it. -/
class JsonTables [Tables] : Prop where
  float_kept : ∀ text x, Tables.parseFloat text = some x → FloatKept x

namespace Scan

/-! ## Texts and objects -/

theorem keepsText {style : Style} (h : style.ascii = false) (s : Str) : style.KeepsText s := by
  intro hascii
  rw [h] at hascii
  cases hascii

theorem keepsMembers_set [Tables] {style : Style} (hstyle : style.ascii = false) {d : Dict}
    (key : Str) {x : Json} (hd : style.KeepsMembers d) (hx : style.Keeps x) :
    style.KeepsMembers (d.set key x) := by
  induction d with
  | nil => exact ⟨keepsText hstyle key, hx, trivial⟩
  | cons m d ih =>
    obtain ⟨k, v⟩ := m
    obtain ⟨hk, hv, hd⟩ := hd
    rw [Dict.set]
    split_ifs
    · exact ⟨hk, hx, hd⟩
    · exact ⟨hk, hv, ih hd⟩

/-- Keys stay distinct. -/
theorem nodup_set {d : Dict} (h : (d.map (·.1)).Nodup) (key : Str) (x : Json) :
    ((d.set key x).map (·.1)).Nodup := by
  by_cases hkey : key ∈ d.map (·.1)
  · rw [Dict.keys_set hkey]
    exact h
  · rw [Dict.set_new hkey, List.map_append, List.nodup_append]
    refine ⟨h, List.nodup_cons.mpr ⟨List.not_mem_nil, List.nodup_nil⟩, ?_⟩
    rintro a ha b hb rfl
    rw [List.map_singleton, List.mem_singleton] at hb
    rw [hb] at ha
    exact hkey ha

/-! ## Numbers -/

/-- Digits of ASCII are below the power of ten that has their number of zeros. -/
theorem digitsFrom_lt [Tables] [LawfulTables] {s : Str} (hs : ∀ c ∈ s, isAsciiDigit c = true)
    {acc n : Nat} (h : Json.digitsFrom acc s = some n) : n < (acc + 1) * 10 ^ s.length := by
  induction s generalizing acc with
  | nil =>
    cases h
    simp
  | cons c s ih =>
    obtain ⟨hc, hs⟩ := List.forall_mem_cons.mp hs
    rw [Json.digitsFrom_cons hc] at h
    have hlt := ih hs h
    have hdigit : c - 48 ≤ 9 := by
      simp [isAsciiDigit] at hc
      omega
    calc n < (10 * acc + (c - 48) + 1) * 10 ^ s.length := hlt
      _ ≤ ((acc + 1) * 10) * 10 ^ s.length := Nat.mul_le_mul_right _ (by omega)
      _ = (acc + 1) * 10 ^ (c :: s).length := by rw [List.length_cons, Nat.pow_succ']; ring

/-- The digits of a numeral: a minus or none, and digits of ASCII. -/
theorem digits_of_numeral {s digits tail rest : Str} (h : numeral s = some (digits, tail, rest)) :
    ∃ ds, (digits = ds ∨ digits = 45 :: ds) ∧ ds ≠ [] ∧ ∀ c ∈ ds, isAsciiDigit c = true := by
  unfold numeral at h
  cases hwhole : whole (minus s).2 with
  | none =>
    rw [hwhole] at h
    cases h
  | some d =>
    obtain ⟨ds, t⟩ := d
    rw [hwhole] at h
    obtain ⟨rfl, -, -⟩ : _ ∧ _ ∧ _ := by simpa using h
    refine ⟨ds, ?_, ?_⟩
    · cases s with
      | nil => exact .inl rfl
      | cons c s =>
        rw [minus]
        split_ifs
        · exact .inr rfl
        · exact .inl rfl
    · cases hs : (minus s).2 with
      | nil =>
        rw [hs] at hwhole
        cases hwhole
      | cons c s =>
        rw [hs, whole] at hwhole
        split_ifs at hwhole with hzero hdigit
        · obtain ⟨rfl, -⟩ := Prod.mk.inj (Option.some.inj hwhole)
          exact ⟨List.cons_ne_nil _ _, by decide⟩
        · obtain ⟨rfl, -⟩ := Prod.mk.inj (Option.some.inj hwhole)
          refine ⟨List.cons_ne_nil _ _, List.forall_mem_cons.mpr ⟨hdigit, fun d hd => ?_⟩⟩
          exact List.mem_takeWhile_imp hd

section

variable [Tables]

/-- Digits are read as an integer that can be printed. -/
theorem shortInt_of_parseInt [LawfulTables] {ds : Str} (hne : ds ≠ [])
    (hds : ∀ c ∈ ds, isAsciiDigit c = true) {i : Int} (h : Json.parseInt ds = some i) : ShortInt i := by
  have hstrip : ds.stripBy isNumberSpace = ds :=
    Str.stripBy_numberSpace fun c hc => isSpace_of_isAsciiDigit (hds c hc)
  have hscores : ds.filter (· ≠ 95) = ds := by
    apply List.filter_eq_self.mpr
    intro c hc
    have hdigit := hds c hc
    rw [decide_eq_true_eq]
    rintro rfl
    cases hdigit
  obtain ⟨c, t, rfl⟩ := List.exists_cons_of_ne_nil hne
  have hc := hds c List.mem_cons_self
  have hplus : c ≠ 43 := by
    rintro rfl
    cases hc
  have hminus : c ≠ 45 := by
    rintro rfl
    cases hc
  rw [Json.parseInt, hstrip] at h
  split at h
  · rename_i heq
    exact absurd (List.cons.inj heq).1 hplus
  · rename_i heq
    exact absurd (List.cons.inj heq).1 hminus
  · dsimp only at h
    split_ifs at h with hlong
    rw [hscores, not_or] at hlong
    obtain ⟨n, hn, rfl⟩ : ∃ n : Nat, Json.digitsFrom 0 (c :: t) = some n ∧ (n : Int) = i := by
      simpa [Option.bind_eq_some_iff] using h
    rw [shortInt_iff, Int.natAbs_natCast]
    calc n < (0 + 1) * 10 ^ (c :: t).length := digitsFrom_lt hds hn
      _ = 10 ^ (c :: t).length := by rw [Nat.zero_add, Nat.one_mul]
      _ ≤ 10 ^ maxDigits := Nat.pow_le_pow_right (by decide) (not_lt.mp hlong.2)

variable {style : Style}

/-- A number that was read can be printed. -/
theorem keeps_number [LawfulTables] [JsonTables] {s rest : Str} {x : Json}
    (h : number s = some (x, rest)) : style.Keeps x := by
  unfold number at h
  cases hnumeral : numeral s with
  | none =>
    rw [hnumeral] at h
    cases h
  | some d =>
    obtain ⟨digits, tail, t⟩ := d
    obtain ⟨ds, hdigits, hne, hds⟩ := digits_of_numeral hnumeral
    rw [hnumeral] at h
    obtain ⟨y, hvalue, hy⟩ := Option.map_eq_some_iff.mp h
    obtain ⟨rfl, -⟩ := Prod.mk.inj hy
    unfold numberValue at hvalue
    split_ifs at hvalue
    · obtain ⟨i, hi, rfl⟩ := Option.map_eq_some_iff.mp hvalue
      show ShortInt i
      rcases hdigits with rfl | rfl
      · exact shortInt_of_parseInt hne hds hi
      · rw [parseInt_minus hne hds] at hi
        obtain ⟨j, hj, rfl⟩ := Option.map_eq_some_iff.mp hi
        have hshort := shortInt_of_parseInt hne hds hj
        rwa [ShortInt, Int.natAbs_neg]
    · obtain ⟨f, hf, rfl⟩ := Option.map_eq_some_iff.mp hvalue
      exact JsonTables.float_kept _ _ hf

/-! ## Values -/

mutual

/-- **A value that was read can be printed without loss.** -/
theorem keeps_value [LawfulTables] [JsonTables] (hstyle : style.ascii = false) : (fuel : Nat) →
    ∀ {s rest : Str} {x : Json}, value fuel s = some (x, rest) → style.Keeps x
  | 0, _, _, _, h => by cases h
  | fuel + 1, s, rest, x, h => by
    rw [value.eq_def] at h
    dsimp only at h
    split at h
    · obtain ⟨t, ht, hx⟩ := Option.map_eq_some_iff.mp h
      obtain ⟨rfl, -⟩ := Prod.mk.inj hx
      exact keepsText hstyle _
    · split at h
      · cases h
        exact ⟨List.nodup_nil, trivial⟩
      · obtain ⟨d, hd, hx⟩ := Option.map_eq_some_iff.mp h
        obtain ⟨rfl, -⟩ := Prod.mk.inj hx
        exact keeps_members hstyle fuel hd List.nodup_nil trivial
    · split at h
      · cases h
        trivial
      · obtain ⟨d, hd, hx⟩ := Option.map_eq_some_iff.mp h
        obtain ⟨rfl, -⟩ := Prod.mk.inj hx
        exact keeps_items hstyle fuel hd
    · cases h
      trivial
    · cases h
      trivial
    · cases h
      trivial
    · cases h
      trivial
    · cases h
      trivial
    · cases h
      trivial
    · exact keeps_number h

theorem keeps_items [LawfulTables] [JsonTables] (hstyle : style.ascii = false) : (fuel : Nat) →
    ∀ {s rest : Str} {xs : List Json}, items fuel s = some (xs, rest) → style.KeepsItems xs
  | 0, _, _, _, h => by cases h
  | fuel + 1, s, rest, xs, h => by
    rw [items] at h
    split at h
    · cases h
    · rename_i x t hvalue
      have hx := keeps_value hstyle fuel hvalue
      split at h
      · cases h
        exact ⟨hx, trivial⟩
      · obtain ⟨d, hd, hxs⟩ := Option.map_eq_some_iff.mp h
        obtain ⟨rfl, -⟩ := Prod.mk.inj hxs
        exact ⟨hx, keeps_items hstyle fuel hd⟩
      · cases h

theorem keeps_members [LawfulTables] [JsonTables] (hstyle : style.ascii = false) : (fuel : Nat) →
    ∀ {s rest : Str} {before ms : Dict}, members fuel before s = some (ms, rest) →
    (before.map (·.1)).Nodup → style.KeepsMembers before → style.Keeps (.obj ms)
  | 0, _, _, _, _, h, _, _ => by cases h
  | fuel + 1, s, rest, before, ms, h, hnodup, hbefore => by
    rw [members.eq_def] at h
    dsimp only at h
    split at h
    · split at h
      · cases h
      · rename_i key t hkey
        split at h
        · split at h
          · cases h
          · rename_i x u hvalue
            have hx := keeps_value hstyle fuel hvalue
            have hset := keepsMembers_set hstyle key hbefore hx
            have hkeys := nodup_set hnodup key x
            split at h
            · cases h
              exact ⟨hkeys, hset⟩
            · exact keeps_members hstyle fuel h hkeys hset
            · cases h
        · cases h
    · cases h

end

/-- What was read can be printed without loss. -/
theorem keeps_loads [LawfulTables] [JsonTables] (hstyle : style.ascii = false) {s : Str} {x : Json}
    (h : loads s = some x) : style.Keeps x := by
  unfold loads at h
  split at h
  · cases h
  · split at h
    · rename_i y rest hdecode
      split_ifs at h
      cases h
      exact keeps_value hstyle _ hdecode
    · cases h

end

end Scan

/-! ## Tables that keep the laws -/

theorem floatKept_whole (n : Nat) : @FloatKept Tables.asciiWhole (.fin n) := by
  let _ := Tables.asciiWhole
  have hrepr : Tables.reprFloat (.fin (n : Rat)) = intStr n ++ [46, 48] := by
    show intStr (n : Rat).floor ++ lit ".0" = _
    rw [show (n : Rat) = ((n : Int) : Rat) from rfl, Rat.floor_intCast]
    rfl
  have hnumeral : Scan.numeral (intStr n ++ [46, 48]) = some (intStr n, [46, 48], []) := by
    have hminus : Scan.minus (intStr n) = ([], intStr n) := Scan.minus_intStr n
    unfold Scan.numeral
    rw [Scan.minus_append (intStr_ne_nil n), hminus]
    dsimp only
    rw [Scan.whole_append (by decide) (Scan.whole_intStr n)]
    rfl
  have hparse : Tables.parseFloat (intStr n ++ [46, 48]) = some (.fin n) := by
    have hreads := readsBack_whole n
    have hspace : ∀ c ∈ intStr n ++ [46, 48], isSpace c = false := by
      rw [List.forall_mem_append]
      exact ⟨fun c hc => isSpace_of_isAsciiDigit (isAsciiDigit_of_mem_intStr hc), by decide⟩
    rwa [ReadsBack, hrepr, Str.strip_eq_self hspace] at hreads
  show Scan.number (Tables.reprFloat (.fin (n : Rat))) = _
  rw [hrepr]
  unfold Scan.number
  rw [hnumeral]
  dsimp only
  unfold Scan.numberValue
  rw [if_neg (by decide), hparse]
  rfl

theorem json_asciiWhole : @JsonTables Tables.asciiWhole := by
  let _ := Tables.asciiWhole
  refine ⟨fun text x hx => ?_⟩
  have hx : (if wholePart text ≠ [] ∧ ∀ c ∈ wholePart text, isAsciiDigit c = true then
      some (Flt.fin ((wholePart text).foldl (fun n c => 10 * n + (c - 48)) 0 : Nat)) else none) =
      some x := hx
  split_ifs at hx
  cases hx
  exact floatKept_whole _

end WebZapret.Py
