import WebZapret.Selection.RunSettings
import WebZapret.Lib.Py.Strip

/-!
# What coercion leaves

Whatever raw value `coerce` is given, it returns a clean value of its item or refuses: a boolean, a
number in the range, a stripped text, a list of stripped texts that are not empty, or one of the
choices (`coerce_clean`). The defaults are clean too. So is what `normalize` takes for a key, which
is the coerced value if there is one and that of the base otherwise (`normalize_lookup`).
-/

namespace WebZapret.Selection

open Py Failing

/-- The values of an item. -/
def Clean (spec : Spec) (value : Json) : Prop :=
  match spec.kind with
  | .bool => ∃ b, value = .bool b
  | .int => ∃ lo hi i : Int, spec.lo = .int lo ∧ spec.hi = .int hi ∧ value = .int i ∧
      lo ≤ i ∧ i ≤ hi
  | .float => ∃ lo hi x : Rat, spec.lo = .float (.fin lo) ∧ spec.hi = .float (.fin hi) ∧
      value = .float (.fin x) ∧ lo ≤ x ∧ x ≤ hi
  | .str => ∃ text : Str, value = .str text ∧ text.strip = text
  | .csv => ∃ texts : List Str, value = .arr (texts.map .str) ∧
      ∀ t ∈ texts, t ≠ [] ∧ t.strip = t
  | .enum => ∃ text ∈ spec.choices, value = .str text

/-- The default is one of the values, and a range of doubles has no negative numbers. -/
structure Spec.WellFormed (spec : Spec) : Prop where
  default : Clean spec spec.default
  lo : ∀ lo, spec.lo = .float (.fin lo) → 0 ≤ lo

section

variable [Tables] {spec : Spec}

/-! ## Coercion -/

omit [Tables] in
theorem clampInt_mem {lo hi : Int} (h : lo ≤ hi) (i : Int) :
    lo ≤ clampInt (.int lo) (.int hi) i ∧ clampInt (.int lo) (.int hi) i ≤ hi := by
  unfold clampInt
  dsimp only
  omega

omit [Tables] in
/-- A NaN, an infinity and a negative zero are clamped too. -/
theorem clampFloat_mem {lo hi : Rat} (h0 : 0 ≤ lo) (h : lo ≤ hi) (x : Flt) :
    ∃ q, clampFloat (.float (.fin lo)) (.float (.fin hi)) x = .fin q ∧ lo ≤ q ∧ q ≤ hi ∧
      (q = lo ∨ q = hi ∨ x = .fin q) := by
  -- the lower bound, then the upper one
  have hlow : (∃ q, (if (Flt.fin lo).lt x then x else .fin lo) = .fin q ∧ lo ≤ q ∧
      (q = lo ∨ x = .fin q)) ∨ (if (Flt.fin lo).lt x then x else .fin lo) = .inf false := by
    cases x with
    | fin q =>
      by_cases hq : lo < q
      · have hlt : (Flt.fin lo).lt (.fin q) = true := by simp [Flt.lt, Flt.le, Flt.toRat?, hq]
        rw [if_pos hlt]
        exact .inl ⟨q, rfl, hq.le, .inr rfl⟩
      · have hlt : ¬(Flt.fin lo).lt (.fin q) = true := by
          simpa [Flt.lt, Flt.le, Flt.toRat?] using hq
        rw [if_neg hlt]
        exact .inl ⟨lo, rfl, le_rfl, .inl rfl⟩
    | negZero =>
      have hlt : ¬(Flt.fin lo).lt .negZero = true := by
        simpa [Flt.lt, Flt.le, Flt.toRat?] using h0
      rw [if_neg hlt]
      exact .inl ⟨lo, rfl, le_rfl, .inl rfl⟩
    | inf neg =>
      cases neg with
      | false =>
        have hlt : (Flt.fin lo).lt (.inf false) = true := by simp [Flt.lt, Flt.le, Flt.toRat?]
        rw [if_pos hlt]
        exact .inr rfl
      | true =>
        have hlt : ¬(Flt.fin lo).lt (.inf true) = true := by simp [Flt.lt, Flt.le, Flt.toRat?]
        rw [if_neg hlt]
        exact .inl ⟨lo, rfl, le_rfl, .inl rfl⟩
    | nan =>
      have hlt : ¬(Flt.fin lo).lt .nan = true := by simp [Flt.lt]
      rw [if_neg hlt]
      exact .inl ⟨lo, rfl, le_rfl, .inl rfl⟩
  unfold clampFloat
  dsimp only
  rcases hlow with ⟨q, hq, hle, hfrom⟩ | hinf
  · rw [hq]
    by_cases hlt : q < hi
    · have hbelow : (Flt.fin q).lt (.fin hi) = true := by simp [Flt.lt, Flt.le, Flt.toRat?, hlt]
      rw [if_pos hbelow]
      refine ⟨q, rfl, hle, hlt.le, ?_⟩
      rcases hfrom with hlo | hx
      · exact .inl hlo
      · exact .inr (.inr hx)
    · have hbelow : ¬(Flt.fin q).lt (.fin hi) = true := by
        simpa [Flt.lt, Flt.le, Flt.toRat?] using hlt
      rw [if_neg hbelow]
      exact ⟨hi, rfl, h, le_rfl, .inr (.inl rfl)⟩
  · rw [hinf]
    have hbelow : ¬(Flt.inf false).lt (.fin hi) = true := by simp [Flt.lt, Flt.le, Flt.toRat?]
    rw [if_neg hbelow]
    exact ⟨hi, rfl, h, le_rfl, .inr (.inl rfl)⟩

theorem asBool_clean (value : Json) (b : Bool) : ∃ b', asBool value (.bool b) = .bool b' := by
  unfold asBool
  split
  · exact ⟨_, rfl⟩
  · exact ⟨b, rfl⟩
  · dsimp only
    split
    · exact ⟨true, rfl⟩
    · split
      · exact ⟨false, rfl⟩
      · exact ⟨b, rfl⟩

theorem asInt_eq_ok {value lo hi v : Json} (h : asInt value lo hi = .ok v) :
    ∃ i, v = .int (clampInt lo hi i) := by
  unfold asInt at h
  split at h
  · cases h
  · split at h
    · split at h
      · cases h
        exact ⟨_, rfl⟩
      · cases h
      · cases h
    · cases h

theorem asFloat_eq_ok {value lo hi v : Json} (h : asFloat value lo hi = .ok v) :
    ∃ text x, Tables.parseFloat text = some x ∧ v = .float (clampFloat lo hi x) := by
  unfold asFloat at h
  split at h
  · cases h
  · split at h
    · rename_i x hx
      cases h
      exact ⟨_, x, hx, rfl⟩
    · cases h

theorem asCsv_clean (value : Json) : ∀ t ∈ asCsv value, t ≠ [] ∧ t.strip = t := by
  unfold asCsv
  split
  · intro t ht
    obtain ⟨hmem, hne⟩ := List.mem_filter.mp ht
    obtain ⟨x, _, rfl⟩ := List.mem_map.mp hmem
    exact ⟨by simpa using hne, Str.strip_strip _⟩
  · intro t ht
    obtain ⟨hne, hblank⟩ := Str.words_clean _ t ht
    exact ⟨hne, Str.strip_eq_self hblank⟩

/-- **Coercion cleans.** -/
theorem coerce_clean (hspec : spec.WellFormed) {raw v : Json} (h : coerce spec raw = .ok v) :
    Clean spec v := by
  obtain ⟨hdefault, hlo⟩ := hspec
  unfold coerce at h
  unfold Clean at hdefault ⊢
  cases hkind : spec.kind with
  | bool =>
    rw [hkind] at h hdefault
    obtain ⟨b, hb⟩ := hdefault
    cases h
    rw [hb]
    exact asBool_clean raw b
  | int =>
    rw [hkind] at h hdefault
    obtain ⟨lo, hi, i, hlo, hhi, _, hle, hge⟩ := hdefault
    obtain ⟨j, rfl⟩ := asInt_eq_ok h
    have hmem := clampInt_mem (by omega : lo ≤ hi) j
    rw [hlo, hhi]
    exact ⟨lo, hi, _, rfl, rfl, rfl, hmem.1, hmem.2⟩
  | float =>
    rw [hkind] at h hdefault
    obtain ⟨lo, hi, x, hlow, hhigh, _, hle, hge⟩ := hdefault
    obtain ⟨text, y, _, rfl⟩ := asFloat_eq_ok h
    obtain ⟨q, hq, hmem, hmem', _⟩ := clampFloat_mem (hlo lo hlow) (hle.trans hge) y
    rw [hlow, hhigh, hq]
    exact ⟨lo, hi, q, rfl, rfl, rfl, hmem, hmem'⟩
  | str =>
    rw [hkind] at h
    dsimp only at h
    split at h
    · cases h
      exact ⟨_, rfl, Str.strip_strip _⟩
    · cases h
      exact ⟨_, rfl, Str.strip_strip _⟩
  | csv =>
    rw [hkind] at h hdefault
    dsimp only at h
    split at h
    · cases h
      exact hdefault
    · cases h
      exact ⟨_, rfl, asCsv_clean _⟩
  | enum =>
    rw [hkind] at h hdefault
    dsimp only at h
    obtain ⟨text, rfl⟩ : ∃ text : Str,
        (if text ∈ spec.choices then Json.str text else spec.default) = v :=
      ⟨_, Except.ok.inj h⟩
    by_cases hmem : text ∈ spec.choices
    · rw [if_pos hmem]
      exact ⟨text, hmem, rfl⟩
    · rw [if_neg hmem]
      exact hdefault

/-! ## Keys -/

/-- The value that `normalize` takes for a key. -/
def effective (spec : Spec) (values base : Dict) : Option Json :=
  match values.lookup spec.key with
  | none => base.lookup spec.key
  | some raw =>
    match coerce spec raw with
    | .error _ => base.lookup spec.key
    | .ok value => some value

theorem normalizeKey_self (values base : Dict) (acc : Dict × List Str)
    (hacc : acc.1.lookup spec.key = base.lookup spec.key) :
    (normalizeKey values base acc spec).1.lookup spec.key = effective spec values base := by
  unfold normalizeKey effective
  cases values.lookup spec.key with
  | none => exact hacc
  | some raw =>
    cases hraw : coerce spec raw with
    | error text => simp only [hraw, hacc]
    | ok value =>
      simp only [hraw]
      exact Dict.lookup_set_self _ _ _

theorem normalizeKey_ne (values base : Dict) (acc : Dict × List Str) {key : Str}
    (h : key ≠ spec.key) :
    (normalizeKey values base acc spec).1.lookup key = acc.1.lookup key := by
  unfold normalizeKey
  split
  · rfl
  · split
    · rfl
    · exact Dict.lookup_set_ne _ h _

/-- Keys that no item of a block has are left alone. -/
theorem foldl_normalizeKey_ne (specs : List Spec) (values base : Dict) (acc : Dict × List Str)
    {key : Str} (h : key ∉ specs.map (·.key)) :
    (specs.foldl (normalizeKey values base) acc).1.lookup key = acc.1.lookup key := by
  induction specs generalizing acc with
  | nil => rfl
  | cons spec specs ih =>
    obtain ⟨hne, hrest⟩ := not_or.mp (mt List.mem_cons.mpr h)
    rw [List.foldl_cons, ih _ hrest, normalizeKey_ne _ _ _ hne]

/-- **One key of `normalize`.** -/
theorem normalize_lookup {specs : List Spec} (hkeys : (specs.map (·.key)).Nodup)
    (hspec : spec ∈ specs) (values base : Dict) :
    (normalize specs values base).1.lookup spec.key = effective spec values base := by
  unfold normalize
  suffices hloop : ∀ acc : Dict × List Str, acc.1.lookup spec.key = base.lookup spec.key →
      (specs.foldl (normalizeKey values base) acc).1.lookup spec.key =
        effective spec values base from hloop (base, []) rfl
  induction specs with
  | nil => cases hspec
  | cons first specs ih =>
    intro acc hacc
    obtain ⟨hfirst, hkeys⟩ := List.nodup_cons.mp hkeys
    rw [List.foldl_cons]
    rcases List.mem_cons.mp hspec with rfl | hspec
    · rw [foldl_normalizeKey_ne specs values base _ hfirst, normalizeKey_self values base acc hacc]
    · have hmem : spec.key ∈ specs.map (·.key) := List.mem_map_of_mem hspec
      have hne : spec.key ≠ first.key := by
        intro heq
        rw [heq] at hmem
        exact hfirst hmem
      exact ih hkeys hspec _ (by rw [normalizeKey_ne _ _ _ hne, hacc])

/-- The value of a key in the defaults. -/
theorem envDefaults_lookup {specs : List Spec} (hkeys : (specs.map (·.key)).Nodup)
    (hspec : spec ∈ specs) (environ : Str → Option Str) (keyPrefix : Str) :
    (envDefaults environ specs keyPrefix).lookup spec.key =
      some (match environ (keyPrefix ++ Tables.upper spec.key) with
        | none => spec.default
        | some raw =>
          match coerce spec (.str raw) with
          | .ok value => value
          | .error _ => spec.default) := by
  induction specs with
  | nil => cases hspec
  | cons first specs ih =>
    obtain ⟨hfirst, hkeys⟩ := List.nodup_cons.mp hkeys
    rcases List.mem_cons.mp hspec with rfl | hspec
    · exact List.lookup_cons_self
    · have hmem : spec.key ∈ specs.map (·.key) := List.mem_map_of_mem hspec
      have hne : (spec.key == first.key) = false := by
        apply beq_false_of_ne
        intro heq
        rw [heq] at hmem
        exact hfirst hmem
      have hrest := ih hkeys hspec
      unfold envDefaults at hrest ⊢
      rw [List.map_cons, List.lookup_cons, hne]
      exact hrest

/-! ## What holds of every value -/

/-- Every item of the block has a value, which is as `P` says. -/
def Values (P : Spec → Json → Prop) (specs : List Spec) (d : Dict) : Prop :=
  ∀ spec ∈ specs, ∃ v, d.lookup spec.key = some v ∧ P spec v

variable {P : Spec → Json → Prop} {specs : List Spec}

/-- What the coerced values and the defaults are, the defaults of the environment are. -/
theorem envDefaults_values (hkeys : (specs.map (·.key)).Nodup)
    (hdefault : ∀ spec ∈ specs, P spec spec.default)
    (hcoerce : ∀ spec ∈ specs, ∀ raw v, coerce spec raw = .ok v → P spec v)
    (environ : Str → Option Str) (keyPrefix : Str) :
    Values P specs (envDefaults environ specs keyPrefix) := by
  intro spec hspec
  refine ⟨_, envDefaults_lookup hkeys hspec environ keyPrefix, ?_⟩
  split
  · exact hdefault spec hspec
  · split
    · rename_i v hv
      exact hcoerce spec hspec _ v hv
    · exact hdefault spec hspec

/-- What the coerced values and those of the base are, the normalized ones are. -/
theorem normalize_values (hkeys : (specs.map (·.key)).Nodup)
    (hcoerce : ∀ spec ∈ specs, ∀ raw v, coerce spec raw = .ok v → P spec v) {base : Dict}
    (hbase : Values P specs base) (values : Dict) :
    Values P specs (normalize specs values base).1 := by
  intro spec hspec
  rw [normalize_lookup hkeys hspec]
  unfold effective
  split
  · exact hbase spec hspec
  · split
    · exact hbase spec hspec
    · rename_i v hv
      exact ⟨v, rfl, hcoerce spec hspec _ v hv⟩

end

end WebZapret.Selection
