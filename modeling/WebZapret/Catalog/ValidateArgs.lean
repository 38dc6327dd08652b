import WebZapret.Catalog.Plan

/-!
# What `validate_args` accepts

It takes a string whose words are all options that are not forbidden (`validateArgs_eq_ok`), and raises
nothing but `ValueError` for another one (`validateArgs_error`).
-/

namespace WebZapret.Catalog

open Py Failing

variable [Tables]

omit [Tables] in
theorem str_or_nil (s : Str) : (Json.str s).or (.str []) = .str s := by
  cases s with
  | nil => rfl
  | cons c s => rfl

/-- What is no string, and true, has no words. -/
theorem validateArgs_eq (text : Json) :
    validateArgs text =
      match text.or (.str []) with
      | .str s => validateArgs (.str s)
      | _ => .error .attributeError := by
  unfold validateArgs
  cases text.or (.str []) with
  | str s => dsimp only; rw [str_or_nil]
  | _ => rfl

theorem checkToken_eq_ok {token : Str} :
    checkToken token = .ok () ↔
      0 ∉ token ∧ token.StartsWith (lit "--") ∧ token.key ∉ forbiddenArgs := by
  unfold checkToken
  by_cases hzero : 0 ∈ token
  · simp [hzero]
  · by_cases hstarts : token.StartsWith (lit "--")
    · by_cases hkey : token.key ∈ forbiddenArgs
      · simp [hzero, hstarts, hkey]
      · simp [hzero, hstarts, hkey]
    · simp [hzero, hstarts]

/-- `validate_args` of a string. -/
theorem validateArgs_eq_ok {text stored : Str} :
    validateArgs (.str text) = .ok stored ↔
      ∃ ts, Shlex.split text = .ok ts ∧ ts ≠ [] ∧ (∀ token ∈ ts, checkToken token = .ok ()) ∧
        stored = Str.join (lit " ") ts := by
  unfold validateArgs
  rw [str_or_nil]
  simp only [splitText]
  cases hsplit : Shlex.split text with
  | error e => cases e <;> exact ⟨nofun, nofun⟩
  | ok ts =>
    constructor
    · intro h
      obtain ⟨_, ⟨⟩, h⟩ := bind_eq_ok.mp h
      by_cases hne : ts = []
      · rw [if_pos hne] at h
        cases h
      · rw [if_neg hne] at h
        obtain ⟨⟨⟩, hcheck, h⟩ := bind_eq_ok.mp h
        cases h
        exact ⟨ts, rfl, hne, forM_eq_ok.mp hcheck, rfl⟩
    · intro h
      obtain ⟨_, ⟨⟩, hne, hcheck, rfl⟩ := h
      refine bind_eq_ok.mpr ⟨ts, rfl, ?_⟩
      rw [if_neg hne]
      exact bind_eq_ok.mpr ⟨(), forM_eq_ok.mpr hcheck, rfl⟩

omit [Tables] in
theorem ne_nil_of_startsWith {token : Str} (h : token.StartsWith (lit "--")) : token ≠ [] := by
  intro hnil
  rw [hnil] at h
  exact absurd h (by decide)

/-- What is accepted has a word. -/
theorem validateArgs_ne_nil {text : Json} {args : Str} (h : validateArgs text = .ok args) :
    args ≠ [] := by
  rw [validateArgs_eq] at h
  split at h
  · obtain ⟨ts, _, hne, hcheck, rfl⟩ := validateArgs_eq_ok.mp h
    cases ts with
    | nil => exact absurd rfl hne
    | cons token ts =>
      have htoken := ne_nil_of_startsWith (checkToken_eq_ok.mp (hcheck token List.mem_cons_self)).2.1
      cases ts with
      | nil => simpa [Str.join, List.intercalate] using htoken
      | cons next ts => simp [Str.join, List.intercalate_cons_cons, htoken]
  · cases h

/-! ## Errors -/

theorem checkToken_error {token : Str} {e : Exc} (h : checkToken token = .error e) :
    ∃ reason, e = .valueError reason ∧ reason.head? ≠ some 111 := by
  unfold checkToken at h
  split_ifs at h
  · cases h
    exact ⟨_, rfl, nofun⟩
  · cases h
    exact ⟨_, rfl, nofun⟩

/-- `validate_args` of a string raises nothing but `ValueError`, and not about the cap. -/
theorem validateArgs_error {text : Str} {e : Exc} (h : validateArgs (.str text) = .error e) :
    ∃ reason, e = .valueError reason ∧ reason.head? ≠ some 111 := by
  unfold validateArgs at h
  rw [str_or_nil, splitText] at h
  cases hsplit : Shlex.split text with
  | error e' =>
    obtain ⟨reason, rfl⟩ := Shlex.split_error hsplit
    rw [hsplit] at h
    cases h
    exact ⟨_, rfl, nofun⟩
  | ok ts =>
    rw [hsplit] at h
    change (if ts = [] then _ else _) = _ at h
    split_ifs at h
    · cases h
      exact ⟨_, rfl, nofun⟩
    · cases hcheck : ts.forM checkToken with
      | error e' =>
        obtain ⟨token, _, htoken⟩ := exists_of_forM_error hcheck
        change (ts.forM checkToken >>= _) = _ at h
        rw [hcheck] at h
        cases h
        exact checkToken_error htoken
      | ok u =>
        change (ts.forM checkToken >>= _) = _ at h
        rw [hcheck] at h
        cases h

end WebZapret.Catalog
