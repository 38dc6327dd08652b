import WebZapret.Lib.Py.Json
import WebZapret.Lib.Py.Strip

/-!
# Reading back what was printed

`int(str(i))` is `i` again, for a number that is not negative and not longer than `int` reads
(`toInt_intStr`). For doubles, and for the letters and digits of ASCII, this is what Python
documents of its tables (`LawfulTables`).
-/

namespace WebZapret.Py

/-- `float(str(x))` is `x`. -/
def ReadsBack [Tables] (x : Flt) : Prop :=
  Tables.parseFloat (Tables.reprFloat x).strip = some x

/-- What Python documents of its tables and of `repr` of a double. -/
class LawfulTables [Tables] : Prop where
  /-- small letters stay as they are -/
  lower_lower : ∀ s : Str, (∀ c ∈ s, isLower c = true) → Tables.lower s = s
  decimal_digit : ∀ c, isAsciiDigit c = true → Tables.decimal c = some (c - 48)
  /-- whatever `float` returned is read back from its text -/
  parse_repr : ∀ text x, Tables.parseFloat text = some x → ReadsBack x
  /-- so are the integers up to `2 ^ 53`, which are doubles -/
  parse_repr_nat : ∀ n : Nat, n ≤ 2 ^ 53 → ReadsBack (.fin n)

/-! ## Integers -/

theorem lit_toString_nat (n : Nat) : lit (toString n) = (Nat.toDigits 10 n).map Char.toNat := by
  unfold lit
  rw [Nat.toString_eq_repr, Nat.toList_repr]

theorem intStr_natCast (n : Nat) : intStr n = (Nat.toDigits 10 n).map Char.toNat :=
  lit_toString_nat n

theorem isAsciiDigit_of_isDigit {d : Char} (h : d.isDigit = true) :
    isAsciiDigit d.toNat = true := by
  rw [Char.isDigit, Bool.and_eq_true, decide_eq_true_eq, decide_eq_true_eq] at h
  change 48 ≤ d.toNat ∧ d.toNat ≤ 57 at h
  simpa [isAsciiDigit] using h

/-- The text of a natural number has nothing but digits. -/
theorem isAsciiDigit_of_mem_intStr {n c : Nat} (h : c ∈ intStr n) : isAsciiDigit c = true := by
  rw [intStr_natCast] at h
  obtain ⟨d, hd, rfl⟩ := List.mem_map.mp h
  exact isAsciiDigit_of_isDigit (Nat.isDigit_of_mem_toDigits (by decide) (by decide) hd)

theorem intStr_ne_nil (n : Nat) : intStr n ≠ [] := by
  rw [intStr_natCast, Ne, List.map_eq_nil_iff]
  exact Nat.toDigits_ne_nil

theorem intStr_injective {m n : Nat} (h : intStr m = intStr n) : m = n := by
  rw [intStr_natCast, intStr_natCast] at h
  have hchars : Function.Injective Char.toNat := fun c d hcd => Char.toNat_inj.mp hcd
  have hdigits := List.map_injective_iff.mpr hchars h
  have hvalue := congrArg (fun l => Nat.ofDigitChars 10 l 0) hdigits
  simpa only [Nat.ofDigitChars_ten_toDigits] using hvalue

theorem isSpace_of_isAsciiDigit {c : Nat} (h : isAsciiDigit c = true) : isSpace c = false := by
  simp [isAsciiDigit] at h
  simp [isSpace]
  omega

/-- The text of an integer has nothing but digits and a sign. -/
theorem mem_intStr {i : Int} {c : Nat} (h : c ∈ intStr i) : c = 45 ∨ isAsciiDigit c = true := by
  cases i with
  | ofNat n => exact .inr (isAsciiDigit_of_mem_intStr h)
  | negSucc n =>
    have htext : intStr (Int.negSucc n) = 45 :: intStr (n + 1 : Nat) := by
      have hsign : toString (Int.negSucc n) = "-" ++ toString (n + 1) := rfl
      unfold intStr lit
      rw [hsign, String.toList_append]
      rfl
    rw [htext, List.mem_cons] at h
    exact h.imp_right isAsciiDigit_of_mem_intStr

theorem underscore_notMem_intStr (i : Int) : 95 ∉ intStr i :=
  fun hmem => absurd (mem_intStr hmem) (by decide)

theorem nul_notMem_intStr (i : Int) : 0 ∉ intStr i := fun hmem => absurd (mem_intStr hmem) (by decide)

theorem strip_intStr (n : Nat) : (intStr n).strip = intStr n :=
  Str.strip_eq_self fun _ hc => isSpace_of_isAsciiDigit (isAsciiDigit_of_mem_intStr hc)

namespace Json

variable [Tables] [LawfulTables]

/-- Reading one more digit. -/
theorem digitsFrom_cons {c : Nat} (hc : isAsciiDigit c = true) (acc : Nat) (s : Str) :
    digitsFrom acc (c :: s) = digitsFrom (10 * acc + (c - 48)) s := by
  have hdecimal := LawfulTables.decimal_digit c hc
  have hne : c ≠ 95 := by
    rintro rfl
    cases hc
  cases s with
  | nil => simp [digitsFrom, hdecimal]
  | cons d s => simp [digitsFrom, hdecimal, hne]

theorem digitsFrom_digits {l : List Char} (h : ∀ d ∈ l, d.isDigit = true) (acc : Nat) :
    digitsFrom acc (l.map Char.toNat) = some (Nat.ofDigitChars 10 l acc) := by
  induction l generalizing acc with
  | nil => rfl
  | cons d l ih =>
    have hd := isAsciiDigit_of_isDigit (h d List.mem_cons_self)
    rw [List.map_cons, digitsFrom_cons hd, ih fun e he => h e (List.mem_cons_of_mem _ he),
      Nat.ofDigitChars_cons]
    rfl

theorem parseInt_intStr {n k : Nat} (hk : 0 < k) (hmax : k ≤ 4300) (hn : n < 10 ^ k) :
    parseInt (intStr n) = some (n : Int) := by
  have hdigits : ∀ c ∈ intStr n, isAsciiDigit c = true := fun _ => isAsciiDigit_of_mem_intStr
  have hvalue : digitsFrom 0 (intStr n) = some n := by
    rw [intStr_natCast, digitsFrom_digits fun d => Nat.isDigit_of_mem_toDigits (by decide) (by decide),
      Nat.ofDigitChars_ten_toDigits]
  have hlength : (intStr n).length ≤ k := by
    rw [intStr_natCast, List.length_map]
    exact (Nat.length_toDigits_le_iff (by decide) hk).mpr hn
  -- the digits are counted without the underscores, of which there are none
  have hcount : ¬4300 < ((intStr n).filter (· ≠ 95)).length := by
    have := List.length_filter_le (· ≠ 95) (intStr n)
    omega
  unfold parseInt
  rw [Str.stripBy_numberSpace fun c hc => isSpace_of_isAsciiDigit (hdigits c hc)]
  cases hs : intStr n with
  | nil => exact absurd hs (intStr_ne_nil n)
  | cons c s =>
    rw [hs] at hdigits hvalue hcount
    have hc := hdigits c List.mem_cons_self
    have hplus : c ≠ 43 := by
      rintro rfl
      cases hc
    have hminus : c ≠ 45 := by
      rintro rfl
      cases hc
    have hscore : c ≠ 95 := by
      rintro rfl
      cases hc
    have hno : ¬(((c :: s).head?.all (· = 95)) = true ∨ 4300 < ((c :: s).filter (· ≠ 95)).length) := by
      simpa [hscore] using hcount
    dsimp only
    split
    · rename_i t ht
      exact absurd (List.cons.inj ht).1 hplus
    · rename_i t ht
      exact absurd (List.cons.inj ht).1 hminus
    · rw [if_neg hno, hvalue]
      rfl

end Json

/-! ## Tables that keep the laws -/

/-- The digits of a double that is a natural number: `"12"` and `"12.0"`. -/
def wholePart (s : Str) : Str := if lit ".0" <:+ s then s.dropLast.dropLast else s

/-- The tables on ASCII text, with the doubles that are natural numbers. -/
@[reducible] def Tables.asciiWhole : Tables :=
  { Tables.ascii with
    reprFloat
      | .fin q => intStr q.floor ++ lit ".0"
      | _ => lit "nan"
    parseFloat s :=
      let digits := wholePart s
      if digits ≠ [] ∧ ∀ c ∈ digits, isAsciiDigit c = true then
        some (.fin (digits.foldl (fun n c => 10 * n + (c - 48)) 0 : Nat))
      else none }

theorem wholePart_repr (s : Str) : wholePart (s ++ lit ".0") = s := by
  have hsuffix : lit ".0" <:+ s ++ lit ".0" := List.suffix_append _ _
  rw [wholePart, if_pos hsuffix]
  show (s ++ [46, 48]).dropLast.dropLast = s
  simp [List.dropLast_append_of_ne_nil]

theorem foldl_intStr (n : Nat) :
    (intStr n).foldl (fun n c => 10 * n + (c - 48)) 0 = n := by
  rw [intStr_natCast, List.foldl_map]
  have hvalue := Nat.ofDigitChars_ten_toDigits (n := n)
  rw [Nat.ofDigitChars_eq_foldl] at hvalue
  exact hvalue

theorem readsBack_whole (n : Nat) : @ReadsBack Tables.asciiWhole (.fin n) := by
  let _ := Tables.asciiWhole
  have hrepr : Tables.reprFloat (.fin (n : Rat)) = intStr n ++ lit ".0" := by
    show intStr (n : Rat).floor ++ lit ".0" = _
    rw [show (n : Rat) = ((n : Int) : Rat) from rfl, Rat.floor_intCast]
  have hdigits : ∀ c ∈ intStr n, isAsciiDigit c = true := fun _ => isAsciiDigit_of_mem_intStr
  have hsuffix : ∀ c ∈ lit ".0", isSpace c = false := by decide
  have hstrip : (intStr n ++ lit ".0").strip = intStr n ++ lit ".0" := by
    apply Str.strip_eq_self
    intro c hc
    rcases List.mem_append.mp hc with hc | hc
    · exact isSpace_of_isAsciiDigit (hdigits c hc)
    · exact hsuffix c hc
  unfold ReadsBack
  rw [hrepr, hstrip]
  show (let digits := wholePart (intStr n ++ lit ".0")
    if digits ≠ [] ∧ ∀ c ∈ digits, isAsciiDigit c = true then
      some (Flt.fin (digits.foldl (fun n c => 10 * n + (c - 48)) 0 : Nat)) else none) = _
  rw [wholePart_repr]
  dsimp only
  rw [if_pos ⟨intStr_ne_nil n, hdigits⟩, foldl_intStr]

theorem lawful_asciiWhole : @LawfulTables Tables.asciiWhole := by
  let _ := Tables.asciiWhole
  refine ⟨?_, ?_, ?_, fun n _ => readsBack_whole n⟩
  · intro s h
    show s.map _ = s
    conv_rhs => rw [← List.map_id s]
    apply List.map_congr_left
    intro c hc
    have hlower := h c hc
    simp [isLower] at hlower
    exact if_neg (by omega)
  · intro c hc
    exact if_pos hc
  · intro text x hx
    have hx : (if wholePart text ≠ [] ∧ ∀ c ∈ wholePart text, isAsciiDigit c = true then
        some (Flt.fin ((wholePart text).foldl (fun n c => 10 * n + (c - 48)) 0 : Nat)) else none) =
        some x := hx
    split at hx
    · cases hx
      exact readsBack_whole _
    · cases hx

end WebZapret.Py
