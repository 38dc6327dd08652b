import WebZapret.Lib.Py.Json
import WebZapret.Lib.Py.Runs

/-!
# Reading decimals

`int(s)` of a run of decimal digits, of whatever script, with blanks around it (`parseInt_padded`). The
four separators of ASCII are not among the blanks that it passes over: a text with one of them is no
number (`parseInt_separator`).
-/

namespace WebZapret.Py

/-- What Python documents of the decimal digits. -/
class DecimalTables [Tables] : Prop where
  decimal_digit : ∀ c, isAsciiDigit c = true → Tables.decimal c = some (c - 48)
  /-- the only ones in ASCII -/
  decimal_ascii : ∀ c d, Tables.decimal c = some d → c < 128 → isAsciiDigit c = true
  decimal_lt : ∀ c d, Tables.decimal c = some d → d < 10
  decimal_space : ∀ c d, Tables.decimal c = some d → isSpace c = false

theorem decimalTables_ascii : @DecimalTables Tables.ascii := by
  let _ := Tables.ascii
  have hinv : ∀ c d, Tables.decimal c = some d → isAsciiDigit c = true ∧ d = c - 48 := by
    intro c d h
    change (if isAsciiDigit c then some (c - 48) else none) = some d at h
    split at h
    · cases h
      exact ⟨by assumption, rfl⟩
    · cases h
  refine ⟨?_, ?_, ?_, ?_⟩
  · intro c hc
    change (if isAsciiDigit c then some (c - 48) else none) = some (c - 48)
    rw [if_pos hc]
  · intro c d h _
    exact (hinv c d h).1
  · intro c d h
    obtain ⟨hdigit, rfl⟩ := hinv c d h
    simp [isAsciiDigit] at hdigit
    omega
  · intro c d h
    have hdigit := (hinv c d h).1
    simp [isAsciiDigit] at hdigit
    simp [isSpace]
    omega

namespace Str

/-- What is stripped is around what is left. -/
theorem exists_padding (p : Nat → Bool) (s : Str) :
    ∃ pre post, s = pre ++ s.stripBy p ++ post ∧ (∀ c ∈ pre, p c = true) ∧
      ∀ c ∈ post, p c = true := by
  refine ⟨s.takeWhile p, (s.dropWhile p).rtakeWhile p, ?_, ?_, ?_⟩
  · rw [stripBy_eq, List.append_assoc, List.rdropWhile_append_rtakeWhile,
      List.takeWhile_append_dropWhile]
  · intro c hc
    exact List.mem_takeWhile_imp hc
  · intro c hc
    exact List.mem_rtakeWhile_imp hc

end Str

namespace Json

variable [Tables]

/-- A decimal digit of some script. -/
def IsDecimal (c : Nat) : Prop := (Tables.decimal c).isSome = true

/-- The number that decimal digits write. -/
def decimalValue (acc : Nat) (ds : Str) : Nat :=
  ds.foldl (fun n c => 10 * n + (Tables.decimal c).getD 0) acc

variable [DecimalTables]

/-- No sign, colon or other character of ASCII is a decimal digit, apart from the ten. -/
theorem IsDecimal.ne {c k : Nat} (h : IsDecimal c) (hk : k < 128) (hk' : isAsciiDigit k = false) :
    c ≠ k := by
  intro heq
  obtain ⟨d, hd⟩ := Option.isSome_iff_exists.mp h
  have hdigit := DecimalTables.decimal_ascii c d hd (heq ▸ hk)
  rw [heq, hk'] at hdigit
  cases hdigit

theorem IsDecimal.not_space {c : Nat} (h : IsDecimal c) : isSpace c = false := by
  obtain ⟨d, hd⟩ := Option.isSome_iff_exists.mp h
  exact DecimalTables.decimal_space c d hd

theorem IsDecimal.value_lt {c : Nat} (h : IsDecimal c) : (Tables.decimal c).getD 0 < 10 := by
  obtain ⟨d, hd⟩ := Option.isSome_iff_exists.mp h
  rw [hd]
  exact DecimalTables.decimal_lt c d hd

theorem isDecimal_digit {c : Nat} (h : isAsciiDigit c = true) : IsDecimal c := by
  rw [IsDecimal, DecimalTables.decimal_digit c h]
  rfl

theorem digitsFrom_decimals {ds : Str} (h : ∀ c ∈ ds, IsDecimal c) (acc : Nat) :
    digitsFrom acc ds = some (decimalValue acc ds) := by
  induction ds generalizing acc with
  | nil => rfl
  | cons c ds ih =>
    have hc := h c List.mem_cons_self
    have hscore : c ≠ 95 := hc.ne (by decide) rfl
    obtain ⟨d, hd⟩ := Option.isSome_iff_exists.mp hc
    have hrest := ih (fun e he => h e (List.mem_cons_of_mem c he)) (10 * acc + d)
    have hvalue : decimalValue acc (c :: ds) = decimalValue (10 * acc + d) ds := by
      rw [decimalValue, List.foldl_cons, hd]
      rfl
    rw [hvalue, ← hrest]
    cases ds with
    | nil => simp [digitsFrom, hd]
    | cons e ds => simp [digitsFrom, hd, hscore]

/-- **`int` of decimal digits between blanks.** -/
theorem parseInt_padded {ds pre post : Str} (hne : ds ≠ []) (hds : ∀ c ∈ ds, IsDecimal c)
    (hlength : ds.length ≤ 4300) (hpre : ∀ c ∈ pre, isNumberSpace c = true)
    (hpost : ∀ c ∈ post, isNumberSpace c = true) :
    parseInt (pre ++ (ds ++ post)) = some (decimalValue 0 ds : Int) := by
  have hstrip : (pre ++ (ds ++ post)).stripBy isNumberSpace = ds := by
    apply Str.stripBy_padded _ _ hpre hpost
    · intro c hc
      exact Str.not_isNumberSpace (hds c (List.mem_of_mem_head? hc)).not_space
    · intro c hc
      exact Str.not_isNumberSpace (hds c (List.mem_of_getLast? hc)).not_space
  have hvalue := digitsFrom_decimals hds 0
  have hcount : ¬4300 < (ds.filter (· ≠ 95)).length := by
    have := List.length_filter_le (· ≠ 95) ds
    omega
  rw [parseInt, hstrip]
  cases ds with
  | nil => exact absurd rfl hne
  | cons c ds =>
    have hc := hds c List.mem_cons_self
    have hplus : c ≠ 43 := hc.ne (by decide) rfl
    have hminus : c ≠ 45 := hc.ne (by decide) rfl
    have hscore : c ≠ 95 := hc.ne (by decide) rfl
    have hno : ¬(((c :: ds).head?.all (· = 95)) = true ∨
        4300 < ((c :: ds).filter (· ≠ 95)).length) := by
      rw [not_or]
      refine ⟨?_, hcount⟩
      simp [hscore]
    split
    · rename_i heq
      exact absurd (List.cons.inj heq).1 hplus
    · rename_i heq
      exact absurd (List.cons.inj heq).1 hminus
    · dsimp only
      rw [if_neg hno, hvalue]
      rfl

omit [DecimalTables] in
theorem digitsFrom_chars {s : Str} {acc n : Nat} (h : digitsFrom acc s = some n) :
    ∀ c ∈ s, c = 95 ∨ IsDecimal c := by
  have hdecimal {c : Nat} {o : Option Nat} (ho : Tables.decimal c = o) {d : Nat} (hd : o = some d) :
      IsDecimal c := by
    rw [IsDecimal, ho, hd]
    rfl
  fun_induction digitsFrom acc s with
  | case1 => exact List.forall_mem_nil _
  | case2 acc c =>
    obtain ⟨d, hd, -⟩ := Option.map_eq_some_iff.mp h
    exact List.forall_mem_singleton.mpr (.inr (hdecimal rfl hd))
  | case3 acc c s ih =>
    obtain ⟨d, hd, h⟩ := Option.bind_eq_some_iff.mp h
    rw [List.forall_mem_cons, List.forall_mem_cons]
    exact ⟨.inl rfl, .inr (hdecimal rfl hd), ih d h⟩
  | case4 acc c s _ _ ih =>
    obtain ⟨d, hd, h⟩ := Option.bind_eq_some_iff.mp h
    exact List.forall_mem_cons.mpr ⟨.inr (hdecimal rfl hd), ih d h⟩

/-- **A separator is never part of a number.** -/
theorem parseInt_separator {s : Str} {c : Nat} (hc : c ∈ s) (hsep : isSeparator c = true) :
    parseInt s = none := by
  have hrange : 28 ≤ c ∧ c ≤ 31 := by simpa [isSeparator] using hsep
  have hleft : c ∈ s.stripBy isNumberSpace :=
    Str.mem_stripBy hc (by rw [isNumberSpace, hsep, Bool.not_true, Bool.and_false])
  have hno {t : Str} (ht : c ∈ t) : digitsFrom 0 t = none := by
    by_contra hsome
    obtain ⟨n, hn⟩ := Option.ne_none_iff_exists'.mp hsome
    rcases digitsFrom_chars hn c ht with hscore | hdecimal
    · omega
    · have hdigit : isAsciiDigit c = false := by
        simp [isAsciiDigit]
        omega
      exact hdecimal.ne (by omega) hdigit rfl
  have htail {sign : Nat} {t : Str} (hsign : sign = 43 ∨ sign = 45)
      (hs : s.stripBy isNumberSpace = sign :: t) : c ∈ t := by
    rw [hs] at hleft
    exact (List.mem_cons.mp hleft).resolve_left (by omega)
  unfold parseInt
  split
  · rename_i t ht
    simp [hno (htail (.inl rfl) ht)]
  · rename_i t ht
    simp [hno (htail (.inr rfl) ht)]
  · simp [hno hleft]

end Json

end WebZapret.Py
