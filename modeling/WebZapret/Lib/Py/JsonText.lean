import Mathlib.Data.List.Chain
import WebZapret.Lib.Py.Dumps
import WebZapret.Lib.Py.Loads
import WebZapret.Lib.Py.ReadBack

/-!
# Reading a JSON text that was printed

What `dumps` prints of a value, `raw_decode` takes from the front of a text, and gives the value back
with whatever follows (`value_value`). Three things are lost in print, and are what `Style.Keeps` asks
for: an integer that is longer than `int` reads, a float whose text is read as another one, and in an
ASCII text two characters that are surrogates of a pair, which are read as one character.

A number is the longest one at its place, so what follows it must not go on with it (`Follow`). The
other values end with their last character.
-/

namespace WebZapret.Py

open Scan

/-! ## Strings -/

theorem hexValue_hexDigit {n : Nat} (h : n < 16) : hexValue (Json.hexDigit n) = some n := by
  unfold hexValue Json.hexDigit
  by_cases hn : n < 10
  · rw [if_pos hn, if_pos (by omega)]
    exact congrArg some (by omega)
  · rw [if_neg hn, if_neg (by omega), if_pos (by omega)]
    exact congrArg some (by omega)

/-- The four digits of a code unit are read back. -/
theorem hexUnit_hex {n : Nat} (h : n < 65536) :
    ∃ a b c d, Json.hex 4 n = [a, b, c, d] ∧ hexUnit a b c d = some n := by
  refine ⟨Json.hexDigit (n / 16 / 16 / 16 % 16), Json.hexDigit (n / 16 / 16 % 16),
    Json.hexDigit (n / 16 % 16), Json.hexDigit (n % 16), rfl, ?_⟩
  have hdigit (m : Nat) : hexValue (Json.hexDigit (m % 16)) = some (m % 16) :=
    hexValue_hexDigit (Nat.mod_lt m (by decide))
  unfold hexUnit
  rw [hdigit, hdigit, hdigit, hdigit]
  exact congrArg some (by omega)

/-- The character after a backslash names the character again. -/
theorem shortValue_shortEscape {c e : Nat} (h : Style.shortEscape c = some e) :
    shortValue e = some c ∧ e ≠ 117 := by
  unfold Style.shortEscape at h
  repeat' split at h
  all_goals
    cases h
    try subst c
    try exact ⟨rfl, by decide⟩

/-- No high surrogate is next to a low one. -/
abbrev Unpaired (s : Str) : Prop := s.IsChain fun a b => ¬(IsHigh a ∧ IsLow b)

/-- A text comes back from a string that is printed in the style. -/
def Style.KeepsText (style : Style) (s : Str) : Prop :=
  style.ascii = true → (∀ c ∈ s, c < 1114112) ∧ Unpaired s

section

variable {high : Option Nat} {s rest : Str}

theorem string_close : string high (34 :: rest) = some (high.toList, rest) := by simp [string]

/-- A character that stands for itself. -/
theorem string_plain {c : Nat} (hc : 32 ≤ c) (hquote : c ≠ 34) (hslash : c ≠ 92) :
    string high (c :: s) = (string none s).map fun (t, rest) => (high.toList ++ c :: t, rest) := by
  rw [string.eq_5]
  · exact if_neg (by omega)
  · exact hquote
  · rintro a b c' d t rfl - 
    exact hslash rfl
  · rintro e t rfl -
    exact hslash rfl

/-- A character that has an escape of its own. -/
theorem string_short {c e : Nat} (h : shortValue e = some c) (hu : e ≠ 117) :
    string high (92 :: e :: s) =
      (string none s).map fun (t, rest) => (high.toList ++ c :: t, rest) := by
  rw [string.eq_4, h]
  rintro a b c' d t rfl
  exact absurd rfl hu

/-- A code unit that is no surrogate. -/
theorem string_unit {n : Nat} (hn : n < 65536) (hhigh : ¬IsHigh n) (hlow : ¬IsLow n) :
    string high (Style.unitEscape n ++ s) =
      (string none s).map fun (t, rest) => (high.toList ++ n :: t, rest) := by
  obtain ⟨a, b, c, d, hhex, hunit⟩ := hexUnit_hex hn
  rw [Style.unitEscape, hhex]
  show string high (92 :: 117 :: a :: b :: c :: d :: s) = _
  rw [string, hunit]
  cases high <;> simp [hhigh, hlow]

/-- A high surrogate waits for what is next. -/
theorem string_high {n : Nat} (hn : IsHigh n) :
    string high (Style.unitEscape n ++ s) =
      (string (some n) s).map fun (t, rest) => (high.toList ++ t, rest) := by
  obtain ⟨a, b, c, d, hhex, hunit⟩ := hexUnit_hex (n := n) (by unfold IsHigh at hn; omega)
  rw [Style.unitEscape, hhex]
  show string high (92 :: 117 :: a :: b :: c :: d :: s) = _
  have hlow : ¬IsLow n := by
    unfold IsHigh at hn
    unfold IsLow
    omega
  rw [string, hunit]
  cases high <;> simp [hn, hlow]

/-- A low surrogate completes a high one. -/
theorem string_low {h n : Nat} (hn : IsLow n) :
    string (some h) (Style.unitEscape n ++ s) =
      (string none s).map fun (t, rest) => (joinUnits h n :: t, rest) := by
  obtain ⟨a, b, c, d, hhex, hunit⟩ := hexUnit_hex (n := n) (by unfold IsLow at hn; omega)
  rw [Style.unitEscape, hhex]
  show string (some h) (92 :: 117 :: a :: b :: c :: d :: s) = _
  rw [string, hunit]
  simp [hn]

/-- A low surrogate that no high one is before. -/
theorem string_loneLow {n : Nat} (hn : IsLow n) :
    string none (Style.unitEscape n ++ s) =
      (string none s).map fun (t, rest) => (n :: t, rest) := by
  obtain ⟨a, b, c, d, hhex, hunit⟩ := hexUnit_hex (n := n) (by unfold IsLow at hn; omega)
  rw [Style.unitEscape, hhex]
  show string none (92 :: 117 :: a :: b :: c :: d :: s) = _
  have hhigh : ¬IsHigh n := by
    unfold IsLow at hn
    unfold IsHigh
    omega
  rw [string, hunit]
  simp [hhigh]

/-- **A printed string is read back.** A high surrogate that waits is put before it. -/
theorem string_escape {style : Style} (hhigh : ∀ h ∈ high, IsHigh h)
    (h : style.ascii = true → (∀ c ∈ s, c < 1114112) ∧ Unpaired (high.toList ++ s)) :
    string high (s.flatMap style.escape ++ 34 :: rest) = some (high.toList ++ s, rest) := by
  induction s generalizing high with
  | nil => simp [string_close]
  | cons c s ih =>
    have hlt : style.ascii = true → ∀ d ∈ s, d < 1114112 :=
      fun hascii d hd => (h hascii).1 d (List.mem_cons_of_mem _ hd)
    have hchain : style.ascii = true → Unpaired (c :: s) :=
      fun hascii => (List.isChain_append.mp (h hascii).2).2.1
    have hnone : string none (s.flatMap style.escape ++ 34 :: rest) = some (s, rest) :=
      ih nofun fun hascii => ⟨hlt hascii, (hchain hascii).tail⟩
    rw [List.flatMap_cons, List.append_assoc, Style.escape]
    split
    · rename_i e he
      obtain ⟨hvalue, hu⟩ := shortValue_shortEscape he
      show string high (92 :: e :: (s.flatMap style.escape ++ 34 :: rest)) = _
      rw [string_short hvalue hu, hnone]
      rfl
    rename_i hshort
    split
    · rename_i hescaped
      split
      · by_cases hc : IsHigh c
        · -- it waits for the rest of the text, which does not begin with a low one
          have hwait : string (some c) (s.flatMap style.escape ++ 34 :: rest) = some (c :: s, rest) :=
            ih (by simpa using hc) fun hascii => ⟨hlt hascii, hchain hascii⟩
          rw [string_high hc, hwait]
          rfl
        by_cases hlow : IsLow c
        · -- none is before it
          obtain rfl : high = none := by
            cases high with
            | none => rfl
            | some k =>
              have hascii : style.ascii = true := by
                unfold IsLow at hlow
                exact (hescaped.resolve_left (by omega)).1
              have hpair := List.isChain_cons_cons.mp (h hascii).2
              exact absurd ⟨hhigh k rfl, hlow⟩ hpair.1
          rw [string_loneLow hlow, hnone]
          rfl
        · rw [string_unit ‹_› hc hlow, hnone]
          rfl
      · have hbound : c < 1114112 :=
          (h (hescaped.resolve_left (by omega)).1).1 c List.mem_cons_self
        have hfirst : IsHigh (55296 + (c - 65536) / 1024) := by
          unfold IsHigh
          omega
        have hsecond : IsLow (56320 + (c - 65536) % 1024) := by
          unfold IsLow
          omega
        have hjoin : joinUnits (55296 + (c - 65536) / 1024) (56320 + (c - 65536) % 1024) = c := by
          unfold joinUnits
          omega
        rw [List.append_assoc, string_high hfirst, string_low hsecond, hnone, hjoin]
        rfl
    · obtain ⟨hquote, hslash⟩ : c ≠ 34 ∧ c ≠ 92 := by
        constructor <;>
          rintro rfl <;>
          cases hshort
      show string high (c :: (s.flatMap style.escape ++ 34 :: rest)) = _
      rw [string_plain (by omega) hquote hslash, hnone]
      rfl

end

/-! ## Numbers -/

namespace Scan

/-- What follows a number does not go on with it. -/
def Follow (rest : Str) : Prop :=
  ∀ c ∈ rest.head?, isAsciiDigit c = false ∧ c ≠ 46 ∧ c ≠ 101 ∧ c ≠ 69

section

variable {s rest : Str}

theorem takeWhile_append_follow {p : Nat → Bool} (h : ∀ c ∈ rest.head?, p c = false) :
    (s ++ rest).takeWhile p = s.takeWhile p := by
  induction s with
  | nil =>
    cases rest with
    | nil => rfl
    | cons c rest => exact List.takeWhile_cons_of_neg (by simpa using h c rfl)
  | cons c s ih =>
    rw [List.cons_append, List.takeWhile_cons, List.takeWhile_cons, ih]

theorem dropWhile_append_follow {p : Nat → Bool} (h : ∀ c ∈ rest.head?, p c = false) :
    (s ++ rest).dropWhile p = s.dropWhile p ++ rest := by
  have hone := List.takeWhile_append_dropWhile (p := p) (l := s)
  have hboth := List.takeWhile_append_dropWhile (p := p) (l := s ++ rest)
  rw [takeWhile_append_follow h] at hboth
  refine List.append_cancel_left (?_ : s.takeWhile p ++ _ = s.takeWhile p ++ _)
  rw [hboth, ← List.append_assoc, hone]

theorem Follow.digit (h : Follow rest) : ∀ c ∈ rest.head?, isAsciiDigit c = false :=
  fun c hc => (h c hc).1

theorem minus_append (hs : s ≠ []) : minus (s ++ rest) = ((minus s).1, (minus s).2 ++ rest) := by
  obtain ⟨c, s, rfl⟩ := List.exists_cons_of_ne_nil hs
  rw [List.cons_append, minus, minus]
  split_ifs <;> rfl

theorem sign_append (hs : s ≠ []) : sign (s ++ rest) = ((sign s).1, (sign s).2 ++ rest) := by
  obtain ⟨c, s, rfl⟩ := List.exists_cons_of_ne_nil hs
  rw [List.cons_append, sign, sign]
  split_ifs <;> rfl

theorem whole_append (h : ∀ c ∈ rest.head?, isAsciiDigit c = false) {digits t : Str}
    (hs : whole s = some (digits, t)) : whole (s ++ rest) = some (digits, t ++ rest) := by
  cases s with
  | nil => cases hs
  | cons c s =>
    rw [whole] at hs
    rw [List.cons_append, whole, takeWhile_append_follow h, dropWhile_append_follow h]
    split_ifs at hs ⊢ <;>
      obtain ⟨rfl, rfl⟩ := Prod.mk.inj (Option.some.inj hs) <;>
      rfl

/-- What does not begin with a point has no fraction. -/
theorem fraction_of_ne (h : ∀ c ∈ s.head?, c ≠ 46) : fraction s = ([], s) := by
  rw [fraction]
  intro t ht
  subst ht
  exact h 46 rfl rfl

theorem fraction_append (h : ∀ c ∈ rest.head?, isAsciiDigit c = false ∧ c ≠ 46) :
    fraction (s ++ rest) = ((fraction s).1, (fraction s).2 ++ rest) := by
  cases s with
  | nil =>
    rw [List.nil_append, fraction_of_ne fun c hc => (h c hc).2]
    rfl
  | cons c s =>
    by_cases hc : c = 46
    · subst hc
      have hdigit : ∀ c ∈ rest.head?, isAsciiDigit c = false := fun c hc => (h c hc).1
      rw [List.cons_append, fraction, fraction, takeWhile_append_follow hdigit,
        dropWhile_append_follow hdigit]
      split_ifs <;> rfl
    · have hhead (t : Str) : ∀ d ∈ (c :: t).head?, d ≠ 46 := fun d hd => Option.some.inj hd ▸ hc
      rw [List.cons_append, fraction_of_ne (hhead _), fraction_of_ne (hhead _)]
      rfl

/-- An exponent that is the rest of its text. -/
theorem exponent_append (h : Follow rest) (hs : (exponent s).2 = []) :
    exponent (s ++ rest) = ((exponent s).1, rest) := by
  cases s with
  | nil =>
    cases rest with
    | nil => rfl
    | cons c rest =>
      obtain ⟨-, -, hlower, hupper⟩ := h c rfl
      show exponent (c :: rest) = ([], c :: rest)
      rw [exponent, if_neg fun hc => hc.1.elim hlower hupper]
  | cons c s =>
    rw [exponent] at hs ⊢
    split_ifs at hs with hc
    have hne : s ≠ [] := by
      rintro rfl
      exact hc.2 rfl
    rw [List.cons_append, exponent, sign_append hne]
    dsimp only
    rw [takeWhile_append_follow h.digit, dropWhile_append_follow h.digit, if_pos hc, if_pos hc]
    exact congrArg (Prod.mk _) (congrArg (· ++ rest) hs)

theorem numeral_append (h : Follow rest) {digits tail : Str} (hs : numeral s = some (digits, tail, [])) :
    numeral (s ++ rest) = some (digits, tail, rest) := by
  have hne : s ≠ [] := by
    rintro rfl
    cases hs
  unfold numeral at hs ⊢
  rw [minus_append hne]
  cases hwhole : whole (minus s).2 with
  | none =>
    rw [hwhole] at hs
    cases hs
  | some d =>
    obtain ⟨whole, t⟩ := d
    rw [hwhole] at hs
    obtain ⟨hdigits, htail, hend⟩ : _ ∧ _ ∧ _ := by simpa using hs
    dsimp only
    rw [whole_append h.digit hwhole]
    dsimp only
    rw [fraction_append fun c hc => ⟨(h c hc).1, (h c hc).2.1⟩]
    dsimp only
    rw [exponent_append h hend, hdigits, htail]

variable [Tables]

/-- **A number goes as far as it can.** What the scanner takes whole, it takes from the front of a text
that does not go on with it. -/
theorem number_append (h : Follow rest) {x : Json} (hs : number s = some (x, [])) :
    number (s ++ rest) = some (x, rest) := by
  unfold number at hs ⊢
  cases hnumeral : numeral s with
  | none =>
    rw [hnumeral] at hs
    cases hs
  | some d =>
    obtain ⟨digits, tail, t⟩ := d
    rw [hnumeral] at hs
    obtain ⟨hvalue, rfl⟩ : _ ∧ _ := by simpa using hs
    rw [numeral_append h hnumeral]
    simp [hvalue]

end

/-! ## Integers -/

/-- Only zero begins with one. -/
theorem head_intStr {n : Nat} (hn : n ≠ 0) : (intStr n).head? ≠ some 48 := by
  induction n using Nat.strongRecOn with
  | ind n ih =>
    rw [intStr_natCast]
    rcases Nat.lt_or_ge n 10 with hlt | hge
    · rw [Nat.toDigits_of_lt_base hlt]
      have hdigit : ∀ d < 10, d ≠ 0 → (Nat.digitChar d).toNat ≠ 48 := by decide
      exact fun heq => hdigit n hlt hn (Option.some.inj heq)
    · have hhead : ((Nat.toDigits 10 (n / 10)).map Char.toNat).head? ≠ some 48 := by
        rw [← intStr_natCast]
        exact ih (n / 10) (by omega) (by omega)
      rw [Nat.toDigits_of_base_le (by decide) hge, List.map_append]
      cases hfirst : (Nat.toDigits 10 (n / 10)).map Char.toNat with
      | nil => exact absurd (List.map_eq_nil_iff.mp hfirst) Nat.toDigits_ne_nil
      | cons c t => rwa [hfirst] at hhead

/-- The text of a natural number is one whole part. -/
theorem whole_intStr (n : Nat) : whole (intStr n) = some (intStr n, []) := by
  by_cases hn : n = 0
  · subst hn
    rfl
  cases hs : intStr n with
  | nil => exact absurd hs (intStr_ne_nil n)
  | cons c s =>
    have hdigits : ∀ d ∈ c :: s, isAsciiDigit d = true :=
      hs ▸ fun _ => isAsciiDigit_of_mem_intStr
    have hzero : c ≠ 48 := by
      rintro rfl
      exact head_intStr hn (by rw [hs]; rfl)
    have htail : ∀ d ∈ s, isAsciiDigit d = true := fun d hd => hdigits d (List.mem_cons_of_mem _ hd)
    rw [whole, if_neg hzero, if_pos (hdigits c List.mem_cons_self), List.takeWhile_eq_self_iff.mpr htail,
      List.dropWhile_eq_nil_iff.mpr htail]

theorem minus_intStr (n : Nat) : minus (intStr n) = ([], intStr n) := by
  obtain ⟨c, s, hs⟩ := List.exists_cons_of_ne_nil (intStr_ne_nil n)
  have hc : isAsciiDigit c = true := isAsciiDigit_of_mem_intStr (n := n) (by simp [hs])
  rw [hs, minus, if_neg]
  rintro rfl
  cases hc

/-- The text of an integer has a sign if the integer is negative. -/
theorem intStr_negSucc (n : Nat) : intStr (Int.negSucc n) = 45 :: intStr (n + 1 : Nat) := by
  have hsign : toString (Int.negSucc n) = "-" ++ toString (n + 1) := rfl
  unfold intStr lit
  rw [hsign, String.toList_append]
  rfl

/-- An integer is a numeral without fraction and exponent. -/
theorem numeral_intStr (i : Int) : numeral (intStr i) = some (intStr i, [], []) := by
  unfold numeral
  cases i with
  | ofNat n =>
    rw [Int.ofNat_eq_natCast, minus_intStr]
    dsimp only
    rw [whole_intStr]
    rfl
  | negSucc n =>
    have hminus : minus (intStr (Int.negSucc n)) = ([45], intStr (n + 1 : Nat)) := by
      rw [intStr_negSucc]
      rfl
    rw [hminus]
    dsimp only
    rw [whole_intStr, intStr_negSucc]
    rfl

/-- `sys.get_int_max_str_digits()` -/
def maxDigits : Nat := 4300

/-- The text of the integer is not longer than `int` reads and `str` prints. -/
def ShortInt (i : Int) : Prop := (intStr i.natAbs).length ≤ maxDigits

instance (i : Int) : Decidable (ShortInt i) := inferInstanceAs (Decidable (_ ≤ _))

theorem shortInt_iff {i : Int} : ShortInt i ↔ i.natAbs < 10 ^ maxDigits := by
  unfold ShortInt
  rw [intStr_natCast, List.length_map]
  exact Nat.length_toDigits_le_iff (by decide) (by decide)

variable [Tables]

/-- Digits with a minus before them. -/
theorem parseInt_minus {s : Str} (hne : s ≠ []) (hs : ∀ c ∈ s, isAsciiDigit c = true) :
    Json.parseInt (45 :: s) = (Json.parseInt s).map (- ·) := by
  have hspace : ∀ c ∈ 45 :: s, isSpace c = false := by
    rw [List.forall_mem_cons]
    exact ⟨by decide, fun c hc => isSpace_of_isAsciiDigit (hs c hc)⟩
  unfold Json.parseInt
  rw [Str.stripBy_numberSpace hspace,
    Str.stripBy_numberSpace fun c hc => hspace c (List.mem_cons_of_mem _ hc)]
  obtain ⟨c, t, rfl⟩ := List.exists_cons_of_ne_nil hne
  have hc := hs c List.mem_cons_self
  have hplus : c ≠ 43 := by
    rintro rfl
    cases hc
  have hminus : c ≠ 45 := by
    rintro rfl
    cases hc
  simp [hplus, hminus]

/-- An integer that is not too long for `int` is read back. -/
theorem number_intStr [LawfulTables] {i : Int} (hshort : ShortInt i) :
    number (intStr i) = some (.int i, []) := by
  have h := shortInt_iff.mp hshort
  have hvalue : Json.parseInt (intStr i) = some i := by
    cases i with
    | ofNat n => exact Json.parseInt_intStr (k := maxDigits) (by decide) (le_refl _) h
    | negSucc n =>
      rw [intStr_negSucc, parseInt_minus (intStr_ne_nil _) fun _ => isAsciiDigit_of_mem_intStr,
        Json.parseInt_intStr (n := n + 1) (k := maxDigits) (by decide) (le_refl _) h]
      rfl
  unfold number
  rw [numeral_intStr]
  simp [numberValue, hvalue]

end Scan

end WebZapret.Py
