import WebZapret.Lib.Py.Encodable

/-!
# Bytes and texts

Decoding UTF-8, strictly or with replacement characters, encoding it, Base64, and the lines of a text.

`decode` replaces every maximal part of a sequence that cannot be completed by one U+FFFD, and goes on
with the octet that broke it. What it gives has no surrogates (`encodableText_decode`).
-/

namespace WebZapret.Py

namespace Utf8

/-! ## Decoding -/

/-- A sequence that has begun: its bits so far, how many octets follow, and the range of the next one. -/
structure Pending where
  bits : Nat
  owed : Nat
  lo : Nat
  hi : Nat

/-- What the first octet of a sequence is: a whole character, or the beginning of a longer one. -/
def lead (b : Nat) : Nat ⊕ Pending :=
  if b < 128 then .inl b
  else if b < 194 then .inl 65533
  else if b < 224 then .inr ⟨b - 192, 1, 128, 191⟩
  else if b = 224 then .inr ⟨0, 2, 160, 191⟩
  else if b = 237 then .inr ⟨13, 2, 128, 159⟩
  else if b < 240 then .inr ⟨b - 224, 2, 128, 191⟩
  else if b = 240 then .inr ⟨0, 3, 144, 191⟩
  else if b < 244 then .inr ⟨b - 240, 3, 128, 191⟩
  else if b = 244 then .inr ⟨4, 3, 128, 143⟩
  else .inl 65533

/-- The bits after one more octet. -/
def Pending.join (p : Pending) (b : Nat) : Nat := p.bits * 64 + (b - 128)

def decodeFrom : Option Pending → List Nat → Str
  | none, [] => []
  | some _, [] => [65533]
  | none, b :: bytes =>
    match lead b with
    | .inl c => c :: decodeFrom none bytes
    | .inr p => decodeFrom (some p) bytes
  | some p, b :: bytes =>
    if p.lo ≤ b ∧ b ≤ p.hi then
      if p.owed ≤ 1 then p.join b :: decodeFrom none bytes
      else decodeFrom (some ⟨p.join b, p.owed - 1, 128, 191⟩) bytes
    else
      -- the octet is no part of the sequence, and may begin another one
      65533 :: match lead b with
        | .inl c => c :: decodeFrom none bytes
        | .inr p => decodeFrom (some p) bytes

/-- `bytes.decode("utf-8", "replace")` -/
def decode (bytes : List Nat) : Str := decodeFrom none bytes

def decodeStrictFrom : Option Pending → List Nat → Option Str
  | none, [] => some []
  | some _, [] => none
  | none, b :: bytes =>
    match lead b with
    | .inl c => if b < 128 then (decodeStrictFrom none bytes).map (c :: ·) else none
    | .inr p => decodeStrictFrom (some p) bytes
  | some p, b :: bytes =>
    if p.lo ≤ b ∧ b ≤ p.hi then
      if p.owed ≤ 1 then (decodeStrictFrom none bytes).map (p.join b :: ·)
      else decodeStrictFrom (some ⟨p.join b, p.owed - 1, 128, 191⟩) bytes
    else none

/-- `bytes.decode("utf-8")`, or none where it raises -/
def decodeStrict (bytes : List Nat) : Option Str := decodeStrictFrom none bytes

/-- No completion of the sequence is a surrogate. -/
structure Pending.Sound (p : Pending) : Prop where
  lo : 128 ≤ p.lo
  owed : p.owed ≤ 3
  one : p.owed ≤ 1 → p.join p.hi < 55296 ∨ 57343 < p.join p.lo
  two : p.owed = 2 → p.join p.hi * 64 + 63 < 55296 ∨ 57343 < p.join p.lo * 64
  three : p.owed = 3 → 57343 < p.join p.lo * 4096

theorem lead_char {b c : Nat} (h : lead b = .inl c) : ¬(55296 ≤ c ∧ c ≤ 57343) := by
  unfold lead at h
  split_ifs at h
  all_goals
    first
    | exact absurd h Sum.inr_ne_inl
    | have hc := Sum.inl.inj h
      omega

theorem lead_sound {b : Nat} {p : Pending} (h : lead b = .inr p) : p.Sound := by
  unfold lead at h
  split_ifs at h
  all_goals
    first
    | exact absurd h Sum.inl_ne_inr
    | obtain rfl := Sum.inr.inj h
      constructor <;> dsimp only [Pending.join] <;> omega

theorem Pending.Sound.last {p : Pending} (h : p.Sound) {b : Nat} (hlo : p.lo ≤ b) (hhi : b ≤ p.hi)
    (howed : p.owed ≤ 1) : ¬(55296 ≤ p.join b ∧ p.join b ≤ 57343) := by
  have hone := h.one howed
  have h128 := h.lo
  unfold Pending.join at hone ⊢
  omega

theorem Pending.Sound.next {p : Pending} (h : p.Sound) {b : Nat} (hlo : p.lo ≤ b) (hhi : b ≤ p.hi)
    (howed : ¬p.owed ≤ 1) : Pending.Sound ⟨p.join b, p.owed - 1, 128, 191⟩ := by
  obtain ⟨h128, hmost, hone, htwo, hthree⟩ := h
  unfold Pending.join at hone htwo hthree
  constructor <;> dsimp only [Pending.join] <;> omega

theorem encodableText_cons {c : Nat} {s : Str} :
    EncodableText (c :: s) ↔ ¬(55296 ≤ c ∧ c ≤ 57343) ∧ EncodableText s := List.forall_mem_cons

/-- The replacement character is no surrogate. -/
theorem encodableText_replaced {s : Str} (h : EncodableText s) : EncodableText (65533 :: s) :=
  encodableText_cons.mpr ⟨by omega, h⟩

theorem encodableText_decodeFrom {state : Option Pending} (h : ∀ p ∈ state, p.Sound)
    (bytes : List Nat) : EncodableText (decodeFrom state bytes) := by
  have hnone : ∀ p ∈ (none : Option Pending), p.Sound := by simp
  induction bytes generalizing state with
  | nil =>
    cases state with
    | none => exact encodableText_nil
    | some p => exact encodableText_replaced encodableText_nil
  | cons b bytes ih =>
    have hfirst : EncodableText (match lead b with
        | .inl c => c :: decodeFrom none bytes
        | .inr p => decodeFrom (some p) bytes) := by
      split
      · rename_i c hc
        exact encodableText_cons.mpr ⟨lead_char hc, ih hnone⟩
      · rename_i p hp
        exact ih (by simpa using lead_sound hp)
    cases state with
    | none => exact hfirst
    | some p =>
      have hsound := h p rfl
      rw [decodeFrom]
      split
      · rename_i hrange
        split
        · rename_i howed
          exact encodableText_cons.mpr ⟨hsound.last hrange.1 hrange.2 howed, ih hnone⟩
        · rename_i howed
          exact ih (by simpa using hsound.next hrange.1 hrange.2 howed)
      · exact encodableText_replaced hfirst

/-- A decoded text can be encoded. -/
theorem encodableText_decode (bytes : List Nat) : EncodableText (decode bytes) :=
  encodableText_decodeFrom (by simp) bytes

/-! ## Encoding -/

/-- The octets of a character. -/
def octets (c : Nat) : List Nat :=
  if c < 128 then [c]
  else if c < 2048 then [192 + c / 64, 128 + c % 64]
  else if c < 65536 then [224 + c / 4096, 128 + c / 64 % 64, 128 + c % 64]
  else [240 + c / 262144, 128 + c / 4096 % 64, 128 + c / 64 % 64, 128 + c % 64]

/-- The exception of `s.encode("utf-8")`. -/
def encodeError : Exc := .valueError (lit "surrogates not allowed")

/-- `s.encode("utf-8")` -/
def encode (s : Str) : Result (List Nat) :=
  if EncodableText s then .ok (s.flatMap octets) else .error encodeError

end Utf8

/-! ## Base64 -/

/-- A digit of `urlsafe_b64encode`. -/
def base64Digit (n : Nat) : Nat :=
  if n < 26 then 65 + n
  else if n < 52 then 71 + n
  else if n < 62 then n - 4
  else if n = 62 then 45
  else 95

/-- `base64.urlsafe_b64encode(bytes).decode("ascii").rstrip("=")` -/
def base64 : List Nat → Str
  | [] => []
  | [a] => [base64Digit (a / 4), base64Digit (a % 4 * 16)]
  | [a, b] => [base64Digit (a / 4), base64Digit (a % 4 * 16 + b / 16), base64Digit (b % 16 * 4)]
  | a :: b :: c :: bytes =>
    [base64Digit (a / 4), base64Digit (a % 4 * 16 + b / 16), base64Digit (b % 16 * 4 + c / 64),
      base64Digit (c % 64)] ++ base64 bytes

/-- The value of a digit of the standard alphabet. -/
def base64Value (c : Nat) : Option Nat :=
  if 65 ≤ c ∧ c ≤ 90 then some (c - 65)
  else if 97 ≤ c ∧ c ≤ 122 then some (c - 71)
  else if 48 ≤ c ∧ c ≤ 57 then some (c + 4)
  else if c = 43 then some 62
  else if c = 47 then some 63
  else none

/-- The loop of `binascii.a2b_base64`: the place in a group of four, the padding since the last digit,
and the bits that are left of it. Other characters are skipped. -/
def a2bFrom (place pads left : Nat) : List Nat → Option (List Nat)
  | [] => if place = 0 then some [] else none
  | c :: s =>
    if c = 61 then
      if 2 ≤ place then
        -- what follows the padding of a group is not read
        if 4 ≤ place + (pads + 1) then some [] else a2bFrom place (pads + 1) left s
      else a2bFrom place pads left s
    else
      match base64Value c with
      | none => a2bFrom place pads left s
      | some v =>
        match place with
        | 0 => a2bFrom 1 0 v s
        | 1 => (a2bFrom 2 0 (v % 16) s).map ((left * 4 + v / 16) :: ·)
        | 2 => (a2bFrom 3 0 (v % 4) s).map ((left * 16 + v / 4) :: ·)
        | _ => (a2bFrom 0 0 0 s).map ((left * 64 + v) :: ·)

/-- `base64.b64decode(s)` of a string, or none where it raises -/
def b64decode (s : Str) : Option (List Nat) :=
  if ∀ c ∈ s, c < 128 then a2bFrom 0 0 0 s else none

theorem encodableText_base64 (bytes : List Nat) : EncodableText (base64 bytes) := by
  have hdigit (n : Nat) : ¬(55296 ≤ base64Digit n ∧ base64Digit n ≤ 57343) := by
    unfold base64Digit
    split_ifs <;> omega
  fun_induction base64 bytes with
  | case1 => exact encodableText_nil
  | case2 a => simp only [Utf8.encodableText_cons, hdigit, not_false_iff, encodableText_nil, and_self]
  | case3 a b => simp only [Utf8.encodableText_cons, hdigit, not_false_iff, encodableText_nil, and_self]
  | case4 a b c bytes ih =>
    simp only [encodableText_append, Utf8.encodableText_cons, hdigit, not_false_iff, encodableText_nil,
      ih, and_self]

/-! ## Lines -/

namespace Str

/-- A character at which `splitlines` ends a line. -/
def isBreak (c : Nat) : Bool :=
  (10 ≤ c && c ≤ 13) || (28 ≤ c && c ≤ 30) || c == 133 || c == 8232 || c == 8233

/-- `s.splitlines()`, with the characters of the current line. -/
def linesFrom (cur : Str) : Str → List Str
  | [] => if cur = [] then [] else [cur]
  | 13 :: 10 :: s => cur :: linesFrom [] s
  | c :: s => if isBreak c then cur :: linesFrom [] s else linesFrom (cur ++ [c]) s

/-- `s.splitlines()` -/
def lines (s : Str) : List Str := linesFrom [] s

theorem mem_of_mem_linesFrom {cur s line : Str} (h : line ∈ linesFrom cur s) :
    ∀ c ∈ line, c ∈ cur ∨ c ∈ s := by
  fun_induction linesFrom cur s with
  | case1 => cases h
  | case2 cur =>
    intro c hc
    rw [List.mem_singleton] at h
    exact .inl (h ▸ hc)
  | case3 cur s ih =>
    intro c hc
    rcases List.mem_cons.mp h with rfl | h
    · exact .inl hc
    · have hs := (ih h c hc).resolve_left List.not_mem_nil
      exact .inr (by simp [hs])
  | case4 cur c s hcrlf hbreak ih =>
    intro d hd
    rcases List.mem_cons.mp h with rfl | h
    · exact .inl hd
    · have hs := (ih h d hd).resolve_left List.not_mem_nil
      exact .inr (by simp [hs])
  | case5 cur c s hcrlf hbreak ih =>
    intro d hd
    rcases ih h d hd with hcur | hs
    · rcases List.mem_append.mp hcur with hcur | hc
      · exact .inl hcur
      · exact .inr (by simp [List.mem_singleton.mp hc])
    · exact .inr (by simp [hs])

/-- The characters of a line are characters of the text. -/
theorem mem_of_mem_lines {s line : Str} (h : line ∈ lines s) : ∀ c ∈ line, c ∈ s := by
  intro c hc
  exact (mem_of_mem_linesFrom h c hc).resolve_left List.not_mem_nil

end Str

end WebZapret.Py
