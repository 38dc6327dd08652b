import WebZapret.Lib.Py.JsonRead

/-!
# JSON in files

`json.dump` into a file that is open for UTF-8 text, and `json.load` from one. Writing fails for a lone
surrogate, which has no octets, and for an integer that `str` refuses; everything else that is written
is read back (`loadJson_dumpJson`).

Reading a text file turns every kind of line end into a line feed. What `dumps` writes has line feeds
alone.
-/

namespace WebZapret.Py

namespace Json

mutual

/-- No integer is too long for `str`. -/
def shortInts : Json → Bool
  | .int i => Scan.ShortInt i
  | .arr xs => shortIntsItems xs
  | .obj ms => shortIntsMembers ms
  | _ => true

def shortIntsItems : List Json → Bool
  | [] => true
  | x :: xs => shortInts x && shortIntsItems xs

def shortIntsMembers : List (Str × Json) → Bool
  | [] => true
  | (_, x) :: ms => shortInts x && shortIntsMembers ms

end

variable [Tables]

mutual

/-- What every value of Python has: code points, distinct keys, and floats whose text is their own. -/
def Proper : Json → Prop
  | .float x => FloatKept x
  | .str s => IsText s
  | .arr xs => ProperItems xs
  | .obj ms => (ms.map (·.1)).Nodup ∧ ProperMembers ms
  | _ => True

def ProperItems : List Json → Prop
  | [] => True
  | x :: xs => Proper x ∧ ProperItems xs

def ProperMembers : List (Str × Json) → Prop
  | [] => True
  | (k, x) :: ms => IsText k ∧ Proper x ∧ ProperMembers ms

end

end Json

/-! ## Files -/

/-- What reading a text file makes of line ends. -/
def universalNewlines : Str → Str
  | [] => []
  | 13 :: 10 :: s => 10 :: universalNewlines s
  | 13 :: s => 10 :: universalNewlines s
  | c :: s => c :: universalNewlines s

/-- `json.load(handle)` of a text file; `none` is an exception. -/
def loadJson [Tables] (bytes : List Nat) : Option Json :=
  match Utf8.decodeStrict bytes with
  | none => none
  | some s => Scan.loads (universalNewlines s)

/-- `json.dump(x, handle)` into a text file: the bytes of the file, or `none` for an exception. -/
def dumpJson [Tables] (style : Style) (x : Json) : Option (List Nat) :=
  if x.shortInts = true ∧ EncodableText (style.dumps x) then
    some ((style.dumps x).flatMap Utf8.octets)
  else none

theorem universalNewlines_eq {s : Str} (h : 13 ∉ s) : universalNewlines s = s := by
  induction s with
  | nil => rfl
  | cons c s ih =>
    obtain ⟨hc, hs⟩ := not_or.mp (mt List.mem_cons.mpr h)
    rw [universalNewlines, ih hs]
    · rintro t rfl
      exact absurd rfl hc
    · rintro rfl
      exact absurd rfl hc

theorem isText_universalNewlines {s : Str} (h : IsText s) : IsText (universalNewlines s) := by
  fun_induction universalNewlines s with
  | case1 => exact h
  | case2 s ih =>
    have hs := (isText_cons.mp (isText_cons.mp h).2).2
    exact isText_cons.mpr ⟨by decide, ih hs⟩
  | case3 s _ ih => exact isText_cons.mpr ⟨by decide, ih (isText_cons.mp h).2⟩
  | case4 c s _ _ ih => exact isText_cons.mpr ⟨(isText_cons.mp h).1, ih (isText_cons.mp h).2⟩

/-! ## What has to hold of a value -/

section

variable [Tables] {style : Style}

mutual

/-- Nothing of a value of Python is lost without escapes, if its integers can be printed. -/
theorem keeps_of_proper (hstyle : style.ascii = false) : (x : Json) → x.Proper → x.shortInts = true →
    style.Keeps x
  | .null, _, _ => trivial
  | .bool _, _, _ => trivial
  | .int _, _, h => (of_decide_eq_true h : Scan.ShortInt _)
  | .float _, h, _ => h
  | .str s, _, _ => Scan.keepsText hstyle s
  | .arr xs, hx, h => keepsItems_of_proper hstyle xs hx h
  | .obj ms, hx, h => ⟨hx.1, keepsMembers_of_proper hstyle ms hx.2 h⟩

theorem keepsItems_of_proper (hstyle : style.ascii = false) : (xs : List Json) → Json.ProperItems xs →
    Json.shortIntsItems xs = true → style.KeepsItems xs
  | [], _, _ => trivial
  | x :: xs, hx, h => by
    rw [Json.shortIntsItems, Bool.and_eq_true] at h
    exact ⟨keeps_of_proper hstyle x hx.1 h.1, keepsItems_of_proper hstyle xs hx.2 h.2⟩

theorem keepsMembers_of_proper (hstyle : style.ascii = false) : (ms : List (Str × Json)) →
    Json.ProperMembers ms → Json.shortIntsMembers ms = true → style.KeepsMembers ms
  | [], _, _ => trivial
  | (k, x) :: ms, hx, h => by
    rw [Json.shortIntsMembers, Bool.and_eq_true] at h
    exact ⟨Scan.keepsText hstyle k, keeps_of_proper hstyle x hx.2.1 h.1,
      keepsMembers_of_proper hstyle ms hx.2.2 h.2⟩

end

mutual

theorem chars_of_proper {p : Nat → Prop} (h : ∀ c < 1114112, p c) : (x : Json) → x.Proper → x.Chars p
  | .null, _ => trivial
  | .bool _, _ => trivial
  | .int _, _ => trivial
  | .float _, _ => trivial
  | .str _, hs => fun c hc => h c (hs c hc)
  | .arr xs, hx => charsItems_of_proper h xs hx
  | .obj ms, hx => charsMembers_of_proper h ms hx.2

theorem charsItems_of_proper {p : Nat → Prop} (h : ∀ c < 1114112, p c) : (xs : List Json) →
    Json.ProperItems xs → Json.CharsItems p xs
  | [], _ => trivial
  | x :: xs, hx => ⟨chars_of_proper h x hx.1, charsItems_of_proper h xs hx.2⟩

theorem charsMembers_of_proper {p : Nat → Prop} (h : ∀ c < 1114112, p c) :
    (ms : List (Str × Json)) → Json.ProperMembers ms → Json.CharsMembers p ms
  | [], _ => trivial
  | (_, x) :: ms, hx =>
    ⟨fun c hc => h c (hx.1 c hc), chars_of_proper h x hx.2.1, charsMembers_of_proper h ms hx.2.2⟩

end

end

mutual

theorem encodable_iff_chars {p : Nat → Prop} (h : ∀ c, p c ↔ ¬(55296 ≤ c ∧ c ≤ 57343)) :
    (x : Json) → (x.encodable = true ↔ x.Chars p)
  | .null => by simp [Json.Chars]
  | .bool _ => by simp [Json.Chars]
  | .int _ => by simp [Json.Chars]
  | .float _ => by simp [Json.Chars]
  | .str s => by
    rw [Json.encodable_str, Json.Chars]
    exact forall₂_congr fun c _ => (h c).symm
  | .arr xs => by
    rw [Json.encodable, Json.Chars]
    exact encodableItems_iff_chars h xs
  | .obj ms => by
    rw [Json.encodable, Json.Chars]
    exact encodableMembers_iff_chars h ms

theorem encodableItems_iff_chars {p : Nat → Prop} (h : ∀ c, p c ↔ ¬(55296 ≤ c ∧ c ≤ 57343)) :
    (xs : List Json) → (Json.encodableItems xs = true ↔ Json.CharsItems p xs)
  | [] => by simp [Json.encodableItems, Json.CharsItems]
  | x :: xs => by
    rw [Json.encodableItems, Bool.and_eq_true, Json.CharsItems, encodable_iff_chars h x,
      encodableItems_iff_chars h xs]

theorem encodableMembers_iff_chars {p : Nat → Prop} (h : ∀ c, p c ↔ ¬(55296 ≤ c ∧ c ≤ 57343)) :
    (ms : List (Str × Json)) → (Json.encodableMembers ms = true ↔ Json.CharsMembers p ms)
  | [] => by simp [Json.encodableMembers, Json.CharsMembers]
  | (k, x) :: ms => by
    have hk : EncodableText k ↔ ∀ c ∈ k, p c := forall₂_congr fun c _ => (h c).symm
    rw [Json.encodableMembers, Bool.and_eq_true, Bool.and_eq_true, decide_eq_true_eq,
      Json.CharsMembers, encodable_iff_chars h x, encodableMembers_iff_chars h ms, hk, and_assoc]

end

/-! ## The round trip -/

section

variable [Tables] {style : Style} {x : Json}

/-- The text of a value without escapes can be encoded exactly if the texts in it can. -/
theorem encodableText_dumps (hstyle : style.ascii = false) (hkeeps : style.Keeps x) :
    EncodableText (style.dumps x) ↔ x.encodable = true := by
  have hlow (c : Nat) : (128 ≤ c → ¬(55296 ≤ c ∧ c ≤ 57343)) ↔ ¬(55296 ≤ c ∧ c ≤ 57343) := by omega
  constructor
  · intro h
    exact (encodable_iff_chars hlow x).mpr (Style.chars_of_value hstyle x h)
  · intro h
    have hplain : Style.Plain fun c => ¬(55296 ≤ c ∧ c ≤ 57343) := fun c hc _ => by omega
    have hcontrol (c : Nat) : (32 ≤ c → ¬(55296 ≤ c ∧ c ≤ 57343)) ↔ ¬(55296 ≤ c ∧ c ≤ 57343) := by omega
    exact hplain.value x hkeeps ((encodable_iff_chars hcontrol x).mp h) 0

/-- What was written is the octets of a text that can be read. -/
theorem dumpJson_eq_some (hstyle : style.ascii = false) (hproper : x.Proper) {bytes : List Nat}
    (h : dumpJson style x = some bytes) :
    bytes = (style.dumps x).flatMap Utf8.octets ∧ style.Keeps x ∧ IsText (style.dumps x) ∧
      EncodableText (style.dumps x) := by
  unfold dumpJson at h
  split_ifs at h with hprinted
  have hkeeps := keeps_of_proper hstyle x hproper hprinted.1
  refine ⟨(Option.some.inj h).symm, hkeeps, ?_, hprinted.2⟩
  have hplain : Style.Plain fun c => c < 1114112 := fun c hc _ => by omega
  have hall : ∀ c < 1114112, 32 ≤ c → c < 1114112 := fun _ hc _ => hc
  exact hplain.value x hkeeps (chars_of_proper hall x hproper) 0

/-- **A file that was written is read back.** -/
theorem loadJson_dumpJson [LawfulTables] (hstyle : style.ascii = false) (hproper : x.Proper)
    {bytes : List Nat} (h : dumpJson style x = some bytes) : loadJson bytes = some x := by
  obtain ⟨rfl, hkeeps, htext, hencodable⟩ := dumpJson_eq_some hstyle hproper h
  have hreturn : 13 ∉ style.dumps x := by
    have hplain : Style.Plain fun c => c ≠ 13 := fun c _ hc => hc
    have hne := hplain.value x hkeeps (chars_of_proper (fun c _ hc => by omega) x hproper) 0
    exact fun hmem => hne 13 hmem rfl
  rw [loadJson, Utf8.decodeStrict_flatMap htext hencodable]
  dsimp only
  rw [universalNewlines_eq hreturn, Scan.loads_dumps hkeeps]

/-- Writing fails exactly for surrogates and for integers that are too long. -/
theorem dumpJson_eq_none (hstyle : style.ascii = false) (hproper : x.Proper) :
    dumpJson style x = none ↔ ¬(x.encodable = true ∧ x.shortInts = true) := by
  have hiff : x.shortInts = true ∧ EncodableText (style.dumps x) ↔
      x.encodable = true ∧ x.shortInts = true := by
    rw [and_comm]
    exact and_congr_left fun hshort =>
      encodableText_dumps hstyle (keeps_of_proper hstyle x hproper hshort)
  unfold dumpJson
  split_ifs with h
  · exact iff_of_false nofun (not_not.mpr (hiff.mp h))
  · exact iff_of_true rfl (mt hiff.mpr h)

/-! ## What was read -/

mutual

theorem proper_of_keeps (hstyle : style.ascii = false) : (x : Json) → style.Keeps x →
    x.Chars (· < 1114112) → x.Proper ∧ x.shortInts = true
  | .null, _, _ => ⟨trivial, rfl⟩
  | .bool _, _, _ => ⟨trivial, rfl⟩
  | .int _, h, _ => ⟨trivial, decide_eq_true h⟩
  | .float _, h, _ => ⟨h, rfl⟩
  | .str _, _, h => ⟨h, rfl⟩
  | .arr xs, hx, h => properItems_of_keeps hstyle xs hx h
  | .obj ms, hx, h =>
    have hms := properMembers_of_keeps hstyle ms hx.2 h
    ⟨⟨hx.1, hms.1⟩, hms.2⟩

theorem properItems_of_keeps (hstyle : style.ascii = false) : (xs : List Json) → style.KeepsItems xs →
    Json.CharsItems (· < 1114112) xs → Json.ProperItems xs ∧ Json.shortIntsItems xs = true
  | [], _, _ => ⟨trivial, rfl⟩
  | x :: xs, hx, h => by
    have hfirst := proper_of_keeps hstyle x hx.1 h.1
    have hrest := properItems_of_keeps hstyle xs hx.2 h.2
    exact ⟨⟨hfirst.1, hrest.1⟩, by rw [Json.shortIntsItems, hfirst.2, hrest.2]; rfl⟩

theorem properMembers_of_keeps (hstyle : style.ascii = false) : (ms : List (Str × Json)) →
    style.KeepsMembers ms → Json.CharsMembers (· < 1114112) ms →
    Json.ProperMembers ms ∧ Json.shortIntsMembers ms = true
  | [], _, _ => ⟨trivial, rfl⟩
  | (k, x) :: ms, hx, h => by
    have hfirst := proper_of_keeps hstyle x hx.2.1 h.2.1
    have hrest := properMembers_of_keeps hstyle ms hx.2.2 h.2.2
    exact ⟨⟨h.1, hfirst.1, hrest.1⟩, by rw [Json.shortIntsMembers, hfirst.2, hrest.2]; rfl⟩

end

/-- **What was read is a value that can be written**, unless it has surrogates. -/
theorem proper_of_loadJson [LawfulTables] [JsonTables] {bytes : List Nat} (h : loadJson bytes = some x) :
    x.Proper ∧ x.shortInts = true := by
  unfold loadJson at h
  split at h
  · cases h
  · rename_i s hs
    have htext := isText_universalNewlines (Utf8.isText_decodeStrict hs)
    have hstyle : (Style.mk false none).ascii = false := rfl
    exact proper_of_keeps hstyle x (Scan.keeps_loads hstyle h) (Scan.isText_loads htext h)

end

end WebZapret.Py
