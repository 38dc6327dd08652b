import WebZapret.Lib.Py.JsonSound

/-!
# The characters of a printed value

What `dumps` prints has the characters of the texts in the value and plain ASCII (`Plain.value`). There
is no carriage return in it: inside strings it is escaped.
-/

namespace WebZapret.Py

/-! ## The characters of a value -/

namespace Json

mutual

/-- The characters of all texts and keys. -/
def Chars (p : Nat → Prop) : Json → Prop
  | .str s => ∀ c ∈ s, p c
  | .arr xs => CharsItems p xs
  | .obj ms => CharsMembers p ms
  | _ => True

def CharsItems (p : Nat → Prop) : List Json → Prop
  | [] => True
  | x :: xs => Chars p x ∧ CharsItems p xs

def CharsMembers (p : Nat → Prop) : List (Str × Json) → Prop
  | [] => True
  | (k, x) :: ms => (∀ c ∈ k, p c) ∧ Chars p x ∧ CharsMembers p ms

end

end Json

namespace Style

variable {p : Nat → Prop} {style : Style} {depth : Nat}

/-! ## The characters of a printed text -/

/-- What is printed besides the characters of texts: ASCII without carriage returns. -/
def Plain (p : Nat → Prop) : Prop := ∀ c < 128, c ≠ 13 → p c

theorem Plain.text (h : Plain p) {s : Str} (hs : ∀ c ∈ s, c < 128 ∧ c ≠ 13) : ∀ c ∈ s, p c :=
  fun c hc => h c (hs c hc).1 (hs c hc).2

theorem Plain.hexDigit (h : Plain p) (n : Nat) : p (Json.hexDigit (n % 16)) := by
  unfold Json.hexDigit
  exact h _ (by split_ifs <;> omega) (by split_ifs <;> omega)

theorem Plain.unitEscape (h : Plain p) (n : Nat) : ∀ c ∈ unitEscape n, p c := by
  have hhex (places n : Nat) : ∀ c ∈ Json.hex places n, p c := by
    induction places generalizing n with
    | zero => exact List.forall_mem_nil _
    | succ places ih =>
      rw [Json.hex, List.forall_mem_append]
      exact ⟨ih _, List.forall_mem_singleton.mpr (h.hexDigit n)⟩
  rw [Style.unitEscape, List.forall_mem_cons, List.forall_mem_cons]
  exact ⟨h 92 (by decide) (by decide), h 117 (by decide) (by decide), hhex 4 n⟩

/-- A control character is escaped. -/
theorem Plain.escape (h : Plain p) {c : Nat} (hc : 32 ≤ c → p c) : ∀ d ∈ style.escape c, p d := by
  unfold Style.escape
  split
  · rename_i e he
    unfold shortEscape at he
    rw [List.forall_mem_cons, List.forall_mem_singleton]
    refine ⟨h 92 (by decide) (by decide), ?_⟩
    split_ifs at he <;>
      cases he <;>
      exact h _ (by decide) (by decide)
  · split_ifs
    · exact h.unitEscape c
    · exact List.forall_mem_append.mpr ⟨h.unitEscape _, h.unitEscape _⟩
    · exact List.forall_mem_singleton.mpr (hc (by omega))

theorem Plain.string (h : Plain p) {s : Str} (hs : ∀ c ∈ s, 32 ≤ c → p c) :
    ∀ c ∈ style.string s, p c := by
  rw [Style.string, List.cons_append, List.forall_mem_cons, List.forall_mem_append,
    List.forall_mem_singleton]
  refine ⟨h 34 (by decide) (by decide), fun c hc => ?_, h 34 (by decide) (by decide)⟩
  obtain ⟨d, hd, hc⟩ := List.mem_flatMap.mp hc
  exact h.escape (hs d hd) c hc

theorem Plain.newline (h : Plain p) : ∀ c ∈ style.newline depth, p c := by
  apply h.text
  intro c hc
  unfold Style.newline at hc
  split at hc
  · cases hc
  · rcases List.mem_cons.mp hc with rfl | hc
    · decide
    · rw [List.eq_of_mem_replicate hc]
      decide

theorem Plain.lead (h : Plain p) (first : Bool) : ∀ c ∈ style.lead first depth, p c := by
  unfold Style.lead Style.comma
  split_ifs
  · exact h.newline
  · split
    · exact h.text (by decide)
    · exact List.forall_mem_cons.mpr ⟨h 44 (by decide) (by decide), h.newline⟩

theorem Plain.trail (h : Plain p) (first : Bool) : ∀ c ∈ style.trail first depth, p c := by
  unfold Style.trail
  split_ifs
  · exact List.forall_mem_nil _
  · exact h.newline

/-! ## Numbers -/

theorem Plain.digits (h : Plain p) {s : Str} (hs : ∀ c ∈ s, isAsciiDigit c = true) : ∀ c ∈ s, p c := by
  apply h.text
  intro c hc
  have hdigit := hs c hc
  simp [isAsciiDigit] at hdigit
  omega

theorem Plain.intStr (h : Plain p) (i : Int) : ∀ c ∈ intStr i, p c := by
  intro c hc
  rcases mem_intStr hc with rfl | hdigit
  · exact h 45 (by decide) (by decide)
  · exact h.digits (s := [c]) (by simpa using hdigit) c (by simp)

theorem Plain.fraction (h : Plain p) (s : Str) :
    (∀ c ∈ (Scan.fraction s).1, p c) ∧ s = (Scan.fraction s).1 ++ (Scan.fraction s).2 := by
  rw [Scan.fraction.eq_def]
  split
  · split_ifs
    · exact ⟨List.forall_mem_nil _, rfl⟩
    · refine ⟨List.forall_mem_cons.mpr ⟨h 46 (by decide) (by decide), h.digits fun c hc => ?_⟩, ?_⟩
      · exact List.mem_takeWhile_imp hc
      · rw [List.cons_append, List.takeWhile_append_dropWhile]
  · exact ⟨List.forall_mem_nil _, rfl⟩

theorem Plain.sign (h : Plain p) (s : Str) :
    (∀ c ∈ (Scan.sign s).1, p c) ∧ s = (Scan.sign s).1 ++ (Scan.sign s).2 := by
  unfold Scan.sign
  split
  · exact ⟨List.forall_mem_nil _, rfl⟩
  · split_ifs with hc
    · refine ⟨List.forall_mem_singleton.mpr (h _ (by omega) (by omega)), rfl⟩
    · exact ⟨List.forall_mem_nil _, rfl⟩

theorem Plain.exponent (h : Plain p) (s : Str) :
    (∀ c ∈ (Scan.exponent s).1, p c) ∧ s = (Scan.exponent s).1 ++ (Scan.exponent s).2 := by
  unfold Scan.exponent
  split
  · exact ⟨List.forall_mem_nil _, rfl⟩
  · rename_i c s
    split_ifs with hc
    · obtain ⟨hsign, heq⟩ := h.sign s
      refine ⟨List.forall_mem_append.mpr ⟨List.forall_mem_cons.mpr ⟨h c (by omega) (by omega), hsign⟩,
        h.digits fun d hd => List.mem_takeWhile_imp hd⟩, ?_⟩
      rw [List.append_assoc, List.takeWhile_append_dropWhile, List.cons_append, ← heq]
    · exact ⟨List.forall_mem_nil _, rfl⟩

theorem minus_eq (s : Str) : s = (Scan.minus s).1 ++ (Scan.minus s).2 := by
  unfold Scan.minus
  split
  · rfl
  · split_ifs with hc
    · rw [hc]
      rfl
    · rfl

theorem whole_eq {s digits rest : Str} (h : Scan.whole s = some (digits, rest)) :
    s = digits ++ rest := by
  cases s with
  | nil => cases h
  | cons c s =>
    rw [Scan.whole] at h
    split_ifs at h with hzero
    · obtain ⟨rfl, rfl⟩ := Prod.mk.inj (Option.some.inj h)
      rw [hzero]
      rfl
    · obtain ⟨rfl, rfl⟩ := Prod.mk.inj (Option.some.inj h)
      rw [List.cons_append, List.takeWhile_append_dropWhile]

/-- A text that is read as one number. -/
theorem Plain.numeral (h : Plain p) {s digits tail : Str}
    (hs : Scan.numeral s = some (digits, tail, [])) : ∀ c ∈ s, p c := by
  obtain ⟨ds, hdigits, -, hds⟩ := Scan.digits_of_numeral hs
  have hchars : ∀ c ∈ digits, p c := by
    rcases hdigits with rfl | rfl
    · exact h.digits hds
    · exact List.forall_mem_cons.mpr ⟨h 45 (by decide) (by decide), h.digits hds⟩
  unfold Scan.numeral at hs
  cases hwhole : Scan.whole (Scan.minus s).2 with
  | none =>
    rw [hwhole] at hs
    cases hs
  | some d =>
    obtain ⟨whole, t⟩ := d
    rw [hwhole] at hs
    obtain ⟨hdigits, -, hend⟩ : _ ∧ _ ∧ _ := by simpa using hs
    obtain ⟨hfrac, hfraceq⟩ := h.fraction t
    obtain ⟨hexp, hexpeq⟩ := h.exponent (Scan.fraction t).2
    rw [hend, List.append_nil] at hexpeq
    have hsplit : s = digits ++ ((Scan.fraction t).1 ++ (Scan.exponent (Scan.fraction t).2).1) := by
      rw [← hexpeq, ← hfraceq, ← hdigits, List.append_assoc, ← whole_eq hwhole]
      exact minus_eq s
    rw [hsplit, List.forall_mem_append, List.forall_mem_append]
    exact ⟨hchars, hfrac, hexp⟩

/-- Without `ensure_ascii`, a character beyond ASCII stands for itself. -/
theorem mem_string (hstyle : style.ascii = false) {s : Str} {c : Nat} (hc : c ∈ s) (hlarge : 128 ≤ c) :
    c ∈ style.string s := by
  have hshort : shortEscape c = none := by
    unfold shortEscape
    repeat rw [if_neg (by omega)]
  have hescape : style.escape c = [c] := by
    unfold Style.escape
    rw [hshort]
    exact if_neg (by simp [hstyle]; omega)
  rw [Style.string, List.cons_append]
  refine List.mem_cons_of_mem _ (List.mem_append_left _ (List.mem_flatMap.mpr ⟨c, hc, ?_⟩))
  rw [hescape]
  exact List.mem_singleton_self c

section

variable [Tables]

theorem Plain.float (h : Plain p) {x : Flt} (hx : FloatKept x) : ∀ c ∈ Style.float x, p c := by
  have hnumber {x : Flt} (hx : Scan.number (Tables.reprFloat x) = some (.float x, [])) :
      ∀ c ∈ Tables.reprFloat x, p c := by
    unfold Scan.number at hx
    cases hnumeral : Scan.numeral (Tables.reprFloat x) with
    | none =>
      rw [hnumeral] at hx
      cases hx
    | some d =>
      obtain ⟨digits, tail, rest⟩ := d
      rw [hnumeral] at hx
      obtain ⟨y, -, hy⟩ := Option.map_eq_some_iff.mp hx
      obtain ⟨-, rfl⟩ := Prod.mk.inj hy
      exact h.numeral hnumeral
  cases x with
  | nan => exact h.text (s := lit "NaN") (by decide)
  | inf neg =>
    cases neg with
    | false => exact h.text (s := lit "Infinity") (by decide)
    | true => exact h.text (s := lit "-Infinity") (by decide)
  | fin q => exact hnumber hx
  | negZero => exact hnumber hx

mutual

/-- **The characters of a printed value**, if the ones of its texts have the property. -/
theorem Plain.value (h : Plain p) : (x : Json) → style.Keeps x → (x.Chars fun c => 32 ≤ c → p c) →
    ∀ depth, ∀ c ∈ style.value depth x, p c
  | .null, _, _, _ => h.text (s := lit "null") (by decide)
  | .bool true, _, _, _ => h.text (s := lit "true") (by decide)
  | .bool false, _, _, _ => h.text (s := lit "false") (by decide)
  | .int i, _, _, _ => h.intStr i
  | .float x, hx, _, _ => h.float hx
  | .str s, _, hs, _ => h.string hs
  | .arr xs, hx, hxs, depth => by
    rw [Style.value, List.forall_mem_append, List.forall_mem_cons, List.forall_mem_singleton]
    exact ⟨⟨h 91 (by decide) (by decide), Plain.items h xs hx hxs depth true⟩,
      h 93 (by decide) (by decide)⟩
  | .obj ms, hx, hms, depth => by
    rw [Style.value, List.forall_mem_append, List.forall_mem_cons, List.forall_mem_singleton]
    exact ⟨⟨h 123 (by decide) (by decide), Plain.members h ms hx.2 hms depth true⟩,
      h 125 (by decide) (by decide)⟩

theorem Plain.items (h : Plain p) : (xs : List Json) → style.KeepsItems xs →
    Json.CharsItems (fun c => 32 ≤ c → p c) xs → ∀ depth first, ∀ c ∈ style.items depth first xs, p c
  | [], _, _, depth, first => h.trail first
  | x :: xs, hx, hxs, depth, first => by
    rw [Style.items, List.forall_mem_append, List.forall_mem_append]
    exact ⟨⟨h.lead first, Plain.value h x hx.1 hxs.1 _⟩, Plain.items h xs hx.2 hxs.2 depth false⟩

theorem Plain.members (h : Plain p) : (ms : List (Str × Json)) → style.KeepsMembers ms →
    Json.CharsMembers (fun c => 32 ≤ c → p c) ms → ∀ depth first, ∀ c ∈ style.members depth first ms, p c
  | [], _, _, depth, first => h.trail first
  | (k, x) :: ms, hx, hms, depth, first => by
    obtain ⟨-, hx, hmembers⟩ := hx
    obtain ⟨hk, hchars, hms⟩ := hms
    simp only [Style.members, List.forall_mem_append]
    exact ⟨⟨⟨⟨h.lead first, h.string hk⟩, h.text (by decide)⟩, Plain.value h x hx hchars _⟩,
      Plain.members h ms hmembers hms depth false⟩

end

/-! ## The characters that are in it -/

mutual

/-- What holds of the characters of a printed value holds of the ones of its texts. -/
theorem chars_of_value (hstyle : style.ascii = false) : (x : Json) → ∀ {depth : Nat},
    (∀ c ∈ style.value depth x, p c) → x.Chars fun c => 128 ≤ c → p c
  | .null, _, _ => trivial
  | .bool _, _, _ => trivial
  | .int _, _, _ => trivial
  | .float _, _, _ => trivial
  | .str s, _, h => fun c hc hlarge => h c (mem_string hstyle hc hlarge)
  | .arr xs, depth, h => by
    rw [Style.value, List.forall_mem_append, List.forall_mem_cons] at h
    exact chars_of_items hstyle xs h.1.2
  | .obj ms, depth, h => by
    rw [Style.value, List.forall_mem_append, List.forall_mem_cons] at h
    exact chars_of_members hstyle ms h.1.2

theorem chars_of_items (hstyle : style.ascii = false) : (xs : List Json) → ∀ {depth : Nat}
    {first : Bool}, (∀ c ∈ style.items depth first xs, p c) → Json.CharsItems (fun c => 128 ≤ c → p c) xs
  | [], _, _, _ => trivial
  | x :: xs, depth, first, h => by
    rw [Style.items, List.forall_mem_append, List.forall_mem_append] at h
    exact ⟨chars_of_value hstyle x h.1.2, chars_of_items hstyle xs h.2⟩

theorem chars_of_members (hstyle : style.ascii = false) : (ms : List (Str × Json)) → ∀ {depth : Nat}
    {first : Bool}, (∀ c ∈ style.members depth first ms, p c) →
    Json.CharsMembers (fun c => 128 ≤ c → p c) ms
  | [], _, _, _ => trivial
  | (k, x) :: ms, depth, first, h => by
    simp only [Style.members, List.forall_mem_append] at h
    obtain ⟨⟨⟨⟨-, hk⟩, -⟩, hx⟩, hms⟩ := h
    exact ⟨fun c hc hlarge => hk c (mem_string hstyle hc hlarge), chars_of_value hstyle x hx,
      chars_of_members hstyle ms hms⟩

end

end

end Style

end WebZapret.Py
