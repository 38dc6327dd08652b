import WebZapret.Lib.Failing
import WebZapret.Lib.Py.Codec
import WebZapret.Lib.Py.Strip

/-!
# Texts that are made of texts

Cutting, stripping and joining texts neither adds a surrogate nor loses one: only characters that are
no surrogates are dropped. `repr` escapes surrogates, so what it prints can be encoded, whatever the
value.
-/

namespace WebZapret.Py

open Failing

variable {s t : Str}

/-! ## Parts of a text -/

theorem EncodableText.mono (h : EncodableText t) (hsub : ∀ c ∈ s, c ∈ t) : EncodableText s :=
  fun c hc => h c (hsub c hc)

theorem EncodableText.drop (h : EncodableText t) (n : Nat) : EncodableText (t.drop n) :=
  h.mono fun _ hc => List.mem_of_mem_drop hc

theorem EncodableText.lines (h : EncodableText t) {line : Str} (hline : line ∈ t.lines) :
    EncodableText line := h.mono (Str.mem_of_mem_lines hline)

/-- A surrogate is no space. -/
theorem not_surrogate_of_isSpace {c : Nat} (h : isSpace c = true) : ¬(55296 ≤ c ∧ c ≤ 57343) := by
  simp [isSpace] at h
  omega

theorem mem_stripBy_or {p : Nat → Bool} {c : Nat} (h : c ∈ s) : c ∈ s.stripBy p ∨ p c = true := by
  by_cases hp : p c = true
  · exact .inr hp
  have hdrop {l : List Nat} (hl : c ∈ l) : c ∈ l.dropWhile p := by
    rw [← List.takeWhile_append_dropWhile (p := p) (l := l)] at hl
    exact (List.mem_append.mp hl).resolve_left fun htake => hp (List.mem_takeWhile_imp htake)
  refine .inl ?_
  rw [Str.stripBy, List.mem_reverse]
  exact hdrop (List.mem_reverse.mpr (hdrop h))

theorem mem_of_mem_stripBy {p : Nat → Bool} {c : Nat} (h : c ∈ s.stripBy p) : c ∈ s := by
  rw [Str.stripBy, List.mem_reverse] at h
  exact (List.dropWhile_sublist p).subset (List.mem_reverse.mp ((List.dropWhile_sublist p).subset h))

@[simp] theorem encodableText_strip : EncodableText s.strip ↔ EncodableText s := by
  constructor
  · intro h c hc
    rcases mem_stripBy_or hc with hmem | hspace
    · exact h c hmem
    · exact not_surrogate_of_isSpace hspace
  · intro h
    exact h.mono fun c hc => mem_of_mem_stripBy hc

theorem encodableText_wordsFrom {cur : Str} :
    (∀ w ∈ Str.wordsFrom cur s, EncodableText w) ↔ EncodableText cur ∧ EncodableText s := by
  induction s generalizing cur with
  | nil =>
    rw [Str.wordsFrom]
    split
    · rename_i hnil
      simp [hnil]
    · simp
  | cons c s ih =>
    rw [Str.wordsFrom, Utf8.encodableText_cons]
    split
    · rename_i hspace
      have hc := not_surrogate_of_isSpace hspace
      split
      · rename_i hnil
        rw [ih, hnil]
        exact ⟨fun h => ⟨h.1, hc, h.2⟩, fun h => ⟨h.1, h.2.2⟩⟩
      · rw [List.forall_mem_cons, ih]
        exact ⟨fun h => ⟨h.1, hc, h.2.2⟩, fun h => ⟨h.1, encodableText_nil, h.2.2⟩⟩
    · rw [ih, encodableText_append, Utf8.encodableText_cons, and_assoc]
      exact ⟨fun h => ⟨h.1, h.2.1.1, h.2.2⟩, fun h => ⟨h.1, ⟨h.2.1, encodableText_nil⟩, h.2.2⟩⟩

@[simp] theorem encodableText_words : (∀ w ∈ s.words, EncodableText w) ↔ EncodableText s := by
  rw [Str.words, encodableText_wordsFrom]
  exact and_iff_right encodableText_nil

theorem encodableText_join {sep : Str} (hsep : EncodableText sep) {parts : List Str} :
    EncodableText (Str.join sep parts) ↔ ∀ p ∈ parts, EncodableText p := by
  induction parts with
  | nil => simp [Str.join]
  | cons p parts ih =>
    cases parts with
    | nil => simp [Str.join]
    | cons q parts =>
      have hcons : Str.join sep (p :: q :: parts) = p ++ sep ++ Str.join sep (q :: parts) := by
        simp [Str.join, List.intercalate]
      rw [hcons, encodableText_append, encodableText_append, ih]
      constructor
      · exact fun h => List.forall_mem_cons.mpr ⟨h.1.1, h.2⟩
      · intro h
        obtain ⟨hp, hrest⟩ := List.forall_mem_cons.mp h
        exact ⟨⟨hp, hsep⟩, hrest⟩

theorem EncodableText.split (h : EncodableText t) {sep : Nat} (hsep : EncodableText [sep]) {part : Str}
    (hpart : part ∈ t.split sep) : EncodableText part := by
  have hjoin : Str.join [sep] (t.split sep) = t := List.intercalate_splitOn sep
  exact (encodableText_join hsep).mp (hjoin.symm ▸ h) part hpart

/-! ## Printed values -/

/-- What is printed of a number, and read as one, has no surrogates, and no surrogate counts as
printable. -/
class EncodableTables [Tables] : Prop where
  printable : ∀ c, Tables.printable c = true → ¬(55296 ≤ c ∧ c ≤ 57343)
  reprFloat : ∀ x, EncodableText (Tables.reprFloat x)
  parseFloat : ∀ s x, Tables.parseFloat s = some x → EncodableText s

instance encodableTables_ascii : @EncodableTables Tables.ascii := by
  let _ := Tables.ascii
  refine ⟨?_, ?_, ?_⟩
  · intro c hc
    have hc : (32 ≤ c && c ≤ 126) = true := hc
    simp at hc
    omega
  · intro x
    cases x <;> exact encodableText_lit _
  · intro s x h
    have h : (if s ≠ [] ∧ s.all isAsciiDigit then
        some (Flt.fin (s.foldl (fun n c => 10 * n + (c - 48)) 0 : Nat)) else none) = some x := h
    split at h
    · rename_i hdigits
      intro c hc
      have hdigit := List.all_eq_true.mp hdigits.2 c hc
      simp [isAsciiDigit] at hdigit
      omega
    · cases h

/-- The text of an exception can be encoded; those that carry none name types only. -/
def Exc.Encodes : Exc → Prop
  | .valueError text => EncodableText text
  | _ => True

/-- Whatever exception is raised can be encoded. -/
def ErrorEncodes {α : Type} (x : Result α) : Prop := ∀ e, x = .error e → e.Encodes

section ErrorEncodes

variable {α β : Type}

theorem errorEncodes_ok {a : α} : ErrorEncodes (.ok a) := nofun

theorem ErrorEncodes.bind {x : Result α} {f : α → Result β} (hx : ErrorEncodes x)
    (hf : ∀ a, ErrorEncodes (f a)) : ErrorEncodes (x >>= f) := by
  intro e h
  rcases bind_eq_error.mp h with hx' | ⟨a, _, hfa⟩
  · exact hx e hx'
  · exact hf a e hfa

theorem errorEncodes_mapM {f : α → Result β} {l : List α} (h : ∀ a, ErrorEncodes (f a)) :
    ErrorEncodes (l.mapM f) := by
  intro e he
  obtain ⟨a, _, hfa⟩ := exists_of_mapM_error he
  exact h a e hfa

theorem errorEncodes_foldlM {f : β → α → Result β} {l : List α} {b : β}
    (h : ∀ b a, ErrorEncodes (f b a)) : ErrorEncodes (l.foldlM f b) := by
  intro e he
  obtain ⟨b', a, _, hfa⟩ := exists_of_foldlM_error he
  exact h b' a e hfa

end ErrorEncodes

namespace Json

theorem encodableText_hex (places n : Nat) : EncodableText (hex places n) := by
  have hdigit : ∀ d < 16, ¬(55296 ≤ hexDigit d ∧ hexDigit d ≤ 57343) := by
    intro d hd
    unfold hexDigit
    split_ifs <;> omega
  induction places generalizing n with
  | zero => exact encodableText_nil
  | succ places ih =>
    rw [hex, encodableText_append]
    exact ⟨ih _, Utf8.encodableText_cons.mpr ⟨hdigit _ (Nat.mod_lt _ (by decide)), encodableText_nil⟩⟩

variable [Tables]

theorem encodableText_reprChar [EncodableTables] {quote : Nat} (hquote : quote = 34 ∨ quote = 39)
    (c : Nat) : EncodableText (reprChar quote c) := by
  have hone {c : Nat} (h : ¬(55296 ≤ c ∧ c ≤ 57343)) : EncodableText [c] :=
    Utf8.encodableText_cons.mpr ⟨h, encodableText_nil⟩
  unfold reprChar
  split
  · rename_i hescaped
    refine Utf8.encodableText_cons.mpr ⟨by decide, hone ?_⟩
    rcases hescaped with rfl | rfl
    · rcases hquote with rfl | rfl <;> decide
    · decide
  split
  · exact encodableText_lit _
  split
  · exact encodableText_lit _
  split
  · exact encodableText_lit _
  split
  · exact hone (by omega)
  split
  · rename_i hprintable
    exact hone (EncodableTables.printable c hprintable.2)
  split
  · exact encodableText_append.mpr ⟨encodableText_lit _, encodableText_hex _ _⟩
  split
  · exact encodableText_append.mpr ⟨encodableText_lit _, encodableText_hex _ _⟩
  · exact encodableText_append.mpr ⟨encodableText_lit _, encodableText_hex _ _⟩

@[simp] theorem encodableText_reprStr [EncodableTables] (s : Str) : EncodableText (reprStr s) := by
  unfold reprStr
  have hquote : (if 39 ∈ s ∧ 34 ∉ s then 34 else 39) = 34 ∨
      (if 39 ∈ s ∧ 34 ∉ s then 34 else 39) = 39 := by
    split
    · exact .inl rfl
    · exact .inr rfl
  have hone : EncodableText [if 39 ∈ s ∧ 34 ∉ s then 34 else 39] := by
    rcases hquote with h | h <;> rw [h] <;> decide
  refine encodableText_append.mpr ⟨encodableText_append.mpr ⟨hone, ?_⟩, hone⟩
  intro c hc
  obtain ⟨d, _, hd⟩ := List.mem_flatMap.mp hc
  exact encodableText_reprChar hquote d c hd

mutual

theorem encodableText_repr [EncodableTables] : (x : Json) → EncodableText x.repr
  | .null => encodableText_lit _
  | .bool _ => encodableText_lit _
  | .int _ => encodableText_intStr _
  | .float x => EncodableTables.reprFloat x
  | .str s => encodableText_reprStr s
  | .arr items => by
    rw [repr]
    simp only [encodableText_append, encodableText_lit, encodableText_reprItems items, and_self]
  | .obj members => by
    rw [repr]
    exact encodableText_append.mpr ⟨encodableText_append.mpr
      ⟨by decide, encodableText_reprMembers members⟩, by decide⟩

theorem encodableText_reprItems [EncodableTables] : (items : List Json) → EncodableText (reprItems items)
  | [] => encodableText_nil
  | [x] => encodableText_repr x
  | x :: y :: items => by
    rw [reprItems]
    · simp only [encodableText_append, encodableText_lit, encodableText_repr x,
        encodableText_reprItems (y :: items), and_self]
    · exact List.cons_ne_nil _ _

theorem encodableText_reprMembers [EncodableTables] :
    (members : List (Str × Json)) → EncodableText (reprMembers members)
  | [] => encodableText_nil
  | [(k, x)] => by
    rw [reprMembers]
    simp only [encodableText_append, encodableText_lit, encodableText_reprStr, encodableText_repr x,
      and_self]
  | (k, x) :: m :: members => by
    rw [reprMembers]
    · simp only [encodableText_append, encodableText_lit, encodableText_reprStr, encodableText_repr x,
        encodableText_reprMembers (m :: members), and_self]
    · exact List.cons_ne_nil _ _

end

/-- Only a string is printed as it is. -/
theorem encodableText_text [EncodableTables] {x : Json} :
    EncodableText x.text ↔ ∀ s, x = .str s → EncodableText s := by
  cases x with
  | str s =>
    constructor
    · rintro h _ ⟨⟩
      exact h
    · exact fun h => h s rfl
  | _ => exact iff_of_true (encodableText_repr _) nofun

theorem encodableText_text_of_encodable [EncodableTables] {x : Json} (h : x.encodable = true) :
    EncodableText x.text := by
  rw [encodableText_text]
  rintro s rfl
  exact encodable_str.mp h

/-! ## The texts of exceptions -/

theorem toInt_error_encodes [EncodableTables] {x : Json} {e : Exc} (h : x.toInt = .error e) :
    e.Encodes := by
  unfold toInt at h
  split at h
  · cases h
  · cases h
  · split at h
    · cases h
    · split at h
      · cases h
        exact encodableText_lit _
      · cases h
        trivial
  · split at h
    · cases h
    · cases h
      exact encodableText_append.mpr ⟨encodableText_lit _, encodableText_reprStr _⟩
  · cases h
    trivial

end Json

end WebZapret.Py
