import WebZapret.Lib.Py.Json

/-!
# Texts that a file can hold

UTF-8 has no encoding for a lone surrogate, which a JSON text can contain as an escape. Dumping a
value without escapes into a UTF-8 file fails if there is one in any of its texts or keys.
-/

namespace WebZapret.Py

/-- The text can be encoded in UTF-8. -/
def EncodableText (s : Str) : Prop := ∀ c ∈ s, ¬(55296 ≤ c ∧ c ≤ 57343)

instance (s : Str) : Decidable (EncodableText s) := by
  unfold EncodableText
  infer_instance

theorem encodableText_append {s t : Str} :
    EncodableText (s ++ t) ↔ EncodableText s ∧ EncodableText t := List.forall_mem_append

@[simp] theorem encodableText_nil : EncodableText [] := nofun

/-- The characters of a literal are Unicode scalar values. -/
@[simp] theorem encodableText_lit (s : String) : EncodableText (lit s) := by
  intro c hc
  obtain ⟨ch, _, rfl⟩ := List.mem_map.mp hc
  have hvalid : ch.toNat < 55296 ∨ 57343 < ch.toNat ∧ ch.toNat < 1114112 := ch.valid
  omega

@[simp] theorem encodableText_intStr (i : Int) : EncodableText (intStr i) := encodableText_lit _

/-- A number printed without places. -/
@[simp] theorem encodableText_format (x : Flt) : EncodableText (x.format 0) := by
  have hfixed (neg : Bool) (a : Rat) : EncodableText (fixed 0 neg a) := by
    rw [fixed, if_pos rfl]
    cases neg <;> simp [encodableText_append]
  cases x with
  | fin q => exact hfixed _ _
  | negZero => exact hfixed _ _
  | inf neg => exact encodableText_lit _
  | nan => exact encodableText_lit _

namespace Json

mutual

/-- `json.dump(x, handle, ensure_ascii=False)` succeeds on a UTF-8 file. -/
def encodable : Json → Bool
  | .str s => EncodableText s
  | .arr items => encodableItems items
  | .obj members => encodableMembers members
  | _ => true

def encodableItems : List Json → Bool
  | [] => true
  | x :: items => encodable x && encodableItems items

def encodableMembers : List (Str × Json) → Bool
  | [] => true
  | (k, x) :: members => EncodableText k && encodable x && encodableMembers members

end

@[simp] theorem encodable_str {s : Str} : (Json.str s).encodable = true ↔ EncodableText s := by
  simp [encodable]

@[simp] theorem encodable_null : Json.null.encodable = true := rfl

@[simp] theorem encodable_bool {b : Bool} : (Json.bool b).encodable = true := rfl

@[simp] theorem encodable_int {i : Int} : (Json.int i).encodable = true := rfl

@[simp] theorem encodable_float {x : Flt} : (Json.float x).encodable = true := rfl

@[simp] theorem encodable_arr {items : List Json} :
    (Json.arr items).encodable = true ↔ ∀ x ∈ items, x.encodable = true := by
  rw [encodable]
  induction items with
  | nil => simp [encodableItems]
  | cons x items ih => rw [encodableItems, Bool.and_eq_true, ih, List.forall_mem_cons]

@[simp] theorem encodable_obj {members : List (Str × Json)} :
    (Json.obj members).encodable = true ↔
      ∀ m ∈ members, EncodableText m.1 ∧ m.2.encodable = true := by
  rw [encodable]
  induction members with
  | nil => simp [encodableMembers]
  | cons m members ih =>
    rw [encodableMembers, Bool.and_eq_true, Bool.and_eq_true, ih, List.forall_mem_cons,
      decide_eq_true_eq]

/-- An array of texts. -/
def texts (items : List Str) : Json := .arr (items.map .str)

@[simp] theorem encodable_texts {items : List Str} :
    (texts items).encodable = true ↔ ∀ s ∈ items, EncodableText s := by
  simp [texts]

end Json

end WebZapret.Py
