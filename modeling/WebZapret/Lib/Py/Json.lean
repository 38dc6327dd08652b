import WebZapret.Lib.Py.Number

/-!
# JSON values

What `json.load` returns, and the operations on such values: truth, `dict.get`, iteration, `str` and
`repr`, `int`, and the conversions of `%`. An operation that a value does not have raises.

An object is the list of its members in insertion order.
-/

namespace WebZapret.Py

/-- The exceptions that the operations raise; a `ValueError` has its text. -/
inductive Exc where
  | valueError (text : Str)
  | typeError
  | attributeError
  | keyError
  | overflowError
  | indexError
  | unboundLocalError (name : Str)
  deriving DecidableEq

abbrev Result (α : Type) := Except Exc α

inductive Json where
  | null
  | bool (b : Bool)
  | int (i : Int)
  | float (x : Flt)
  | str (s : Str)
  | arr (items : List Json)
  | obj (members : List (Str × Json))

/-- A dict with string keys. -/
abbrev Dict := List (Str × Json)

namespace Dict

/-- `d.get(key, default)` -/
def get (d : Dict) (key : Str) (default : Json) : Json := (d.lookup key).getD default

/-- `d.get(key)` -/
def get0 (d : Dict) (key : Str) : Json := d.get key .null

/-- `d[key]` -/
def item (d : Dict) (key : Str) : Result Json :=
  match d.lookup key with
  | some v => .ok v
  | none => .error .keyError

/-- `d[key] = value` -/
def set : Dict → Str → Json → Dict
  | [], key, value => [(key, value)]
  | (k, v) :: d, key, value => if k = key then (k, value) :: d else (k, v) :: set d key value

/-- `d.pop(key, None)`, without the value. -/
def pop (d : Dict) (key : Str) : Dict := d.filter fun m => m.1 ≠ key

/-- `d.setdefault(key, value)`, without the value. -/
def setDefault (d : Dict) (key : Str) (value : Json) : Dict :=
  if (d.lookup key).isSome then d else d ++ [(key, value)]

theorem lookup_set_self (d : Dict) (key : Str) (value : Json) :
    (d.set key value).lookup key = some value := by
  induction d with
  | nil => simp [set]
  | cons m d ih =>
    obtain ⟨k, v⟩ := m
    by_cases hk : k = key
    · simp [set, hk]
    · have hne : (key == k) = false := by simpa using fun heq => hk heq.symm
      simp only [set, hk, if_false, List.lookup_cons, hne, ih]

theorem lookup_set_ne (d : Dict) {key k : Str} (h : k ≠ key) (value : Json) :
    (d.set key value).lookup k = d.lookup k := by
  induction d with
  | nil => simp [set, h]
  | cons m d ih =>
    obtain ⟨j, v⟩ := m
    by_cases hj : j = key
    · have hne : (k == key) = false := by simpa using h
      simp [set, hj, List.lookup_cons, hne]
    · simp only [set, hj, if_false, List.lookup_cons, ih]

theorem lookup_pop_ne (d : Dict) {key k : Str} (h : k ≠ key) :
    (d.pop key).lookup k = d.lookup k := by
  induction d with
  | nil => rfl
  | cons m d ih =>
    obtain ⟨j, v⟩ := m
    by_cases hj : j = key
    · have hne : (k == j) = false := by simpa [hj] using h
      have hpop : pop ((j, v) :: d) key = pop d key := by simp [pop, hj]
      rw [hpop, ih, List.lookup_cons, hne]
    · have hpop : pop ((j, v) :: d) key = (j, v) :: pop d key := by simp [pop, hj]
      rw [hpop, List.lookup_cons, List.lookup_cons, ih]

/-- Setting a key to the value that it has changes nothing. -/
theorem set_eq_self {d : Dict} {key : Str} {value : Json} (h : d.lookup key = some value) :
    d.set key value = d := by
  induction d with
  | nil => cases h
  | cons m d ih =>
    obtain ⟨k, v⟩ := m
    by_cases hk : k = key
    · subst hk
      rw [List.lookup_cons_self] at h
      cases h
      simp [set]
    · have hne : (key == k) = false := by simpa using fun heq => hk heq.symm
      rw [List.lookup_cons, hne] at h
      simp only [set, hk, if_false, ih h]

/-- Setting a key that a dict has leaves its keys as they are. -/
theorem keys_set {d : Dict} {key : Str} (h : key ∈ d.map (·.1)) (value : Json) :
    (d.set key value).map (·.1) = d.map (·.1) := by
  induction d with
  | nil => cases h
  | cons m d ih =>
    obtain ⟨k, v⟩ := m
    by_cases hk : k = key
    · simp [set, hk]
    · have hmem : key ∈ d.map (·.1) := by
        rcases List.mem_cons.mp h with heq | hmem
        · exact absurd heq.symm hk
        · exact hmem
      simp only [set, hk, if_false, List.map_cons, ih hmem]

/-- A dict is its keys, in order, and their values. -/
theorem eq_of_lookup {d d' : Dict} (hnodup : (d.map (·.1)).Nodup)
    (hkeys : d.map (·.1) = d'.map (·.1)) (h : ∀ key ∈ d.map (·.1), d.lookup key = d'.lookup key) :
    d = d' := by
  induction d generalizing d' with
  | nil => exact (List.map_eq_nil_iff.mp hkeys.symm).symm
  | cons m d ih =>
    obtain ⟨k, v⟩ := m
    cases d' with
    | nil => cases hkeys
    | cons m' d' =>
      obtain ⟨k', v'⟩ := m'
      obtain ⟨hk, htail⟩ := List.cons.inj hkeys
      obtain ⟨hfresh, hnodup⟩ := List.nodup_cons.mp hnodup
      obtain rfl : k = k' := hk
      have hv := h k List.mem_cons_self
      rw [List.lookup_cons_self, List.lookup_cons_self] at hv
      have hrest : ∀ key ∈ d.map (·.1), d.lookup key = d'.lookup key := by
        intro key hkey
        have hne : (key == k) = false := by
          apply beq_false_of_ne
          rintro rfl
          exact hfresh hkey
        have hkey' := h key (List.mem_cons_of_mem _ hkey)
        rwa [List.lookup_cons, List.lookup_cons, hne] at hkey'
      rw [Option.some.inj hv, ih hnodup htail hrest]

theorem mem_of_lookup {d : Dict} {key : Str} {value : Json} (h : d.lookup key = some value) :
    (key, value) ∈ d := by
  obtain ⟨before, after, rfl, _⟩ := List.lookup_eq_some_iff.mp h
  simp

/-- The value of a member, when no key is repeated. -/
theorem lookup_of_mem {d : Dict} (hnodup : (d.map (·.1)).Nodup) {m : Str × Json} (h : m ∈ d) :
    d.lookup m.1 = some m.2 := by
  induction d with
  | nil => cases h
  | cons first d ih =>
    obtain ⟨hfresh, hnodup⟩ := List.nodup_cons.mp hnodup
    rcases List.mem_cons.mp h with rfl | h
    · exact List.lookup_cons_self
    · have hmem : m.1 ∈ d.map (·.1) := List.mem_map_of_mem h
      have hne : (m.1 == first.1) = false := by
        apply beq_false_of_ne
        intro heq
        rw [heq] at hmem
        exact hfresh hmem
      rw [List.lookup_cons, hne]
      exact ih hnodup h

/-- `setdefault` gives the member the value that `get` has with the same default. -/
theorem lookup_setDefault (d : Dict) (key : Str) (value : Json) :
    (d.setDefault key value).lookup key = some (d.get key value) := by
  unfold setDefault get
  cases hd : d.lookup key with
  | none => simp [List.lookup_append, hd]
  | some x => simp [hd]

end Dict

namespace Json

/-! ## Truth, members, items -/

def truthy : Json → Bool
  | .null => false
  | .bool b => b
  | .int i => i ≠ 0
  | .float x => x ≠ .fin 0 ∧ x ≠ .negZero
  | .str s => s ≠ []
  | .arr items => !items.isEmpty
  | .obj members => !members.isEmpty

/-- `x or y` -/
def or (x y : Json) : Json := if x.truthy then x else y

/-- The dict whose methods are called; other values have no `get`. -/
def dict : Json → Result Dict
  | .obj members => .ok members
  | _ => .error .attributeError

/-- `for item in x` -/
def iter : Json → Result (List Json)
  | .arr items => .ok items
  | .obj members => .ok (members.map fun m => .str m.1)
  | .str s => .ok (s.map fun c => .str [c])
  | _ => .error .typeError

/-- What is true and can be iterated has items. -/
theorem iter_ne_nil {x : Json} {items : List Json} (h : x.truthy) (hitems : x.iter = .ok items) :
    items ≠ [] := by
  cases x with
  | arr xs =>
    cases hitems
    simpa [truthy] using h
  | obj members =>
    cases hitems
    simpa [truthy] using h
  | str s =>
    cases hitems
    simpa [truthy] using h
  | _ => cases hitems

/-- `x == s` for a string `s` -/
def Is (x : Json) (s : Str) : Prop := x = .str s

instance (x : Json) (s : Str) : Decidable (x.Is s) :=
  match x with
  | .str t => if h : t = s then isTrue (h ▸ rfl) else isFalse fun heq => h (Json.str.inj heq)
  | .null => isFalse nofun
  | .bool _ => isFalse nofun
  | .int _ => isFalse nofun
  | .float _ => isFalse nofun
  | .arr _ => isFalse nofun
  | .obj _ => isFalse nofun

/-! ## Text -/

/-- A digit of `\xhh`. -/
def hexDigit (n : Nat) : Nat := if n < 10 then 48 + n else 87 + n

/-- The `places` lowest hexadecimal digits. -/
def hex : Nat → Nat → Str
  | 0, _ => []
  | places + 1, n => hex places (n / 16) ++ [hexDigit (n % 16)]

section

variable [Tables]

/-- A character of `repr(s)`. -/
def reprChar (quote c : Nat) : Str :=
  if c = quote ∨ c = 92 then [92, c]
  else if c = 9 then lit "\\t"
  else if c = 10 then lit "\\n"
  else if c = 13 then lit "\\r"
  else if 32 ≤ c ∧ c < 127 then [c]
  else if 127 < c ∧ Tables.printable c then [c]
  else if c < 256 then lit "\\x" ++ hex 2 c
  else if c < 65536 then lit "\\u" ++ hex 4 c
  else lit "\\U" ++ hex 8 c

/-- `repr(s)` -/
def reprStr (s : Str) : Str :=
  let quote := if 39 ∈ s ∧ 34 ∉ s then 34 else 39
  [quote] ++ s.flatMap (reprChar quote) ++ [quote]

mutual

/-- `repr(x)` -/
def repr : Json → Str
  | .null => lit "None"
  | .bool b => lit (if b then "True" else "False")
  | .int i => intStr i
  | .float x => Tables.reprFloat x
  | .str s => reprStr s
  | .arr items => lit "[" ++ reprItems items ++ lit "]"
  | .obj members => [123] ++ reprMembers members ++ [125]

def reprItems : List Json → Str
  | [] => []
  | [x] => repr x
  | x :: items => repr x ++ lit ", " ++ reprItems items

def reprMembers : List (Str × Json) → Str
  | [] => []
  | [(k, x)] => reprStr k ++ lit ": " ++ repr x
  | (k, x) :: members => reprStr k ++ lit ": " ++ repr x ++ lit ", " ++ reprMembers members

end

/-- `str(x)` -/
def text : Json → Str
  | .str s => s
  | x => x.repr

/-! ## Numbers -/

/-- Digits, with single underscores between them; `some 0` for none at all. -/
def digitsFrom (acc : Nat) : Str → Option Nat
  | [] => some acc
  | [c] => (Tables.decimal c).map fun d => 10 * acc + d
  | 95 :: c :: s => do digitsFrom (10 * acc + (← Tables.decimal c)) s
  | c :: s => do digitsFrom (10 * acc + (← Tables.decimal c)) s

/-- `int(s)`; more than 4300 digits are refused. -/
def parseInt (s : Str) : Option Int :=
  let magnitude (t : Str) : Option Int :=
    if t.head?.all (· = 95) ∨ 4300 < (t.filter (· ≠ 95)).length then none
    else (digitsFrom 0 t).map fun n => (n : Int)
  match s.stripBy isNumberSpace with
  | 43 :: t => magnitude t
  | 45 :: t => (magnitude t).map (- ·)
  | t => magnitude t

/-- `int(x)` -/
def toInt : Json → Result Int
  | .bool b => .ok b.toNat
  | .int i => .ok i
  | .float x =>
    match x.toRat? with
    | some q => .ok (if q < 0 then -(-q).floor else q.floor)
    | none => if x = .nan then .error (.valueError (lit "cannot convert float NaN to integer"))
      else .error .overflowError
  | .str s =>
    match parseInt s with
    | some i => .ok i
    | none => .error (.valueError (lit "invalid literal for int() with base 10: " ++ reprStr s))
  | _ => .error .typeError

/-- `"%d" % x` -/
def formatInt (x : Json) : Result Str :=
  match x with
  | .str _ => .error .typeError
  | x => x.toInt.map intStr

end

/-- `float(i)` of an integer. -/
def floatOfInt (i : Int) : Result Flt :=
  match Flt.round i with
  | .inf _ => .error .overflowError
  | x => .ok x

/-- `float(x)` -/
def toFloat [Tables] : Json → Result Flt
  | .bool b => .ok (.fin b.toNat)
  | .int i => floatOfInt i
  | .float x => .ok x
  | .str s =>
    match Tables.parseFloat s with
    | some x => .ok x
    | none => .error (.valueError (lit "could not convert string to float: " ++ reprStr s))
  | _ => .error .typeError

/-- `"%.{places}f" % (x * 100)` -/
def formatPercent (places : Nat) : Json → Result Str
  | .bool b => .ok ((Flt.fin (100 * b.toNat)).format places)
  | .int i => (floatOfInt (i * 100)).map (Flt.format places)
  | .float x => .ok (x.mul100.format places)
  | _ => .error .typeError

/-- `-x` -/
def neg : Json → Result Json
  | .bool b => .ok (.int (-b.toNat))
  | .int i => .ok (.int (-i))
  | .float x => .ok (.float x.neg)
  | _ => .error .typeError

/-- The value by which numbers are ordered; a NaN has none. -/
def number : Json → Option Flt
  | .bool b => some (.fin b.toNat)
  | .int i => some (.fin i)
  | .float .nan => none
  | .float x => some x
  | _ => none

/-- `",".join(x)` -/
def joinComma (x : Json) : Result Str := do
  let items ← match x.iter with
    | .ok items => pure items
    | .error _ => .error .typeError
  let parts ← items.mapM fun
    | .str s => .ok s
    | _ => .error .typeError
  return Str.join (lit ",") parts

end Json

end WebZapret.Py
