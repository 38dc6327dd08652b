import WebZapret.Lib.Py.Json

/-!
# Printing JSON

`json.dump` and `json.dumps`, with or without `ensure_ascii` and `indent`. Keys come in the order of
the dict.
-/

namespace WebZapret.Py

/-- `ensure_ascii` and `indent` -/
structure Style where
  ascii : Bool
  indent : Option Nat

namespace Style

variable (style : Style)

/-! ## Strings -/

/-- The character that names a character after a backslash. -/
def shortEscape (c : Nat) : Option Nat :=
  if c = 34 then some 34
  else if c = 92 then some 92
  else if c = 8 then some 98
  else if c = 9 then some 116
  else if c = 10 then some 110
  else if c = 12 then some 102
  else if c = 13 then some 114
  else none

/-- `"\\u{0:04x}".format(n)` -/
def unitEscape (n : Nat) : Str := 92 :: 117 :: Json.hex 4 n

/-- What a character is replaced by; beyond U+FFFF it takes two surrogates. -/
def escape (c : Nat) : Str :=
  match shortEscape c with
  | some e => [92, e]
  | none =>
    if c < 32 ∨ style.ascii = true ∧ 126 < c then
      if c < 65536 then unitEscape c
      else unitEscape (55296 + (c - 65536) / 1024) ++ unitEscape (56320 + (c - 65536) % 1024)
    else [c]

/-- `py_encode_basestring`, and `py_encode_basestring_ascii` -/
def string (s : Str) : Str := 34 :: s.flatMap style.escape ++ [34]

/-! ## Values -/

/-- The line that a container's parts begin at `depth`; none without an indent. -/
def newline (depth : Nat) : Str :=
  match style.indent with
  | none => []
  | some n => 10 :: List.replicate (n * depth) 32

/-- What is between two parts of a container. -/
def comma (depth : Nat) : Str :=
  match style.indent with
  | none => lit ", "
  | some _ => 44 :: style.newline depth

/-- What is before a part of a container. -/
def lead (first : Bool) (depth : Nat) : Str :=
  if first then style.newline depth else style.comma depth

/-- What is after the last part of a container; an empty one has nothing in it. -/
def trail (first : Bool) (depth : Nat) : Str := if first then [] else style.newline depth

variable [Tables]

/-- `floatstr` -/
def float : Flt → Str
  | .nan => lit "NaN"
  | .inf neg => lit (if neg then "-Infinity" else "Infinity")
  | x => Tables.reprFloat x

mutual

/-- A value inside `depth` containers. -/
def value (depth : Nat) : Json → Str
  | .null => lit "null"
  | .bool b => lit (if b then "true" else "false")
  | .int i => intStr i
  | .float x => float x
  | .str s => style.string s
  | .arr xs => 91 :: items depth true xs ++ [93]
  | .obj ms => 123 :: members depth true ms ++ [125]

/-- The items of an array from the first or from a later one on. -/
def items (depth : Nat) (first : Bool) : List Json → Str
  | [] => style.trail first depth
  | x :: xs => style.lead first (depth + 1) ++ value (depth + 1) x ++ items depth false xs

/-- The members of an object from the first or from a later one on. -/
def members (depth : Nat) (first : Bool) : List (Str × Json) → Str
  | [] => style.trail first depth
  | (k, x) :: ms =>
    style.lead first (depth + 1) ++ style.string k ++ lit ": " ++ value (depth + 1) x ++
      members depth false ms

end

/-- `json.dumps(x)` -/
def dumps (x : Json) : Str := style.value 0 x

end Style

end WebZapret.Py
