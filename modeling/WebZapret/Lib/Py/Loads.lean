import WebZapret.Lib.Py.Json

/-!
# Reading JSON

`json.loads` and `JSONDecoder.raw_decode`; `none` is an exception. The scanner takes a value from the
front of a text and gives what follows it. Each call of it uses up at least one character, so the length
of the text bounds the calls inside one another.

A member that comes again replaces the earlier one, at its place.
-/

namespace WebZapret.Py

namespace Scan

/-! ## Strings -/

/-- A hexadecimal digit, of either case. -/
def hexValue (c : Nat) : Option Nat :=
  if 48 ≤ c ∧ c ≤ 57 then some (c - 48)
  else if 97 ≤ c ∧ c ≤ 102 then some (c - 87)
  else if 65 ≤ c ∧ c ≤ 70 then some (c - 55)
  else none

/-- Four hexadecimal digits. -/
def hexUnit (a b c d : Nat) : Option Nat := do
  return (((← hexValue a) * 16 + (← hexValue b)) * 16 + (← hexValue c)) * 16 + (← hexValue d)

/-- The character that a letter names after a backslash. -/
def shortValue (c : Nat) : Option Nat :=
  if c = 34 then some 34
  else if c = 92 then some 92
  else if c = 47 then some 47
  else if c = 98 then some 8
  else if c = 102 then some 12
  else if c = 110 then some 10
  else if c = 114 then some 13
  else if c = 116 then some 9
  else none

def IsHigh (c : Nat) : Prop := 55296 ≤ c ∧ c ≤ 56319

def IsLow (c : Nat) : Prop := 56320 ≤ c ∧ c ≤ 57343

instance : DecidablePred IsHigh := fun c => inferInstanceAs (Decidable (55296 ≤ c ∧ c ≤ 56319))

instance : DecidablePred IsLow := fun c => inferInstanceAs (Decidable (56320 ≤ c ∧ c ≤ 57343))

/-- The character that two surrogates stand for. -/
def joinUnits (high low : Nat) : Nat := 65536 + (high - 55296) * 1024 + (low - 56320)

/-- `scanstring`, after the opening quote: the text, and what follows the closing quote. An escaped high
surrogate waits for the next escape, which may complete it. -/
def string (high : Option Nat) : Str → Option (Str × Str)
  | [] => none
  | 34 :: s => some (high.toList, s)
  | 92 :: 117 :: a :: b :: c :: d :: s =>
    match hexUnit a b c d with
    | none => none
    | some u =>
      match high with
      | some h =>
        if IsLow u then (string none s).map fun (t, rest) => (joinUnits h u :: t, rest)
        else if IsHigh u then (string (some u) s).map fun (t, rest) => (h :: t, rest)
        else (string none s).map fun (t, rest) => (h :: u :: t, rest)
      | none =>
        if IsHigh u then string (some u) s
        else (string none s).map fun (t, rest) => (u :: t, rest)
  | 92 :: e :: s =>
    match shortValue e with
    | none => none
    | some c => (string none s).map fun (t, rest) => (high.toList ++ c :: t, rest)
  | c :: s =>
    if c < 32 ∨ c = 92 then none
    else (string none s).map fun (t, rest) => (high.toList ++ c :: t, rest)

/-! ## Numbers -/

/-- `0`, or digits that do not begin with one. -/
def whole : Str → Option (Str × Str)
  | [] => none
  | c :: s =>
    if c = 48 then some ([48], s)
    else if isAsciiDigit c then some (c :: s.takeWhile isAsciiDigit, s.dropWhile isAsciiDigit)
    else none

/-- `(\.\d+)?` -/
def fraction : Str → Str × Str
  | 46 :: s =>
    if s.takeWhile isAsciiDigit = [] then ([], 46 :: s)
    else (46 :: s.takeWhile isAsciiDigit, s.dropWhile isAsciiDigit)
  | s => ([], s)

/-- `[-+]?` -/
def sign : Str → Str × Str
  | [] => ([], [])
  | c :: s => if c = 43 ∨ c = 45 then ([c], s) else ([], c :: s)

/-- `([eE][-+]?\d+)?` -/
def exponent : Str → Str × Str
  | [] => ([], [])
  | c :: s =>
    if (c = 101 ∨ c = 69) ∧ (sign s).2.takeWhile isAsciiDigit ≠ [] then
      (c :: (sign s).1 ++ (sign s).2.takeWhile isAsciiDigit, (sign s).2.dropWhile isAsciiDigit)
    else ([], c :: s)

/-- `-?` -/
def minus : Str → Str × Str
  | [] => ([], [])
  | c :: s => if c = 45 then ([45], s) else ([], c :: s)

/-- The longest number at the front: its sign and whole part, its fraction and exponent, and the rest. -/
def numeral (s : Str) : Option (Str × Str × Str) :=
  match whole (minus s).2 with
  | none => none
  | some (digits, t) =>
    some ((minus s).1 ++ digits, (fraction t).1 ++ (exponent (fraction t).2).1,
      (exponent (fraction t).2).2)

variable [Tables]

/-- `int(digits)`, or `float(digits + tail)` -/
def numberValue (digits tail : Str) : Option Json :=
  if tail = [] then (Json.parseInt digits).map .int
  else (Tables.parseFloat (digits ++ tail)).map .float

/-- `match_number` -/
def number (s : Str) : Option (Json × Str) :=
  match numeral s with
  | none => none
  | some (digits, tail, rest) => (numberValue digits tail).map fun x => (x, rest)

/-! ## Values -/

def isBlank (c : Nat) : Bool := c == 32 || c == 9 || c == 10 || c == 13

def skip (s : Str) : Str := s.dropWhile isBlank

mutual

/-- `scan_once` -/
def value : Nat → Str → Option (Json × Str)
  | 0, _ => none
  | fuel + 1, s =>
    match s with
    | 34 :: s => (string none s).map fun (t, rest) => (.str t, rest)
    | 123 :: s =>
      match skip s with
      | 125 :: rest => some (.obj [], rest)
      | s => (members fuel [] s).map fun (ms, rest) => (.obj ms, rest)
    | 91 :: s =>
      match skip s with
      | 93 :: rest => some (.arr [], rest)
      | s => (items fuel s).map fun (xs, rest) => (.arr xs, rest)
    | 110 :: 117 :: 108 :: 108 :: rest => some (.null, rest)
    | 116 :: 114 :: 117 :: 101 :: rest => some (.bool true, rest)
    | 102 :: 97 :: 108 :: 115 :: 101 :: rest => some (.bool false, rest)
    | 78 :: 97 :: 78 :: rest => some (.float .nan, rest)
    | 73 :: 110 :: 102 :: 105 :: 110 :: 105 :: 116 :: 121 :: rest => some (.float (.inf false), rest)
    | 45 :: 73 :: 110 :: 102 :: 105 :: 110 :: 105 :: 116 :: 121 :: rest =>
      some (.float (.inf true), rest)
    | s => number s

/-- The items of an array, at one of them. -/
def items : Nat → Str → Option (List Json × Str)
  | 0, _ => none
  | fuel + 1, s =>
    match value fuel s with
    | none => none
    | some (x, s) =>
      match skip s with
      | 93 :: rest => some ([x], rest)
      | 44 :: s => (items fuel (skip s)).map fun (xs, rest) => (x :: xs, rest)
      | _ => none

/-- The members of an object, at one of them, and those before. -/
def members : Nat → Dict → Str → Option (Dict × Str)
  | 0, _, _ => none
  | fuel + 1, before, s =>
    match s with
    | 34 :: s =>
      match string none s with
      | none => none
      | some (key, s) =>
        match skip s with
        | 58 :: s =>
          match value fuel (skip s) with
          | none => none
          | some (x, s) =>
            match skip s with
            | 125 :: rest => some (before.set key x, rest)
            | 44 :: s => members fuel (before.set key x) (skip s)
            | _ => none
        | _ => none
    | _ => none

end

/-- `JSONDecoder().raw_decode(s)` -/
def rawDecode (s : Str) : Option (Json × Str) := value (s.length + 1) s

/-- `json.loads(s)`; a byte order mark is refused. -/
def loads (s : Str) : Option Json :=
  if s.head? = some 65279 then none
  else
    match rawDecode (skip s) with
    | some (x, rest) => if skip rest = [] then some x else none
    | none => none

end Scan

end WebZapret.Py
