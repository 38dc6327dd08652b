import Mathlib.Data.List.Basic
import Mathlib.Data.List.Infix
import Mathlib.Data.Rat.Defs

/-!
# Python strings

A string is the list of its code points, so that a lone surrogate, which a JSON text can contain,
is a string like any other. What depends on the Unicode tables or on the printing of doubles is a
parameter (`Tables`); an instance for ASCII text is given.
-/

namespace WebZapret.Py

/-- A string: its code points. -/
abbrev Str := List Nat

/-- Whether a string is in a list is decided in many places. -/
instance Str.lawfulBEq : LawfulBEq Str := inferInstance

/-- A string literal. -/
def lit (s : String) : Str := s.toList.map Char.toNat

/-- `c.isspace()`, and `\s` of a regular expression. -/
def isSpace (c : Nat) : Bool :=
  (9 ≤ c && c ≤ 13) || (28 ≤ c && c ≤ 32) || c == 133 || c == 160 || c == 5760 ||
    (8192 ≤ c && c ≤ 8202) || c == 8232 || c == 8233 || c == 8239 || c == 8287 || c == 12288

/-- The four separators of ASCII: blanks for `isspace` and `strip`, not for `int` and `float`. -/
def isSeparator (c : Nat) : Bool := 28 ≤ c && c ≤ 31

/-- What `int` and `float` pass over around a number. -/
def isNumberSpace (c : Nat) : Bool := isSpace c && !isSeparator c

/-- `[a-z]` -/
def isLower (c : Nat) : Bool := 97 ≤ c && c ≤ 122

/-- `[0-9]` -/
def isAsciiDigit (c : Nat) : Bool := 48 ≤ c && c ≤ 57

namespace Str

/-- The string without the characters `p` at its two ends. -/
def stripBy (p : Nat → Bool) (s : Str) : Str := ((s.dropWhile p).reverse.dropWhile p).reverse

/-- `s.strip()` -/
def strip (s : Str) : Str := s.stripBy isSpace

/-- `s.split()`, with the characters of the current word. -/
def wordsFrom (cur : Str) : Str → List Str
  | [] => if cur = [] then [] else [cur]
  | c :: s =>
    if isSpace c then (if cur = [] then wordsFrom [] s else cur :: wordsFrom [] s)
    else wordsFrom (cur ++ [c]) s

/-- `s.split()` -/
def words (s : Str) : List Str := wordsFrom [] s

/-- `s.split(sep)` for a single character. -/
def split (s : Str) (sep : Nat) : List Str := s.splitOn sep

/-- `sep.join(parts)` -/
def join (sep : Str) (parts : List Str) : Str := sep.intercalate parts

/-- `s.startswith(p)` -/
abbrev StartsWith (s p : Str) : Prop := p <+: s

/-- `p in s` -/
abbrev Contains (s p : Str) : Prop := p <:+: s

/-- `s.split("=", 1)[0]`, and the first part of `s.partition("=")`. -/
def key (s : Str) : Str := s.takeWhile (· ≠ 61)

/-- The last part of `s.partition("=")`. -/
def value (s : Str) : Str := (s.dropWhile (· ≠ 61)).drop 1

/-- `re.sub(r"[^...]+", "_", s)`: every run of characters that are not `p` becomes one `_`;
`inRun` says that the last character was one of these. -/
def squashFrom (p : Nat → Bool) (inRun : Bool) : Str → Str
  | [] => []
  | c :: s =>
    if p c then c :: squashFrom p false s
    else if inRun then squashFrom p true s else 95 :: squashFrom p true s

def squash (p : Nat → Bool) (s : Str) : Str := s.squashFrom p false

end Str

/-! ## Doubles -/

/-- A double by its value; NaN has no value, and the two infinities and the negative zero are
kept apart. -/
inductive Flt where
  | fin (q : Rat)
  | negZero
  | inf (neg : Bool)
  | nan
  deriving DecidableEq

/-! ## Tables -/

/-- What Python takes from its Unicode tables, and the text of a double. -/
class Tables where
  lower : Str → Str
  upper : Str → Str
  /-- the value of a decimal digit, of any script -/
  decimal : Nat → Option Nat
  printable : Nat → Bool
  reprFloat : Flt → Str
  /-- `float(s)` -/
  parseFloat : Str → Option Flt

/-- The tables on ASCII text; doubles are printed and read as integers. -/
@[reducible] def Tables.ascii : Tables where
  lower s := s.map fun c => if 65 ≤ c ∧ c ≤ 90 then c + 32 else c
  upper s := s.map fun c => if 97 ≤ c ∧ c ≤ 122 then c - 32 else c
  decimal c := if isAsciiDigit c then some (c - 48) else none
  printable c := 32 ≤ c && c ≤ 126
  reprFloat
    | .fin q => lit (toString q.floor ++ ".0")
    | .negZero => lit "-0.0"
    | .inf neg => lit (if neg then "-inf" else "inf")
    | .nan => lit "nan"
  parseFloat s :=
    if s ≠ [] ∧ s.all isAsciiDigit then
      some (.fin (s.foldl (fun n c => 10 * n + (c - 48)) 0 : Nat))
    else none

end WebZapret.Py
