import WebZapret.Lib.Py.Str
import Mathlib.Data.Rat.Floor

/-!
# Numbers

Arithmetic of doubles is exact arithmetic followed by rounding to the nearest double (`Flt.round`,
ties to even), and `%.nf` prints the exact value of a double rounded to `n` places, ties to even.
-/

namespace WebZapret.Py

/-- The nearest integer, ties to even. -/
def roundHalfEven (q : Rat) : Int :=
  let n := q.floor
  let d := q - n
  if d < 1 / 2 then n else if 1 / 2 < d then n + 1 else if n % 2 = 0 then n else n + 1

/-- `2 ^ e` -/
def pow2 (e : Int) : Rat := if 0 ≤ e then (2 : Rat) ^ e.toNat else 1 / (2 : Rat) ^ (-e).toNat

/-- The exponent of a positive number: `2 ^ e ≤ q < 2 ^ (e + 1)`. -/
def exponent (q : Rat) : Int :=
  let e : Int := (Nat.log2 q.num.toNat : Int) - Nat.log2 q.den
  if pow2 e ≤ q then e else e - 1

namespace Flt

/-- The value; NaN and the infinities have none. -/
def toRat? : Flt → Option Rat
  | .fin q => some q
  | .negZero => some 0
  | _ => none

/-- The double nearest to a number. -/
def round (q : Rat) : Flt :=
  if q = 0 then .fin 0
  else
    let a := |q|
    let p := max (exponent a - 52) (-1074)
    let r := (roundHalfEven (a / pow2 p) : Rat) * pow2 p
    if pow2 1024 ≤ r then .inf (q < 0)
    else if q < 0 then (if r = 0 then .negZero else .fin (-r)) else .fin r

/-- `-x` -/
def neg : Flt → Flt
  | .fin q => if q = 0 then .negZero else .fin (-q)
  | .negZero => .fin 0
  | .inf neg => .inf !neg
  | .nan => .nan

/-- `x <= y` of numbers that are not NaN. -/
def le (x y : Flt) : Bool :=
  match x.toRat?, y.toRat? with
  | some p, some q => p ≤ q
  | some _, none => y = .inf false
  | none, _ => x = .inf true ∨ x = y

/-- `x < y` -/
def lt (x y : Flt) : Bool := x ≠ .nan && y ≠ .nan && !y.le x

/-- `abs(x - y)` of a finite `y` -/
def distance (x y : Flt) : Flt :=
  match x.toRat?, y.toRat? with
  | some p, some q => round |p - q|
  | _, _ => if x = .nan then .nan else .inf false

/-- `x * 100` -/
def mul100 : Flt → Flt
  | .fin q => round (q * 100)
  | x => x

end Flt

/-! ## Printing -/

/-- `str(i)` -/
def intStr (i : Int) : Str := lit (toString i)

/-- `"%.{places}f"` of a number given by its sign and its exact size. -/
def fixed (places : Nat) (neg : Bool) (a : Rat) : Str :=
  let n := (roundHalfEven (a * 10 ^ places)).toNat
  let whole := intStr (n / 10 ^ places : Nat)
  let digits := lit (toString (n % 10 ^ places))
  let frac := List.replicate (places - digits.length) 48 ++ digits
  (if neg then lit "-" else []) ++ whole ++ (if places = 0 then [] else 46 :: frac)

/-- `"%.{places}f" % x` -/
def Flt.format (places : Nat) : Flt → Str
  | .fin q => fixed places (q < 0) |q|
  | .negZero => fixed places true 0
  | .inf neg => lit (if neg then "-inf" else "inf")
  | .nan => lit "nan"

end WebZapret.Py
