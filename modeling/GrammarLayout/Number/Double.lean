import GrammarLayout.Number.Power
import GrammarLayout.Text.Basic

/-!
# Floating-point numbers

A double is kept as what it stands for: a sign and a mantissa times a power of
two, an infinity, or no number at all.  All arithmetic is exact on fractions
and rounded once at the end (`ofRatio`), to the nearest double and in a tie to
the even one.
-/

namespace GrammarLayout

/-- A floating-point number with 53 bits. -/
inductive Double where
  /-- The number `mantissa * 2 ^ exponent`, negated if `negative`. -/
  | finite (negative : Bool) (mantissa : Nat) (exponent : Int)
  /-- An infinity. -/
  | infinite (negative : Bool)
  /-- No number. -/
  | nan
  deriving Repr, DecidableEq

namespace Double

/-- Zero. -/
def zero : Double := finite false 0 (-1074)

/-- The quotient rounded to a whole number, in a tie to the even one. -/
def roundDiv (num den : Nat) : Nat :=
  let q := num / den
  let twice := 2 * (num % den)
  if twice < den then q else if den < twice then q + 1 else if q % 2 = 0 then q else q + 1

/-- The fraction `num / den` times a power of two, as numerator and denominator. -/
def scale (num den : Nat) (e : Int) : Nat × Nat :=
  if 0 ≤ e then (num * twoTo e.toNat, den) else (num, den * twoTo (-e).toNat)

/-- The double nearest to `num / den`. -/
def ofRatio (negative : Bool) (num den : Nat) : Double :=
  if num = 0 ∨ den = 0 then finite negative 0 (-1074)
  else
    -- the quotient lies between 2 ^ (guess - 1) and 2 ^ (guess + 1)
    let guess : Int := (Nat.log2 num : Int) - Nat.log2 den
    let top : Int :=
      let (n, d) := scale num den (-guess)
      if n < d then guess - 1 else guess
    let exponent : Int := max (top - 52) (-1074)
    let (n, d) := scale num den (-exponent)
    let m := roundDiv n d
    let (m, exponent) := if m = twoTo 53 then (twoTo 52, exponent + 1) else (m, exponent)
    if 971 < exponent then infinite negative else finite negative m exponent

/-- The double nearest to `mantissa * 10 ^ exponent`.  The number of digits before the point tells
when the number is beyond every double, or closer to zero than to any other. -/
def ofDecimal (negative : Bool) (mantissa : Nat) (exponent : Int) : Double :=
  let places : Int := (Text.ofNat mantissa).length + exponent
  if mantissa = 0 ∨ places < -330 then finite negative 0 (-1074)
  else if 310 < places then infinite negative
  else if 0 ≤ exponent then ofRatio negative (mantissa * tenTo exponent.toNat) 1
  else ofRatio negative mantissa (tenTo (-exponent).toNat)

/-- The whole number that a double stands for, if it stands for one. -/
def whole? : Double → Option Int
  | finite negative m e =>
      let (n, d) := scale m 1 e
      if n % d = 0 then
        let v : Int := (n / d : Nat)
        some (if negative then -v else v)
      else none
  | _ => none

/-- The sum, rounded once. -/
def add : Double → Double → Double
  | finite s m e, finite t n f =>
      let low := min e f
      let x : Int := (m * twoTo (e - low).toNat : Nat)
      let y : Int := (n * twoTo (f - low).toNat : Nat)
      let sum := (if s then -x else x) + (if t then -y else y)
      if sum = 0 then finite (s && t) 0 (-1074)
      else
        let (num, den) := scale sum.natAbs 1 low
        ofRatio (sum < 0) num den
  | infinite s, infinite t => if s = t then infinite s else nan
  | infinite s, finite .. => infinite s
  | finite .., infinite t => infinite t
  | nan, _ => nan
  | _, nan => nan

/-- The quotient by a positive whole number, rounded once. -/
def divNat : Double → Nat → Double
  | finite s m e, n =>
      let (num, den) := scale m 1 e
      ofRatio s num (den * n)
  | x, _ => x

/-- The 64 bits of a double: sign, biased exponent and fraction. -/
def toBits : Double → Nat
  | finite negative m e =>
      let sign := if negative then twoTo 63 else 0
      if m < twoTo 52 then sign + m
      else sign + (e + 1075).toNat * twoTo 52 + (m - twoTo 52)
  | infinite negative => (if negative then twoTo 63 else 0) + 2047 * twoTo 52
  | nan => 2047 * twoTo 52 + twoTo 51

/-- Does a minus sign stand in front? -/
def isNegative : Double → Bool
  | finite negative _ _ => negative
  | infinite negative => negative
  | nan => false

end Double

end GrammarLayout
