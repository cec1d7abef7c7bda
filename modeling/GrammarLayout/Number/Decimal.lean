import GrammarLayout.Number.Double

/-!
# Doubles in decimal

Two ways to write a double: with a fixed number of places, rounding its exact
value (`fixed`), and with the fewest digits that read back as the same double
(`shortest`), of which the nearest to the value are taken.
-/

namespace GrammarLayout

namespace Double

open Text

/-! ## Fixed places -/

/-- The exact value of a finite double as numerator and denominator. -/
def ratio (m : Nat) (e : Int) : Nat × Nat := scale m 1 e

/-- The double with `places` digits after the point; the exact value is rounded, a tie goes to the
even digit. -/
def fixed (places : Nat) : Double → Text
  | finite negative m e =>
      let (n, d) := ratio m e
      let scaled := roundDiv (n * tenTo places) d
      let whole := ofNat (scaled / tenTo places)
      let fraction := padStart places 0x30 (ofNat (scaled % tenTo places))
      (if negative then [Ascii.minus] else []) ++ whole
        ++ (if places = 0 then [] else Ascii.dot :: fraction)
  | infinite negative => if negative then bytes "-Inf" else bytes "+Inf"
  | nan => bytes "NaN"

/-! ## The fewest digits -/

/-- Digits and the power of ten that the last of them counts. -/
structure Decimal where
  /-- The digits as one number. -/
  digits : Nat
  /-- The power of ten. -/
  exponent : Int
  deriving Repr, DecidableEq

/-- The candidates with unit `10 ^ k` next to the double `m * 2 ^ e` that read back as it. -/
def neighbours (negative : Bool) (m : Nat) (e k : Int) : List Decimal :=
  let (n, d) := scale m 1 e
  let (n, d) := if 0 ≤ k then (n, d * tenTo k.toNat) else (n * tenTo (-k).toNat, d)
  let low := n / d
  -- the nearer of the two stands first
  let both := if 2 * (n % d) ≤ d then [low, low + 1] else [low + 1, low]
  (both.filter fun c => ofDecimal negative c k == finite negative m e).map (⟨·, k⟩)

/-- The decimal with the largest unit, from `10 ^ k` down, that reads back as the double. -/
def shortestFrom (negative : Bool) (m : Nat) (e : Int) : Nat → Int → Decimal
  | 0, _ => ⟨0, 0⟩
  | fuel + 1, k =>
      match neighbours negative m e k with
      | c :: _ => c
      | [] => shortestFrom negative m e fuel (k - 1)

/-- The fewest digits that read back as a positive finite double: at most 17 of them. -/
def shortest (m : Nat) (e : Int) : Decimal :=
  let (n, d) := scale m 1 e
  let digits := if d ≤ n then ((ofNat (n / d)).length : Int) else 1 - ((ofNat (d / n)).length : Int)
  shortestFrom false m e 20 (digits + 1)

end Double

end GrammarLayout
