import GrammarLayout.Number.Power
import GrammarLayout.Text.Basic

/-!
# Whole numbers in words

A whole number is written in base ten, or in base two, eight or sixteen after
`0b`, `0o` or `0x`; a leading `0` alone means base eight.  A low line may stand
between two digits or after the mark of a base.  The number has to fit into 64
bits with a sign.
-/

namespace GrammarLayout

open Ascii Text

/-- Why a text is no whole number. -/
inductive IntegerFault where
  /-- It is not written like one. -/
  | malformed
  /-- It does not fit into 64 bits. -/
  | outOfRange
  deriving Repr, DecidableEq

namespace Integer

/-- A text split into its sign and the rest. -/
def splitSign : Text → Bool × Text
  | [] => (false, [])
  | c :: s => if c = minus then (true, s) else if c = 0x2B then (false, s) else (false, c :: s)

/-- The base that the letter after a leading zero stands for. -/
def baseOf? (c : UInt8) : Option Nat :=
  let l := toLower c
  if l = 0x62 then some 2 else if l = 0x6F then some 8 else if l = 0x78 then some 16 else none

/-- The base of a number without sign, and its digits. -/
def splitBase (s : Text) : Nat × Text :=
  match s with
  | [] => (10, [])
  | c :: rest =>
      if c ≠ 0x30 then (10, s)
      else
        match rest with
        | m :: d :: more =>
            match baseOf? m with
            | some b => (b, d :: more)
            | none => (8, rest)
        | _ => (8, rest)

/-- The value of digits after a value `n`, low lines left out. -/
def readDigits (base : Nat) : Nat → Text → Except IntegerFault Nat
  | n, [] => .ok n
  | n, c :: s =>
      if c = underscore then readDigits base n s
      else
        match hexValue? c with
        | none => .error .malformed
        | some d =>
            if base ≤ d then .error .malformed
            else if twoTo 64 ≤ n * base + d then .error .outOfRange
            else readDigits base (n * base + d) s

/-- Does a digit stand on both sides of every low line, given whether one stands in front? -/
def linesDivide (isDigit : UInt8 → Bool) : Bool → Text → Bool
  | _, [] => true
  | before, c :: s =>
      if c = underscore then
        before && (match s with
          | [] => false
          | d :: _ => isDigit d) && linesDivide isDigit false s
      else linesDivide isDigit (isDigit c) s

/-- The low lines of a number without sign stand where they may. -/
def linesOk (s : Text) : Bool :=
  match s with
  | c :: m :: rest =>
      match (if c = 0x30 then baseOf? m else none) with
      | some b => linesDivide (fun d => isDigit d || (b = 16 && (hexValue? d).isSome)) true rest
      | none => linesDivide isDigit false s
  | s => linesDivide isDigit false s

/-- The value of a number without sign. -/
def readMagnitude (s : Text) : Except IntegerFault Nat := do
  if s.isEmpty then throw .malformed
  let (base, digits) := splitBase s
  let n ← readDigits base 0 digits
  if s.contains underscore && !linesOk s then throw .malformed
  return n

/-- The whole number that a text stands for. -/
def read (s : Text) : Except IntegerFault Int := do
  let (negative, magnitude) := splitSign s
  let n ← readMagnitude magnitude
  if negative then
    if twoTo 63 < n then throw .outOfRange else return -(n : Int)
  else
    if twoTo 63 ≤ n then throw .outOfRange else return n

end Integer

end GrammarLayout
