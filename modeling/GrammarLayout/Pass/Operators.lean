import GrammarLayout.Grammar.Braces

/-!
# Operators in action code

`spaceOperators` puts one space on each side of assignments and of `<<` in a
line of code and turns every run of blanks into one space.  Comparisons, quoted
literals and comments keep their operators as they are.

The scan looks at one byte at a time.  `operatorAt?` decides whether an
operator starts at a byte, from the text before it (in reverse) and the text
from it on.
-/

namespace GrammarLayout

open Ascii Text

/-! ## Recognising operators -/

/-- Does the text start with a byte of `set`? -/
def headIn (set : Text) (s : Text) : Bool := s.head?.any fun c => set.contains c

/-- A byte that may end the target of an assignment. -/
def isTargetEnd (c : UInt8) : Bool :=
  c == underscore || c == 0x5D || c == 0x29 || isDigit c || isLower c || isUpper c || 0x80 ≤ c

/-- Does the text before, given in reverse, end in the target of an assignment? -/
def assignable (seen : Text) : Bool := (seen.dropWhile isBlank).head?.any isTargetEnd

/-- The operator that starts at `s`, where `seen` is the text before it in reverse. -/
def operatorAt? (seen s : Text) : Option Text :=
  if startsWith (bytes "||=") s || startsWith (bytes "&&=") s then
    if assignable seen && !headIn [equals] (s.drop 3) then some (s.take 3) else none
  else if startsWith (bytes "<<") s then
    if headIn (bytes "<") seen || headIn (bytes "<=~-\"'") (s.drop 2)
        || (s.drop 2).head?.any isUpper then none
    else some (s.take 2)
  else if headIn (bytes "+-*/") s && headIn [equals] (s.drop 1) then
    if headIn (s.take 1) seen then none
    else if assignable seen && !headIn [equals] (s.drop 2) then some (s.take 2)
    else none
  else if startsWith [equals] s then
    if headIn (bytes "=!<>+-*/|&%^~") seen || headIn (bytes "=~>") (s.drop 1) then none
    else if assignable seen then some [equals]
    else none
  else none

/-! ## Writing them -/

/-- What the scan does with the next byte. -/
inductive OperatorScan where
  /-- Reads code or a literal. -/
  | text (q : Quoting)
  /-- Passes over bytes of the operator just written. -/
  | operator (left : Nat)
  /-- Passes over blanks behind an operator. -/
  | gap
  deriving Repr, DecidableEq

/-- What comes after an operator of which `left` bytes are still to be passed over. -/
def OperatorScan.after (left : Nat) : OperatorScan := if left = 0 then .gap else .operator left

/-- The output, in reverse, with an operator written behind it. -/
def writeOperator (out op : Text) : Text :=
  let before := out.dropWhile isBlank
  space :: op.reverse ++ (if before.isEmpty then [] else space :: before)

/-- The text with its operators spaced; `seen` and `out` are what was read and written, in
reverse. -/
def spaceFrom (m : OperatorScan) (seen out : Text) : Text → Text
  | [] => out.reverse
  | c :: s =>
      let code (_ : Unit) : Text :=
        if isQuote c then spaceFrom (.text (.literal c)) (c :: seen) (c :: out) s
        else if c = hash then out.reverse ++ c :: s
        else
          match operatorAt? seen (c :: s) with
          | some op => spaceFrom (.after (op.length - 1)) (c :: seen) (writeOperator out op) s
          | none => spaceFrom (.text .code) (c :: seen) (c :: out) s
      match m with
      | .operator left => spaceFrom (.after (left - 1)) (c :: seen) out s
      | .gap => if isBlank c then spaceFrom .gap (c :: seen) out s else code ()
      | .text .code => code ()
      | .text q => spaceFrom (.text (q.next c)) (c :: seen) (c :: out) s

/-- The text with every run of blanks made one space. -/
def collapseBlanks : Text → Text
  | [] => []
  | c :: s =>
      if isBlank c then
        if s.head?.any isBlank then collapseBlanks s else space :: collapseBlanks s
      else c :: collapseBlanks s

/-- The line of code with one space around each operator and in place of each run of blanks. -/
def spaceOperators (line : Text) : Text :=
  trimEndWhile (· == space) (collapseBlanks (spaceFrom (.text .code) [] [] line))

end GrammarLayout
