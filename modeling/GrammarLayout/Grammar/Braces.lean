import GrammarLayout.Text.Blank

/-!
# Braces, quotes and pipes of one line

The text of a production mixes grammar symbols, quoted literals and action
blocks `{ … }`.  This file finds the parts of such a line:

1. `Quoting` follows the quoted literals, in which braces and pipes mean
   nothing;
2. `openingBrace?` and `matchingBrace?` locate a block, and `BlockLine` cuts a
   line into its complete blocks and the text around them;
3. `splitInline?` separates a production from a block at its end;
4. `alternatives` cuts a line at the pipes outside quotes, blocks and comments.

Quotes matter only for finding where a block opens: between its braces every
brace counts.
-/

namespace GrammarLayout

open Ascii Text

/-! ## Quoted literals -/

/-- Where a scan of a line stands with respect to quoted literals. -/
inductive Quoting where
  /-- Outside every literal. -/
  | code
  /-- Inside a literal that `quote` closes. -/
  | literal (quote : UInt8)
  /-- Just after a backslash in a literal that `quote` closes. -/
  | escape (quote : UInt8)
  deriving Repr, DecidableEq

/-- A byte that opens a literal. -/
def isQuote (c : UInt8) : Bool := c == singleQuote || c == doubleQuote

/-- The state after reading one more byte. -/
def Quoting.next : Quoting → UInt8 → Quoting
  | .code, c => if isQuote c then .literal c else .code
  | .literal q, c => if c = backslash then .escape q else if c = q then .code else .literal q
  | .escape q, _ => .literal q

/-! ## Blocks -/

/-- The number of opening braces less the number of closing ones, quoted or not. -/
def braceBalance (s : Text) : Int := (s.count openBrace : Int) - s.count closeBrace

/-- The position of the first opening brace outside literals, read from state `q`. -/
def openingBraceFrom (q : Quoting) : Text → Option Nat
  | [] => none
  | c :: s =>
      if q = .code ∧ c = openBrace then some 0 else (openingBraceFrom (q.next c) s).map (· + 1)

/-- The position of the first opening brace outside literals. -/
def openingBrace? (s : Text) : Option Nat := openingBraceFrom .code s

/-- The position at which a closing brace brings the depth back to zero. -/
def closingBraceFrom (depth : Int) : Text → Option Nat
  | [] => none
  | c :: s =>
      if c = openBrace then (closingBraceFrom (depth + 1) s).map (· + 1)
      else if c = closeBrace then
        if depth = 1 then some 0 else (closingBraceFrom (depth - 1) s).map (· + 1)
      else (closingBraceFrom depth s).map (· + 1)

/-- The position of the brace that closes the one at position `i`. -/
def matchingBrace? (s : Text) (i : Nat) : Option Nat :=
  (closingBraceFrom 0 (s.drop i)).map (· + i)

/-- A complete block and the text in front of it. -/
structure Block where
  /-- The text before the opening brace. -/
  before : Text
  /-- The text between the braces. -/
  inner : Text
  deriving Repr, DecidableEq

/-- A line as its complete blocks in order and the text after the last of them. -/
structure BlockLine where
  /-- The complete blocks. -/
  blocks : List Block
  /-- What follows them; it has no complete block. -/
  tail : Text
  deriving Repr, DecidableEq

/-- The first opening brace's block and the text after it, if the block is complete. -/
def firstBlock? (s : Text) : Option (Block × Text) := do
  let i ← openingBrace? s
  let j ← matchingBrace? s i
  some (⟨s.take i, (s.take j).drop (i + 1)⟩, s.drop (j + 1))

/-- At most `fuel` blocks of a line. -/
def blockLineWithin : Nat → Text → BlockLine
  | 0, s => ⟨[], s⟩
  | fuel + 1, s =>
      match firstBlock? s with
      | none => ⟨[], s⟩
      | some (b, rest) =>
          let line := blockLineWithin fuel rest
          ⟨b :: line.blocks, line.tail⟩

/-- The blocks of a line; each takes two bytes at least, so the length bounds their number. -/
def blockLine (s : Text) : BlockLine := blockLineWithin s.length s

/-- The line with `f` applied to the text inside each complete block. -/
def mapBlocks (f : Text → Text) (s : Text) : Text :=
  let line := blockLine s
  line.blocks.flatMap (fun b => b.before ++ openBrace :: f b.inner ++ [closeBrace]) ++ line.tail

/-- The texts inside the complete blocks of a line. -/
def blockInners (s : Text) : List Text := (blockLine s).blocks.map Block.inner

/-- The position of the first opening brace whose block the line does not complete. -/
def unclosedBrace? (s : Text) : Option Nat :=
  let tail := (blockLine s).tail
  (openingBrace? tail).map (· + (s.length - tail.length))

/-- The text before a block that ends a production, and the text inside that block. -/
def splitInline? (production : Text) : Option (Text × Text) := do
  let (block, rest) ← firstBlock? production
  if isSpaces rest then some (trimBlanksEnd block.before, block.inner) else none

/-- A production text followed by a one-line block. -/
def joinInline (text inner : Text) : Text :=
  (if text.isEmpty then [] else text ++ [space])
    ++ (if inner.isEmpty then bytes "\x7b \x7d" else bytes "\x7b " ++ inner ++ bytes " \x7d")

/-! ## Alternatives -/

/-- The first alternative and the later ones, read from state `q` at brace depth `depth`. -/
def alternativesFrom (q : Quoting) (depth : Int) : Text → Text × List Text
  | [] => ([], [])
  | c :: s =>
      let extend (r : Text × List Text) : Text × List Text := (c :: r.1, r.2)
      if q ≠ .code ∨ isQuote c then extend (alternativesFrom (q.next c) depth s)
      else if c = openBrace then extend (alternativesFrom .code (depth + 1) s)
      else if c = closeBrace then extend (alternativesFrom .code (depth - 1) s)
      else if c = hash ∧ depth ≤ 0 then (c :: s, [])
      else if c = pipe ∧ depth ≤ 0 then
        let r := alternativesFrom .code depth s
        ([], r.1 :: r.2)
      else extend (alternativesFrom .code depth s)

/-- The parts of a line between the pipes that divide alternatives; a comment is not cut. -/
def alternatives (s : Text) : Text × List Text := alternativesFrom .code 0 s

end GrammarLayout
