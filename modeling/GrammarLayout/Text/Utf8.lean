import GrammarLayout.Text.Basic

/-!
# Characters of a text

A text is read as UTF-8 from left to right.  A byte that starts no well-formed
encoding (too short, overlong, a surrogate, above U+10FFFF) stands for itself
as a piece without a code point, so that every text splits into pieces and the
pieces put together are the text.
-/

namespace GrammarLayout

/-- One character of a text, or one byte that belongs to none. -/
structure Piece where
  /-- The code point, or `none` for a byte that starts no character. -/
  code : Option Nat
  /-- The bytes it was read from. -/
  raw : Text
  deriving Repr, DecidableEq

namespace Text

/-- A byte that continues a multi-byte character. -/
def isContinuation (c : UInt8) : Bool := 0x80 ≤ c && c < 0xC0

/-- A code point that UTF-16 uses in pairs; it is no character of its own. -/
def isSurrogate (v : Nat) : Bool := 0xD800 ≤ v && v ≤ 0xDFFF

/-- The six bits that a continuation byte carries. -/
def payload (c : UInt8) : Nat := c.toNat % 64

/-- The code point and the number of bytes of the character a text starts with. -/
def leadChar? : Text → Option (Nat × Nat)
  | [] => none
  | a :: s =>
      if a < 0x80 then some (a.toNat, 1)
      else if a < 0xC2 then none
      else if a < 0xE0 then
        match s with
        | b :: _ => if isContinuation b then some (a.toNat % 32 * 64 + payload b, 2) else none
        | _ => none
      else if a < 0xF0 then
        match s with
        | b :: c :: _ =>
            let v := a.toNat % 16 * 4096 + payload b * 64 + payload c
            if isContinuation b && isContinuation c && 0x800 ≤ v && !isSurrogate v then some (v, 3)
            else none
        | _ => none
      else if a < 0xF5 then
        match s with
        | b :: c :: d :: _ =>
            let v := a.toNat % 8 * 262144 + payload b * 4096 + payload c * 64 + payload d
            if isContinuation b && isContinuation c && isContinuation d && 0x10000 ≤ v
                && v ≤ 0x10FFFF then some (v, 4)
            else none
        | _ => none
      else none

/-- The piece a text starts with; an empty text gives an empty one. -/
def leadPiece (s : Text) : Piece :=
  match leadChar? s with
  | some (v, n) => ⟨some v, s.take n⟩
  | none => ⟨none, s.take 1⟩

/-- The pieces of a text after its first `skip` bytes. -/
def piecesFrom : Nat → Text → List Piece
  | _, [] => []
  | skip + 1, _ :: s => piecesFrom skip s
  | 0, c :: s => leadPiece (c :: s) :: piecesFrom ((leadPiece (c :: s)).raw.length - 1) s

/-- The pieces of a text, in order. -/
def pieces (s : Text) : List Piece := piecesFrom 0 s

/-- The text that the pieces were read from. -/
def ofPieces (rs : List Piece) : Text := rs.flatMap Piece.raw

/-- The encoding of a code point; surrogates and numbers beyond Unicode have none. -/
def encodeChar (v : Nat) : Text :=
  if v < 0x80 then [v.toUInt8]
  else if v < 0x800 then [(0xC0 + v / 64).toUInt8, (0x80 + v % 64).toUInt8]
  else if isSurrogate v then []
  else if v < 0x10000 then
    [(0xE0 + v / 4096).toUInt8, (0x80 + v / 64 % 64).toUInt8, (0x80 + v % 64).toUInt8]
  else if v ≤ 0x10FFFF then
    [(0xF0 + v / 262144).toUInt8, (0x80 + v / 4096 % 64).toUInt8, (0x80 + v / 64 % 64).toUInt8,
      (0x80 + v % 64).toUInt8]
  else []

/-- The code point that stands in for a byte that belongs to no character. -/
def replacement : Nat := 0xFFFD

/-- Is every byte part of a character? -/
def isUtf8 (s : Text) : Bool := (pieces s).all fun r => r.code.isSome

end Text

end GrammarLayout
