import GrammarLayout.Text.Utf8

/-!
# White space

The characters with the Unicode property `White_Space`, and the operations
that remove them: from both ends of a text (`trim`), or everywhere, which
leaves the text's ink.  A byte that belongs to no character is never white
space.
-/

namespace GrammarLayout

/-- The code points with the property `White_Space`. -/
def isWhiteSpace (v : Nat) : Bool :=
  (0x09 ≤ v && v ≤ 0x0D) || v == 0x20 || v == 0x85 || v == 0xA0 || v == 0x1680
    || (0x2000 ≤ v && v ≤ 0x200A) || v == 0x2028 || v == 0x2029 || v == 0x202F || v == 0x205F
    || v == 0x3000

namespace Piece

/-- Is the piece a white-space character? -/
def isSpace (r : Piece) : Bool := r.code.any isWhiteSpace

end Piece

namespace Text

/-- A text without the white space in front of it. -/
def trimStart (s : Text) : Text := ofPieces ((pieces s).dropWhile Piece.isSpace)

/-- A text without the white space at both ends. -/
def trim (s : Text) : Text :=
  ofPieces (((pieces s).dropWhile Piece.isSpace).reverse.dropWhile Piece.isSpace).reverse

/-- Does a text hold nothing but white space? -/
def isSpaces (s : Text) : Bool := (pieces s).all Piece.isSpace

/-- The text with all white space deleted. -/
def ink (s : Text) : Text := ofPieces ((pieces s).filter fun r => !r.isSpace)

end Text

end GrammarLayout
