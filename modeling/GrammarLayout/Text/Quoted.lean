import GrammarLayout.Text.Category

/-!
# Quoted texts in messages

A text shown in a message stands between double quotes.  Printable characters
are written as they are, except the quote and the backslash, which are
escaped; control characters have short names where there are any; what is left
is written by its number, a byte that belongs to no character with two digits.
-/

namespace GrammarLayout

/-- The last `n` hexadecimal digits of a number. -/
def hexDigits : Nat → Nat → Text
  | 0, _ => []
  | n + 1, v => hexDigits n (v / 16) ++ [Ascii.hexDigit (v % 16)]

/-- The letter that names a control character in an escape. -/
def escapeLetter? (v : Nat) : Option UInt8 :=
  match v with
  | 0x07 => some 0x61
  | 0x08 => some 0x62
  | 0x0C => some 0x66
  | 0x0A => some 0x6E
  | 0x0D => some 0x72
  | 0x09 => some 0x74
  | 0x0B => some 0x76
  | _ => none

namespace Piece

/-- A piece as it stands between quotes. -/
def quoted (r : Piece) : Text :=
  match r.code with
  | none => r.raw.flatMap fun c => bytes "\\x" ++ hexDigits 2 c.toNat
  | some v =>
      if v == 0x22 || v == 0x5C then Ascii.backslash :: r.raw
      else if isPrintable v then r.raw
      else
        match escapeLetter? v with
        | some l => [Ascii.backslash, l]
        | none =>
            if v < 0x20 || v == 0x7F then bytes "\\x" ++ hexDigits 2 v
            else if v < 0x10000 then bytes "\\u" ++ hexDigits 4 v
            else bytes "\\U" ++ hexDigits 8 v

end Piece

namespace Text

/-- The text between double quotes, with everything escaped that would not show as it is. -/
def quoted (s : Text) : Text :=
  Ascii.doubleQuote :: (pieces s).flatMap Piece.quoted ++ [Ascii.doubleQuote]

end Text

end GrammarLayout
