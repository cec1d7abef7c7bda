/-!
# Texts as byte strings

A grammar file may hold any bytes, so a text is a list of bytes and every
offset and length is counted in bytes.  This file holds the operations that
look at single bytes only:

1. the ASCII bytes that have a meaning in a grammar file;
2. cutting a text at its ends (`dropStart`, `trimBlanksEnd`, …);
3. cutting a text at its newlines (`splitOn`, `lines`) and putting the parts
   back (`join`, `List.flatten`);
4. the digits of numbers.

Operations that need whole characters are in `GrammarLayout.Text.Utf8`.
-/

namespace GrammarLayout

/-- A byte string. -/
abbrev Text := List UInt8

/-- The UTF-8 bytes of a string. -/
def bytes (s : String) : Text := s.toByteArray.data.toList

/-! ## Bytes with a meaning -/

namespace Ascii

/-- The horizontal tab. -/
abbrev tab : UInt8 := 0x09
/-- The line feed, which ends a line. -/
abbrev newline : UInt8 := 0x0A
/-- The carriage return. -/
abbrev carriageReturn : UInt8 := 0x0D
/-- The space. -/
abbrev space : UInt8 := 0x20
/-- The double quote. -/
abbrev doubleQuote : UInt8 := 0x22
/-- The hash mark, which starts a comment. -/
abbrev hash : UInt8 := 0x23
/-- The single quote. -/
abbrev singleQuote : UInt8 := 0x27
/-- The minus sign. -/
abbrev minus : UInt8 := 0x2D
/-- The full stop. -/
abbrev dot : UInt8 := 0x2E
/-- The slash, which divides the parts of a path. -/
abbrev slash : UInt8 := 0x2F
/-- The colon, which ends the name of a rule. -/
abbrev colon : UInt8 := 0x3A
/-- The semicolon, which ends a rule. -/
abbrev semicolon : UInt8 := 0x3B
/-- The equals sign. -/
abbrev equals : UInt8 := 0x3D
/-- The backslash, which escapes the next byte of a literal. -/
abbrev backslash : UInt8 := 0x5C
/-- The low line. -/
abbrev underscore : UInt8 := 0x5F
/-- The brace that opens an action. -/
abbrev openBrace : UInt8 := 0x7B
/-- The bar that divides the alternatives of a rule. -/
abbrev pipe : UInt8 := 0x7C
/-- The brace that closes an action. -/
abbrev closeBrace : UInt8 := 0x7D

/-- An ASCII digit. -/
def isDigit (c : UInt8) : Bool := 0x30 ≤ c && c ≤ 0x39

/-- An ASCII capital letter. -/
def isUpper (c : UInt8) : Bool := 0x41 ≤ c && c ≤ 0x5A

/-- An ASCII small letter. -/
def isLower (c : UInt8) : Bool := 0x61 ≤ c && c ≤ 0x7A

/-- The small letter of a capital one; every other byte is kept. -/
def toLower (c : UInt8) : UInt8 := if isUpper c then c + 0x20 else c

/-- The digit `n` in hexadecimal, in small letters. -/
def hexDigit (n : Nat) : UInt8 := if n < 10 then 0x30 + n.toUInt8 else 0x57 + n.toUInt8

/-- The value of a hexadecimal digit of either case. -/
def hexValue? (c : UInt8) : Option Nat :=
  if isDigit c then some (c - 0x30).toNat
  else if 0x61 ≤ c && c ≤ 0x66 then some (c - 0x57).toNat
  else if 0x41 ≤ c && c ≤ 0x46 then some (c - 0x37).toNat
  else none

end Ascii

namespace Text

open Ascii

/-! ## The ends of a text -/

/-- Does `s` start with `p`? -/
def startsWith (p s : Text) : Bool := p.isPrefixOf s

/-- Does `s` end with `p`? -/
def endsWith (p s : Text) : Bool := p.isSuffixOf s

/-- `s` without `p` in front, or `s` itself when it does not start with `p`. -/
def dropStart (p s : Text) : Text := if startsWith p s then s.drop p.length else s

/-- `s` without `p` at its end, or `s` itself when it does not end with `p`. -/
def dropEnd (p s : Text) : Text := if endsWith p s then s.take (s.length - p.length) else s

/-- `s` without the longest run of bytes at its end that all satisfy `p`. -/
def trimEndWhile (p : UInt8 → Bool) (s : Text) : Text := (s.reverse.dropWhile p).reverse

/-- A space or a tab: the bytes that indent a line. -/
def isBlank (c : UInt8) : Bool := c == space || c == tab

/-- The indentation of a line. -/
def leadingBlanks (s : Text) : Text := s.takeWhile isBlank

/-- A line without its indentation. -/
def trimBlanksStart (s : Text) : Text := s.dropWhile isBlank

/-- A line without the spaces and tabs at its end. -/
def trimBlanksEnd (s : Text) : Text := trimEndWhile isBlank s

/-- A space, a tab or one of the two bytes that end lines. -/
def isLayout (c : UInt8) : Bool := isBlank c || c == carriageReturn || c == newline

/-- A line without its terminator, and without further terminators before it. -/
def trimTerminator (s : Text) : Text :=
  trimEndWhile (fun c => c == carriageReturn || c == newline) s

/-! ## Lines -/

/-- The parts of a text between the bytes equal to `sep`; there is always one. -/
def splitOn (sep : UInt8) : Text → List Text
  | [] => [[]]
  | c :: s =>
      if c = sep then [] :: splitOn sep s
      else
        match splitOn sep s with
        | [] => [[c]]
        | p :: ps => (c :: p) :: ps

/-- The parts in order, with `sep` between neighbours. -/
def join (sep : Text) : List Text → Text
  | [] => []
  | [p] => p
  | p :: ps => p ++ sep ++ join sep ps

/-- The lines of a text, each with its newline; only the last may lack one. -/
def lines : Text → List Text
  | [] => []
  | c :: s =>
      if c = newline then [c] :: lines s
      else
        match lines s with
        | [] => [[c]]
        | l :: ls => (c :: l) :: ls

/-- The lines of a text without their newlines; a final newline opens one more, empty line. -/
def splitLines (s : Text) : List Text := splitOn newline s

/-- Pieces joined by newlines. -/
def joinLines (ls : List Text) : Text := join [newline] ls

/-! ## Numbers -/

/-- The decimal digits of a number. -/
def ofNat (n : Nat) : Text := (Nat.toDigits 10 n).map fun c => c.toUInt8

/-- The decimal digits of an integer, after a minus sign when it is negative. -/
def ofInt (n : Int) : Text := if n < 0 then minus :: ofNat n.natAbs else ofNat n.natAbs

/-- A text with `fill` in front of it up to the given length. -/
def padStart (width : Nat) (fill : UInt8) (s : Text) : Text :=
  List.replicate (width - s.length) fill ++ s

/-- The two hexadecimal digits of each byte. -/
def hex (s : Text) : Text :=
  s.flatMap fun c => [hexDigit (c.toNat / 16), hexDigit (c.toNat % 16)]

/-- The bytes that pairs of hexadecimal digits name. -/
def ofHex? : Text → Option Text
  | [] => some []
  | [_] => none
  | a :: b :: s => do
      let hi ← hexValue? a
      let lo ← hexValue? b
      let rest ← ofHex? s
      some ((hi * 16 + lo).toUInt8 :: rest)

/-! ## Order -/

/-- The bytewise order of texts: a text comes before its extensions. -/
def before : Text → Text → Bool
  | [], [] => false
  | [], _ :: _ => true
  | _ :: _, [] => false
  | a :: s, b :: t => a < b || (a == b && before s t)

/-- Bytewise order, or equality. -/
def notAfter (s t : Text) : Bool := !before t s

end Text

end GrammarLayout
