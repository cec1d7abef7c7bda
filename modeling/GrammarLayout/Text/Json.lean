import GrammarLayout.Number.Decimal
import GrammarLayout.Text.Utf8

/-!
# Writing JSON

Reports and traces are written as JSON, on one line or indented by two spaces.
Besides what JSON demands, the signs `<`, `>`, `&` and the two Unicode line
separators are escaped, and a byte that belongs to no character is written as
the replacement character.
-/

namespace GrammarLayout

open Text

/-- A JSON value; the keys of an object are written in the given order. -/
inductive Json where
  /-- A truth value. -/
  | flag (b : Bool)
  /-- A number, by its digits. -/
  | number (digits : Text)
  /-- A string. -/
  | string (t : Text)
  /-- An array. -/
  | array (items : List Json)
  /-- An object. -/
  | object (entries : List (Text × Json))
  deriving Repr, Inhabited

namespace Json

/-! ## Strings and numbers -/

/-- A code point written by its number. -/
def escapeCode (v : Nat) : Text :=
  bytes "\\u" ++ [Ascii.hexDigit (v / 4096 % 16), Ascii.hexDigit (v / 256 % 16),
    Ascii.hexDigit (v / 16 % 16), Ascii.hexDigit (v % 16)]

/-- A piece as it stands in a string. -/
def escapePiece (r : Piece) : Text :=
  match r.code with
  | none => encodeChar replacement
  | some v =>
      if v == 0x22 || v == 0x5C then Ascii.backslash :: r.raw
      else if v == 0x08 then bytes "\\b"
      else if v == 0x0C then bytes "\\f"
      else if v == 0x0A then bytes "\\n"
      else if v == 0x0D then bytes "\\r"
      else if v == 0x09 then bytes "\\t"
      else if v < 0x20 || v == 0x3C || v == 0x3E || v == 0x26 || v == 0x2028 || v == 0x2029 then
        escapeCode v
      else r.raw

/-- A text as a JSON string. -/
def quote (t : Text) : Text :=
  Ascii.doubleQuote :: (pieces t).flatMap escapePiece ++ [Ascii.doubleQuote]

/-- Digits with the point behind the first `n` of them; zeros fill what is missing. -/
def placePoint (digits : Text) (n : Int) : Text :=
  if n ≤ 0 then bytes "0." ++ List.replicate (-n).toNat 0x30 ++ digits
  else if digits.length ≤ n.toNat then digits ++ List.replicate (n.toNat - digits.length) 0x30
  else digits.take n.toNat ++ Ascii.dot :: digits.drop n.toNat

/-- Digits in scientific notation, the first of them counting `10 ^ e`. -/
def scientific (digits : Text) (e : Int) : Text :=
  digits.take 1 ++ (if digits.length = 1 then [] else Ascii.dot :: digits.drop 1)
    ++ bytes "e" ++ (if e < 0 then [] else bytes "+") ++ ofInt e

/-- A double with the fewest digits that read back as it: positional from `10 ^ -6` up to
`10 ^ 21`, scientific outside. -/
def ofDouble : Double → Json
  | .finite negative m e =>
      let sign := if negative then [Ascii.minus] else []
      if m = 0 then number (sign ++ bytes "0")
      else
        let d := Double.shortest m e
        let digits := ofNat d.digits
        let top := d.exponent + digits.length
        if -6 < top && top ≤ 21 then number (sign ++ placePoint digits top)
        else number (sign ++ scientific digits (top - 1))
  | _ => number (bytes "0")

/-- A whole number. -/
def ofInt (n : Int) : Json := number (Text.ofInt n)

/-! ## On one line -/

mutual

/-- The value on one line, without blanks. -/
def compact : Json → Text
  | flag b => if b then bytes "true" else bytes "false"
  | number digits => digits
  | string t => quote t
  | array items => bytes "[" ++ join (bytes ",") (compactItems items) ++ bytes "]"
  | object entries => bytes "\x7b" ++ join (bytes ",") (compactEntries entries) ++ bytes "\x7d"

/-- The items of an array. -/
def compactItems : List Json → List Text
  | [] => []
  | j :: js => compact j :: compactItems js

/-- The entries of an object. -/
def compactEntries : List (Text × Json) → List Text
  | [] => []
  | e :: es => compactEntry e :: compactEntries es

/-- One entry of an object. -/
def compactEntry : Text × Json → Text
  | (key, value) => quote key ++ bytes ":" ++ compact value

end

/-! ## Indented -/

/-- The items between brackets, each on a line of its own at the given depth. -/
def bracketed (opening closing : Text) (depth : Nat) (items : List Text) : Text :=
  if items.isEmpty then opening ++ closing
  else
    let indent (n : Nat) : Text := List.replicate (2 * n) Ascii.space
    opening ++ bytes "\n" ++ join (bytes ",\n") (items.map (indent (depth + 1) ++ ·)) ++ bytes "\n"
      ++ indent depth ++ closing

mutual

/-- The value on several lines, indented by two spaces for each level. -/
def indented (depth : Nat) : Json → Text
  | flag b => if b then bytes "true" else bytes "false"
  | number digits => digits
  | string t => quote t
  | array items => bracketed (bytes "[") (bytes "]") depth (indentedItems (depth + 1) items)
  | object entries =>
      bracketed (bytes "\x7b") (bytes "\x7d") depth (indentedEntries (depth + 1) entries)

/-- The items of an array. -/
def indentedItems (depth : Nat) : List Json → List Text
  | [] => []
  | j :: js => indented depth j :: indentedItems depth js

/-- The entries of an object. -/
def indentedEntries (depth : Nat) : List (Text × Json) → List Text
  | [] => []
  | e :: es => indentedEntry depth e :: indentedEntries depth es

/-- One entry of an object. -/
def indentedEntry (depth : Nat) : Text × Json → Text
  | (key, value) => quote key ++ bytes ": " ++ indented depth value

end

end Json

end GrammarLayout
