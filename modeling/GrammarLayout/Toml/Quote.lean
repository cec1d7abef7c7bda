import GrammarLayout.Text.Utf8

/-!
# Strings and keys of TOML

A string stands in double quotes, with escapes, or in single quotes, without.
Between three quotes it may span lines.  Each reader here takes the text from
the place where its part begins and gives the part and what follows it.
-/

namespace GrammarLayout.Toml

open Ascii Text

/-! ## Escapes -/

/-- The number that hexadecimal digits stand for. -/
def hexNumber? (digits : Text) : Option Nat :=
  digits.foldlM (fun n c => (hexValue? c).map (n * 16 + ·)) 0

/-- The character that hexadecimal digits name. -/
def hexChar? (digits : Text) : Option Text := do
  let v ← hexNumber? digits
  if v ≤ 0x10FFFF && !isSurrogate v then some (encodeChar v) else none

/-- The byte that a letter stands for after a backslash. -/
def escaped? (c : UInt8) : Option UInt8 :=
  if c = 0x62 then some 0x08
  else if c = 0x74 then some tab
  else if c = 0x6E then some newline
  else if c = 0x66 then some 0x0C
  else if c = 0x72 then some carriageReturn
  else if c = doubleQuote || c = backslash then some c
  else none

/-- A text with its escapes replaced. -/
def unescape? : Text → Option Text
  | [] => some []
  | c :: s =>
      if c ≠ backslash then (unescape? s).map (c :: ·)
      else
        match s with
        | [] => none
        | e :: r =>
            match escaped? e with
            | some v => (unescape? r).map (v :: ·)
            | none =>
                if e = 0x75 then
                  match r with
                  | h1 :: h2 :: h3 :: h4 :: r => do
                      let v ← hexChar? [h1, h2, h3, h4]
                      let rest ← unescape? r
                      some (v ++ rest)
                  | _ => none
                else if e = 0x55 then
                  match r with
                  | h1 :: h2 :: h3 :: h4 :: h5 :: h6 :: h7 :: h8 :: r => do
                      let v ← hexChar? [h1, h2, h3, h4, h5, h6, h7, h8]
                      let rest ← unescape? r
                      some (v ++ rest)
                  | _ => none
                else none

/-- A text without the backslashes that end a line and the white space after each of them. -/
def joinEscapedLines : Bool → Text → Text
  | _, [] => []
  | skipping, c :: s =>
      if skipping && isLayout c then joinEscapedLines true s
      else if c ≠ backslash then c :: joinEscapedLines false s
      else
        match s with
        | [] => [c]
        | e :: r =>
            if e = backslash then c :: e :: joinEscapedLines false r
            else if ((e :: r).takeWhile isLayout).contains newline then
              joinEscapedLines true (e :: r)
            else c :: joinEscapedLines false (e :: r)

/-! ## Strings on one line -/

/-- Is the byte part of a line's end? -/
def endsLine (c : UInt8) : Bool := c == newline || c == carriageReturn

/-- The content of a string up to its closing quote; after a backslash any byte may stand. -/
def scanBasic? : Text → Option (Text × Text)
  | [] => none
  | c :: s =>
      if c = doubleQuote then some ([], s)
      else if endsLine c then none
      else if c ≠ backslash then (scanBasic? s).map fun r => (c :: r.1, r.2)
      else
        match s with
        | [] => none
        | e :: s => (scanBasic? s).map fun r => (c :: e :: r.1, r.2)

/-- A string in double quotes, after the opening quote. -/
def basic? (s : Text) : Option (Text × Text) := do
  let (raw, rest) ← scanBasic? s
  let t ← unescape? raw
  some (t, rest)

/-- A string in single quotes, after the opening quote. -/
def literal? (s : Text) : Option (Text × Text) :=
  let content := s.takeWhile fun c => c != singleQuote && !endsLine c
  match s.drop content.length with
  | [] => none
  | c :: rest => if c = singleQuote then some (content, rest) else none

/-! ## Strings on several lines -/

/-- A text without the newline it starts with. -/
def dropFirstNewline (s : Text) : Text :=
  if startsWith [newline] s then s.drop 1
  else dropStart [carriageReturn, newline] s

/-- Do five quotes precede, the first of them not right after a backslash that counts?  The text
before is given from its end. -/
def tooManyQuotes (quote : UInt8) (escapes : Bool) (before : Text) : Bool :=
  let five := List.replicate 5 quote
  startsWith five before && !(escapes && startsWith (five ++ [backslash]) before)

/-- The content up to three closing quotes.  Up to two further quotes before them belong to the
content; the content read so far is given from its end. -/
def scanLong? (quote : UInt8) (escapes : Bool) : Text → Text → Option (Text × Text)
  | _, [] => none
  | acc, c :: s =>
      if c = quote && startsWith [quote, quote] s then
        if startsWith [quote, quote, quote] s then
          if tooManyQuotes quote escapes (quote :: quote :: quote :: acc) then none
          else scanLong? quote escapes (c :: acc) s
        else some (acc.reverse, s.drop 2)
      else if escapes && c = backslash then
        match s with
        | [] => none
        | e :: s => scanLong? quote escapes (e :: c :: acc) s
      else scanLong? quote escapes (c :: acc) s

/-- A string between three double quotes, after the opening quotes. -/
def longBasic? (s : Text) : Option (Text × Text) := do
  let (raw, rest) ← scanLong? doubleQuote true [] s
  let t ← unescape? (joinEscapedLines false (dropFirstNewline raw))
  some (t, rest)

/-- A string between three single quotes, after the opening quotes. -/
def longLiteral? (s : Text) : Option (Text × Text) := do
  let (raw, rest) ← scanLong? singleQuote false [] s
  some (dropFirstNewline raw, rest)

/-! ## Keys -/

/-- A byte of a key without quotes. -/
def isBareByte (c : UInt8) : Bool :=
  isDigit c || isUpper c || isLower c || c == underscore || c == minus

/-- One part of a key. -/
def keyPart? (s : Text) : Option (Text × Text) :=
  match s with
  | [] => none
  | c :: r =>
      if c = doubleQuote then basic? r
      else if c = singleQuote then literal? r
      else if isBareByte c then some (s.takeWhile isBareByte, s.dropWhile isBareByte)
      else none

/-- A key and what follows it, blanks left out.  The number bounds the parts. -/
def key? : Nat → Text → Option (List Text × Text)
  | 0, _ => none
  | n + 1, s => do
      let (part, rest) ← keyPart? (trimBlanksStart s)
      match trimBlanksStart rest with
      | [] => some ([part], [])
      | c :: r =>
          if c = dot then
            let (parts, rest) ← key? n r
            some (part :: parts, rest)
          else some ([part], c :: r)

end GrammarLayout.Toml
