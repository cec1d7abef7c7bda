import GrammarLayout.Toml.Literal
import GrammarLayout.Toml.Number
import GrammarLayout.Toml.Quote

/-!
# Reading a TOML document

`statements?` gives the statements of a text, if it is well formed.  Values
nest, so the readers of values take a bound on the depth; the length of the
text is always enough.
-/

namespace GrammarLayout.Toml

open Ascii Text

/-! ## Between the parts -/

/-- A text without the white space, newlines and comments it starts with. -/
def skipTrivia : Bool → Text → Text
  | _, [] => []
  | inComment, c :: s =>
      if inComment then skipTrivia (c != newline) s
      else if isLayout c then skipTrivia false s
      else if c = hash then skipTrivia true s
      else c :: s

/-- What follows the end of a line; only blanks and a comment may stand before it. -/
def lineEnd? (s : Text) : Option Text :=
  match trimBlanksStart s with
  | [] => some []
  | c :: r =>
      if endsLine c then some r
      else if c = hash then some (r.dropWhile fun d => !endsLine d)
      else none

/-! ## Values -/

/-- The words that are values. -/
def words : List (Text × Setting) :=
  [ (bytes "true", .flag true), (bytes "false", .flag false),
    (bytes "inf", .float (.infinite false)), (bytes "+inf", .float (.infinite false)),
    (bytes "-inf", .float (.infinite true)), (bytes "nan", .float .nan),
    (bytes "+nan", .float .nan), (bytes "-nan", .float .nan) ]

/-- The word that a text starts with. -/
def word? (s : Text) : Option (Setting × Text) :=
  (words.find? fun w => startsWith w.1 s).map fun w => (w.2, s.drop w.1.length)

/-- A string, after its first quote. -/
def string? (quote : UInt8) (s : Text) : Option (Text × Text) :=
  if startsWith [quote, quote] s then
    if quote = doubleQuote then longBasic? (s.drop 2) else longLiteral? (s.drop 2)
  else if quote = doubleQuote then basic? s
  else literal? s

/-- A value that has no parts. -/
def plain? (s : Text) : Option (Setting × Text) :=
  match s with
  | [] => none
  | c :: r =>
      if c = doubleQuote || c = singleQuote then (string? c r).map fun t => (.text t.1, t.2)
      else (word? s).or (number? s)

mutual

/-- The value that a text starts with, blanks left out. -/
def value? : Nat → Text → Option (Literal × Text)
  | 0, _ => none
  | n + 1, s =>
      match trimBlanksStart s with
      | [] => none
      | c :: r =>
          if c = 0x5B then (items? n r).map fun v => (.array v.1, v.2)
          else if c = openBrace then
            match trimBlanksStart r with
            | [] => none
            | d :: rest =>
                if d = closeBrace then some (.inline [], rest)
                else (pairs? n (d :: rest)).map fun v => (.inline v.1, v.2)
          else (plain? (c :: r)).map fun v => (.plain v.1, v.2)

/-- The rest of an array up to its closing bracket; a comma may stand before that. -/
def items? : Nat → Text → Option (List Literal × Text)
  | 0, _ => none
  | n + 1, s =>
      match skipTrivia false s with
      | [] => none
      | c :: r =>
          if c = 0x5D then some ([], r)
          else do
            let (v, rest) ← value? n (c :: r)
            match skipTrivia false rest with
            | [] => none
            | d :: more =>
                if d = 0x5D then some ([v], more)
                else if d = 0x2C then
                  let (vs, more) ← items? n more
                  some (v :: vs, more)
                else none

/-- The rest of an inline table up to its closing brace. -/
def pairs? : Nat → Text → Option (List (Key × Literal) × Text)
  | 0, _ => none
  | n + 1, s => do
      let (key, rest) ← key? s.length s
      let rest ← after? equals rest
      let (v, rest) ← value? n rest
      match trimBlanksStart rest with
      | [] => none
      | d :: more =>
          if d = closeBrace then some ([(key, v)], more)
          else if d = 0x2C then
            let (ps, more) ← pairs? n more
            some ((key, v) :: ps, more)
          else none

end

/-! ## Statements -/

/-- The statement that a text starts with. -/
def statement? (s : Text) : Option (Statement × Text) :=
  match s with
  | [] => none
  | c :: r =>
      if c ≠ 0x5B then do
        let (key, rest) ← key? s.length s
        let rest ← after? equals rest
        let (v, rest) ← value? s.length rest
        some (.assign key v, rest)
      else if startsWith [0x5B] r then do
        let (key, rest) ← key? s.length (r.drop 1)
        let rest ← after? 0x5D rest
        let rest ← after? 0x5D rest
        some (.element key, rest)
      else do
        let (key, rest) ← key? s.length r
        let rest ← after? 0x5D rest
        some (.table key, rest)

/-- The statements of a text, at most so many. -/
def statementsFrom? : Nat → Text → Option (List Statement)
  | 0, s => if (skipTrivia false s).isEmpty then some [] else none
  | n + 1, s =>
      match skipTrivia false s with
      | [] => some []
      | c :: r => do
          let (first, rest) ← statement? (c :: r)
          let rest ← lineEnd? rest
          let more ← statementsFrom? n rest
          some (first :: more)

/-- A text without the mark of its encoding. -/
def dropEncodingMark (s : Text) : Text :=
  if startsWith [0xFF, 0xFE] s || startsWith [0xFE, 0xFF] s then s.drop 2
  else dropStart [0xEF, 0xBB, 0xBF] s

/-- Are all bytes allowed: no control bytes but tabs and line ends? -/
def noControls : Text → Bool
  | [] => true
  | c :: s =>
      (if c = carriageReturn then startsWith [newline] s
       else c = tab || c = newline || (space ≤ c && c ≠ 0x7F)) && noControls s

/-- The statements of a document. -/
def statements? (s : Text) : Option (List Statement) :=
  let text := dropEncodingMark s
  if isUtf8 text && noControls text then statementsFrom? text.length text else none

end GrammarLayout.Toml
