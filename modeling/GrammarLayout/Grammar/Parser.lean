import GrammarLayout.Grammar.Braces
import GrammarLayout.Grammar.Document
import GrammarLayout.Text.Category
import GrammarLayout.Text.Quoted

/-!
# Reading a grammar

A grammar file is read line by line.  Between the lines the reader is in one of
four modes: outside every rule, in the body of a rule, inside an action block
of a rule, or in the sections after the grammar, which are kept as they are.

A line is handled in segments.  `Scan.segment` takes one line and says, besides
the new state, whether a `;` closed the rule and left text that has to be read
as a line of its own; `Scan.line` repeats this until nothing is left.  Comments
met in a rule are written after it, so an open rule carries the lines that
follow it.

Reading fails when a closing brace has no partner, when an action block is left
open at the end of the file, or when the first production of a rule would read
as the header of another.
-/

namespace GrammarLayout

open Ascii Text

/-! ## Errors -/

/-- Why a text is not a grammar. -/
inductive ParseFault where
  /-- The file ends inside an action block of the rule. -/
  | unterminated (rule : Text)
  /-- A line of the rule's body starts with a closing brace. -/
  | strayBrace (rule : Text)
  /-- A line of an action block closes more braces than are open. -/
  | surplusBrace (rule : Text)
  /-- The first production of the rule looks like the header of another rule. -/
  | headerLike (production rule : Text)
  deriving Repr, DecidableEq

/-- A fault and the line it was found on. -/
structure ParseError where
  /-- The number of the line, from 1. -/
  line : Nat
  /-- The fault. -/
  fault : ParseFault
  deriving Repr, DecidableEq

/-- The fault in words. -/
def ParseFault.message : ParseFault → Text
  | unterminated rule => bytes "unterminated action block in rule " ++ quoted rule
  | strayBrace rule => bytes "unexpected '\x7d' outside an action block in rule " ++ quoted rule
  | surplusBrace rule =>
      bytes "unexpected '\x7d' closing more blocks than were opened in rule " ++ quoted rule
  | headerLike production rule =>
      bytes "production " ++ quoted production ++ bytes " of rule " ++ quoted rule
        ++ bytes " reads as a rule header"

/-! ## Headers -/

/-- The layout that may surround a rule's name. -/
def isHeaderSpace (c : UInt8) : Bool :=
  c == space || c == tab || c == newline || c == carriageReturn || c == 0x0C

/-- May the piece stand in a rule's name? -/
def Piece.isWord (r : Piece) : Bool := r.code.any GrammarLayout.isWord

/-- The name of the rule a line declares and the text after its colon. -/
def header? (line : Text) : Option (Text × Text) :=
  let start := line.dropWhile isHeaderSpace
  let name := ofPieces ((pieces start).takeWhile Piece.isWord)
  match (start.drop name.length).dropWhile isHeaderSpace with
  | [] => none
  | c :: rest => if !name.isEmpty && c = colon then some (name, rest) else none

/-! ## The state between two lines -/

/-- A rule that further lines may extend. -/
structure OpenRule where
  /-- The rule so far. -/
  rule : Rule
  /-- The lines met since its header that are kept as they are. -/
  after : List Verbatim
  deriving Repr, DecidableEq

/-- An action block that further lines have to close. -/
structure OpenAction where
  /-- The text so far. -/
  text : Text
  /-- The number of braces that are open. -/
  balance : Int
  /-- The number of the production the block follows. -/
  owner : Int
  /-- The line on which it was opened. -/
  line : Nat
  deriving Repr, DecidableEq

/-- Where the reader is. -/
inductive Mode where
  /-- Outside every rule. -/
  | outside
  /-- In the body of a rule. -/
  | body (r : OpenRule)
  /-- In an action block of a rule. -/
  | action (r : OpenRule) (a : OpenAction)
  /-- In the sections after the grammar. -/
  | footer
  deriving Repr, DecidableEq

/-- The entries of an open rule. -/
def OpenRule.entries (r : OpenRule) : List Entry := .rule r.rule :: r.after.map .verbatim

/-- The state of the reader. -/
structure Scan where
  /-- The entries before the open rule. -/
  closed : List Entry
  /-- Where the reader is. -/
  mode : Mode
  /-- The number of lines read. -/
  lines : Nat
  deriving Repr, DecidableEq

namespace Scan

/-- Nothing read yet. -/
def start : Scan := ⟨[], .outside, 0⟩

/-- The open rule, if there is one. -/
def openRule? (s : Scan) : Option OpenRule :=
  match s.mode with
  | .body r => some r
  | .action r _ => some r
  | _ => none

/-- All entries read so far. -/
def entries (s : Scan) : List Entry := s.closed ++ (s.openRule?.map OpenRule.entries).getD []

/-- Goes on to `mode`, with the open rule finished. -/
def leave (s : Scan) (mode : Mode) : Scan := { s with closed := s.entries, mode := mode }

/-- Keeps a line as it is. -/
def keep (s : Scan) (raw : Text) : Scan :=
  match s.mode with
  | .body r => { s with mode := .body { r with after := r.after ++ [⟨raw, false⟩] } }
  | .action r a => { s with mode := .action { r with after := r.after ++ [⟨raw, false⟩] } a }
  | _ => { s with closed := s.closed ++ [.verbatim ⟨raw, false⟩] }

/-- An error at the current line. -/
def fail {α : Type} (s : Scan) (fault : ParseFault) : Except ParseError α := .error ⟨s.lines, fault⟩

/-- The open rule replaced by `rule`. -/
def withRule (s : Scan) (r : OpenRule) (rule : Rule) : Scan :=
  { s with mode := .body { r with rule := rule } }

end Scan

/-! ## Productions -/

/-- The rule with one alternative added; `header` says that it stands behind the rule's colon.
Text without a pipe continues the last production. -/
def Rule.readAlternative (r : Rule) (text : Text) (header : Bool) : Except ParseFault Rule :=
  let trimmed := trim text
  if trimmed.isEmpty then .ok r
  else if hasPipe trimmed then
    .ok (r.addProduction (if header then trimmed else trimBlanksEnd text))
  else if r.productions.isEmpty then
    if (header? trimmed).isSome then .error (.headerLike trimmed r.name)
    else .ok (r.addProduction trimmed)
  else .ok (r.extendProduction trimmed)

/-- The alternatives of a line as they are added: the first one keeps its text, together with the
pipe in front of it; each later one is indented like the line. -/
def readyAlternatives (text : Text) (header : Bool) : List Text :=
  let (first, rest) := alternatives text
  let indent := if header then [] else leadingBlanks text
  let later (alt : Text) := trimEndWhile (· == space) (indent ++ bytes "| " ++ trim alt)
  match rest with
  | [] => [first]
  | second :: others =>
      if isSpaces first then (first ++ pipe :: second) :: others.map later
      else first :: (second :: others).map later

/-- The rule with the alternatives of a line added. -/
def Rule.readProductions (r : Rule) (text : Text) (header : Bool) : Except ParseFault Rule :=
  (readyAlternatives text header).foldlM (fun r alt => r.readAlternative alt header) r

/-! ## Lines -/

namespace Scan

/-- The rule with the alternatives of a line added, or the fault at this line. -/
def readProductions (s : Scan) (r : OpenRule) (text : Text) (header : Bool) :
    Except ParseError Rule :=
  match r.rule.readProductions text header with
  | .ok rule => .ok rule
  | .error fault => s.fail fault

/-- Opens an action block whose text so far is `text`. -/
def openAction (s : Scan) (r : OpenRule) (rule : Rule) (text : Text) (balance : Int) : Scan :=
  let action : OpenAction := ⟨text, balance, (rule.productions.length : Int) - 1, s.lines⟩
  { s with mode := .action { r with rule := rule } action }

/-- One line of a rule's body, or what follows the colon of its header.  The second result is text
after a closing semicolon, still to be read. -/
def bodyLine (s : Scan) (r : OpenRule) (line : Text) (header : Bool) :
    Except ParseError (Scan × Option Text) := do
  let trimmed := trim line
  if startsWith [closeBrace] trimmed then s.fail (.strayBrace r.rule.name)
  else if startsWith [semicolon] trimmed then
    let rest := trim (trimmed.drop 1)
    return (s.leave .outside, if rest.isEmpty then none else some rest)
  else
    match (unclosedBrace? line).filter fun i => 0 < braceBalance (line.drop i) with
    | some i =>
        let before := line.take i
        let balance := braceBalance (line.drop i)
        if isSpaces before && !header then
          return (s.openAction r r.rule (newline :: line) balance, none)
        else
          let rule ← s.readProductions r before header
          return (s.openAction r rule (line.drop (trimBlanksEnd before).length) balance, none)
    | none =>
        let terminated := endsWith [semicolon] trimmed
        let text := if terminated then dropEnd [semicolon] (trimBlanksEnd line) else line
        let rule ← if isSpaces text then pure r.rule else s.readProductions r text header
        let next := s.withRule r rule
        return (if terminated then next.leave .outside else next, none)

/-- One line inside an action block.  The line that closes the block may also close the rule. -/
def actionLine (s : Scan) (r : OpenRule) (a : OpenAction) (line : Text) : Except ParseError Scan :=
  let balance := a.balance + braceBalance line
  if 0 < balance then
    let longer := { a with text := a.text ++ newline :: line, balance := balance }
    .ok { s with mode := .action r longer }
  else if balance < 0 then s.fail (.surplusBrace r.rule.name)
  else
    let text := trimBlanksEnd line
    let rest := dropEnd [semicolon] text
    let terminated := endsWith [semicolon] text && endsWith [closeBrace] (trimBlanksEnd rest)
    let last := if terminated then rest else text
    let action := Action.ofText (a.text ++ newline :: last) a.owner a.line
    let next := s.withRule r (r.rule.addAction action)
    .ok (if terminated then next.leave .outside else next)

/-- A line outside every action block and before the footer. -/
def grammarLine (s : Scan) (raw : Text) : Except ParseError (Scan × Option Text) :=
  let line := trimTerminator raw
  let trimmed := trim line
  if trimmed.isEmpty || startsWith [hash] trimmed then .ok (s.keep raw, none)
  else if isFooterMarker line then .ok ((s.leave .footer).keep raw, none)
  else
    match header? line with
    | some (name, rest) =>
        let r : OpenRule := ⟨{ name := name, line := s.lines }, []⟩
        let next := s.leave (.body r)
        let text := trim rest
        if text.isEmpty then .ok (next, none)
        else if startsWith [hash] text then .ok (next.keep (text ++ [newline]), none)
        else next.bodyLine r rest true
    | none =>
        match s.mode with
        | .body r =>
            if trimmed = bytes "end" then .ok ((s.leave .outside).keep raw, none)
            else s.bodyLine r line false
        | _ => .ok (s.keep raw, none)

/-- One line, or the part of one that is still to be read. -/
def segment (s : Scan) (raw : Text) : Except ParseError (Scan × Option Text) :=
  match s.mode with
  | .footer => .ok (s.keep raw, none)
  | .action r a => (s.actionLine r a (trimTerminator raw)).map (·, none)
  | _ => s.grammarLine raw

/-- Reads segments until the line is used up; `fuel` bounds their number. -/
def segments : Nat → Scan → Text → Except ParseError Scan
  | 0, s, _ => .ok s
  | fuel + 1, s, raw => do
      match ← s.segment raw with
      | (next, none) => .ok next
      | (next, some rest) => segments fuel next (rest ++ [newline])

/-- Reads one whole line.  Each segment is shorter than the one before, so the line's length bounds
their number. -/
def line (s : Scan) (raw : Text) : Except ParseError Scan :=
  segments (raw.length + 1) { s with lines := s.lines + 1 } raw

/-- The document that was read, unless an action block is still open. -/
def finish (s : Scan) : Except ParseError Document :=
  match s.mode with
  | .action r a => .error ⟨a.line, .unterminated r.rule.name⟩
  | _ => .ok ⟨s.entries⟩

end Scan

/-- The document that a text describes. -/
def Document.parse (text : Text) : Except ParseError Document := do
  let s ← (lines text).foldlM Scan.line Scan.start
  s.finish

end GrammarLayout
