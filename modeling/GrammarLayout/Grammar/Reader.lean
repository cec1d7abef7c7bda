import GrammarLayout.Grammar.Parser

/-!
# The reader as a record of flags

`Scan` keeps the state of the reader as one of four modes.  The record here
keeps it in fields that know nothing of each other: the document so far, the
active rule, whether an action block is open, its text and its count of braces,
and whether the grammar is over.  The active rule is a position in the document,
and what is done to it is done there.  Every field is set and reset on its own,
so that nothing but the steps themselves keeps the fields together.

A step that needs the active rule fails with `Halt.noRule` when there is none.
-/

namespace GrammarLayout

open Ascii Text

/-- Why the reader stops. -/
inductive Halt where
  /-- The text is not a grammar. -/
  | fault (e : ParseError)
  /-- A rule is needed and none is active. -/
  | noRule
  deriving Repr, DecidableEq

/-- The state of the reader, field by field. -/
structure Reader where
  /-- The entries so far. -/
  doc : List Entry
  /-- The position of the active rule among them. -/
  rule : Option Nat
  /-- Whether an action block is open. -/
  inAction : Bool
  /-- The text of the block so far. -/
  action : Text
  /-- The number of braces that are open. -/
  balance : Int
  /-- The number of the production the block follows. -/
  owner : Int
  /-- The line on which the block was opened. -/
  actionLine : Nat
  /-- Whether the grammar is over. -/
  footer : Bool
  /-- The number of lines read. -/
  line : Nat
  deriving Repr, DecidableEq

namespace Reader

/-- Nothing read yet. -/
def start : Reader := ⟨[], none, false, [], 0, 0, 0, false, 0⟩

/-! ## The active rule -/

/-- The active rule. -/
def active (p : Reader) : Except Halt Rule :=
  match p.rule.bind (p.doc[·]?) with
  | some (.rule r) => .ok r
  | _ => .error .noRule

/-- The reader with its active rule changed by `f`. -/
def change (p : Reader) (f : Rule → Rule) : Except Halt Reader :=
  match p.rule, p.active with
  | some i, .ok r => .ok { p with doc := p.doc.set i (.rule (f r)) }
  | _, _ => .error .noRule

/-- An error at the current line that names the active rule. -/
def fail {α : Type} (p : Reader) (fault : Text → ParseFault) : Except Halt α := do
  let r ← p.active
  .error (.fault ⟨p.line, fault r.name⟩)

/-- Keeps a line as it is. -/
def verbatim (p : Reader) (raw : Text) : Reader :=
  { p with doc := p.doc ++ [.verbatim ⟨raw, false⟩] }

/-- Starts a rule, which becomes the active one. -/
def openRule (p : Reader) (name : Text) : Reader :=
  { p with
    doc := p.doc ++ [.rule { name := name, line := p.line }]
    rule := some p.doc.length }

/-! ## Productions -/

/-- Adds one alternative to the active rule. -/
def addAlternative (p : Reader) (text : Text) (header : Bool) : Except Halt Reader := do
  let trimmed := trim text
  if trimmed.isEmpty then return p
  else if hasPipe trimmed then
    p.change (·.addProduction (if header then trimmed else trimBlanksEnd text))
  else if (← p.active).productions.isEmpty then
    if (header? trimmed).isSome then p.fail (.headerLike trimmed)
    else p.change (·.addProduction trimmed)
  else p.change (·.extendProduction trimmed)

/-- Adds the alternatives of a line. -/
def addProduction (p : Reader) (text : Text) (header : Bool) : Except Halt Reader :=
  (readyAlternatives text header).foldlM (fun p alt => p.addAlternative alt header) p

/-! ## Action blocks -/

/-- Opens an action block behind the last production. -/
def startAction (p : Reader) (text : Text) (balance : Int) : Except Halt Reader := do
  let r ← p.active
  return { p with
    inAction := true
    balance := balance
    owner := (r.productions.length : Int) - 1
    actionLine := p.line
    action := text }

/-- One line inside an action block.  The line that closes the block may also close the rule. -/
def continueAction (p : Reader) (line : Text) : Except Halt Reader := do
  let p := { p with balance := p.balance + braceBalance line }
  if 0 < p.balance then return { p with action := p.action ++ newline :: line }
  else if p.balance < 0 then p.fail .surplusBrace
  else
    let text := trimBlanksEnd line
    let rest := dropEnd [semicolon] text
    let terminated := endsWith [semicolon] text && endsWith [closeBrace] (trimBlanksEnd rest)
    let last := if terminated then rest else text
    let next ← p.change
      (·.addAction (Action.ofText (p.action ++ newline :: last) p.owner p.actionLine))
    let closed := { next with inAction := false, balance := 0, action := [] }
    return if terminated then { closed with rule := none } else closed

/-! ## Lines -/

/-- One line of a rule's body, or what follows the colon of its header.  The second result is text
after a closing semicolon, still to be read. -/
def bodyLine (p : Reader) (line : Text) (header : Bool) :
    Except Halt (Reader × Option Text) := do
  let trimmed := trim line
  if startsWith [closeBrace] trimmed then p.fail .strayBrace
  else if startsWith [semicolon] trimmed then
    let rest := trim (trimmed.drop 1)
    return ({ p with rule := none }, if rest.isEmpty then none else some rest)
  else
    match (unclosedBrace? line).filter fun i => 0 < braceBalance (line.drop i) with
    | some i =>
        let before := line.take i
        let balance := braceBalance (line.drop i)
        if isSpaces before && !header then
          return (← p.startAction (newline :: line) balance, none)
        else
          let next ← p.addProduction before header
          return (← next.startAction (line.drop (trimBlanksEnd before).length) balance, none)
    | none =>
        let terminated := endsWith [semicolon] trimmed
        let text := if terminated then dropEnd [semicolon] (trimBlanksEnd line) else line
        let next ← if isSpaces text then pure p else p.addProduction text header
        return (if terminated then { next with rule := none } else next, none)

/-- One line, or the part of one that is still to be read. -/
def segment (p : Reader) (raw : Text) : Except Halt (Reader × Option Text) := do
  let line := trimTerminator raw
  let trimmed := trim line
  if p.footer then return (p.verbatim raw, none)
  else if p.inAction then (p.continueAction line).map (·, none)
  else if trimmed.isEmpty || startsWith [hash] trimmed then return (p.verbatim raw, none)
  else if isFooterMarker line then
    return ({ p with rule := none, footer := true }.verbatim raw, none)
  else
    match header? line with
    | some (name, rest) =>
        let next := p.openRule name
        let text := trim rest
        if text.isEmpty then return (next, none)
        else if startsWith [hash] text then return (next.verbatim (text ++ [newline]), none)
        else next.bodyLine rest true
    | none =>
        if p.rule.isNone then return (p.verbatim raw, none)
        else if trimmed = bytes "end" then
          return ({ p with rule := none }.verbatim raw, none)
        else p.bodyLine line false

/-- Reads segments until the line is used up; `fuel` bounds their number. -/
def segments : Nat → Reader → Text → Except Halt Reader
  | 0, p, _ => .ok p
  | fuel + 1, p, raw => do
      match ← p.segment raw with
      | (next, none) => return next
      | (next, some rest) => segments fuel next (rest ++ [newline])

/-- Reads one whole line.  Each segment is shorter than the one before, so the line's length bounds
their number. -/
def readLine (p : Reader) (raw : Text) : Except Halt Reader :=
  segments (raw.length + 1) { p with line := p.line + 1 } raw

/-- The document that was read, unless an action block is still open. -/
def finish (p : Reader) : Except Halt Document :=
  if p.inAction then do
    let r ← p.active
    .error (.fault ⟨p.actionLine, .unterminated r.name⟩)
  else return ⟨p.doc⟩

/-- Reads a text line after line. -/
def parse (text : Text) : Except Halt Document := do
  let p ← (lines text).foldlM readLine start
  p.finish

end Reader

end GrammarLayout
