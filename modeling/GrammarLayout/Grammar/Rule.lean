import GrammarLayout.Grammar.Action
import GrammarLayout.Text.Blank

/-!
# Grammar rules

A rule has a name, the texts of its productions, its action blocks, and the
settings that say how it is written.  The first production carries no pipe,
later ones start with one.  Actions are kept in the order in which they are
written, each with the number of the production it follows.
-/

namespace GrammarLayout

open Ascii Text

/-- A grammar rule and the way it is written. -/
structure Rule where
  /-- The name in the header. -/
  name : Text
  /-- The line of the header. -/
  line : Int
  /-- The texts of the alternatives. -/
  productions : List Text := []
  /-- The action blocks, in writing order. -/
  actions : List Action := []
  /-- Whether a space stands before the colon. -/
  colonSpacing : Bool := true
  /-- The number of spaces after the name. -/
  namePadding : Nat := 0
  /-- The indentation of the first production and of alternatives without a pipe. -/
  productionIndent : Text := [space, space]
  /-- The indentation of the closing semicolon. -/
  terminatorIndent : Text := [space, space]
  deriving Repr, DecidableEq

/-- Does a production start with a pipe? -/
def hasPipe (production : Text) : Bool := startsWith [pipe] (trim production)

namespace Rule

/-! ## Building a rule -/

/-- The rule with one more alternative. -/
def addProduction (r : Rule) (text : Text) : Rule :=
  { r with productions := r.productions ++ [text] }

/-- The last production continued by a further line, or a first production. -/
def extendProduction (r : Rule) (text : Text) : Rule :=
  match r.productions.getLast? with
  | none => r.addProduction text
  | some last =>
      { r with productions := r.productions.dropLast ++ [trimBlanksEnd last ++ space :: trim text] }

/-- The rule with production `i` replaced; there must be one. -/
def setProduction? (r : Rule) (i : Nat) (text : Text) : Option Rule :=
  if i < r.productions.length then some { r with productions := r.productions.set i text } else none

/-- The rule with one more action at the end. -/
def addAction (r : Rule) (a : Action) : Rule := { r with actions := r.actions ++ [a] }

/-- An action put before those of the same or a later production. -/
def insertOwned (a : Action) (as : List Action) : List Action :=
  as.takeWhile (·.owner < a.owner) ++ a :: as.dropWhile (·.owner < a.owner)

/-- The rule with an action put before those of the same or a later production. -/
def insertAction (r : Rule) (a : Action) : Rule := { r with actions := insertOwned a r.actions }

/-- The rule with the text of action `i` replaced; there must be one. -/
def setActionText? (r : Rule) (i : Nat) (text : Text) : Option Rule := do
  let a ← r.actions[i]?
  some { r with actions := r.actions.set i (a.setText text) }

/-! ## Writing a rule -/

/-- The indentation that production `i` is written with; the header line has none. -/
def lineIndent (r : Rule) (i : Int) : Text :=
  if i < 0 then []
  else
    match r.productions[i.toNat]? with
    | none => []
    | some p => if i = 0 ∨ !hasPipe p then r.productionIndent else leadingBlanks p

/-- The line of production `i`. -/
def productionLine (r : Rule) (i : Nat) (p : Text) : Text :=
  if i = 0 then r.productionIndent ++ trim p
  else if hasPipe p then trimBlanksEnd p
  else r.productionIndent ++ bytes "| " ++ trim p

/-- The line that names the rule. -/
def header (r : Rule) : Text :=
  r.name ++ List.replicate r.namePadding space ++ (if r.colonSpacing then bytes " :" else bytes ":")

/-- Actions written one after the other. -/
def actionTexts (as : List Action) : Text := as.flatMap Action.text

/-- The productions from number `i` on, each followed by its actions.  Actions that belong to no
production are written after the last. -/
def renderFrom (r : Rule) : Nat → List Text → List Action → Text
  | _, [], as => actionTexts as
  | i, p :: ps, as =>
      newline :: r.productionLine i p
        ++ actionTexts (as.takeWhile (·.owner ≤ (i : Int)))
        ++ renderFrom r (i + 1) ps (as.dropWhile (·.owner ≤ (i : Int)))

/-- The line that closes a rule. -/
def terminator (r : Rule) : Text := newline :: r.terminatorIndent ++ [semicolon, newline]

/-- The text of a rule: header, actions that precede the productions, productions, semicolon. -/
def render (r : Rule) : Text :=
  r.header
    ++ actionTexts (r.actions.takeWhile (·.owner ≤ -1))
    ++ r.renderFrom 0 r.productions (r.actions.dropWhile (·.owner ≤ -1))
    ++ r.terminator

end Rule

end GrammarLayout
