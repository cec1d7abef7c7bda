import GrammarLayout.Grammar.Braces
import GrammarLayout.Grammar.Document
import GrammarLayout.Pass.Reindent
import GrammarLayout.Style.Basic

/-!
# Indentation

The indentation pass lays every rule out with one indentation step:

1. a block at the end of a production becomes an action of its own, unless it
   is all that the production holds;
2. productions are indented by one step;
3. every action starts on a line of its own, with its braces at one step and
   its code at two.
-/

namespace GrammarLayout

open Ascii Text

/-! ## Blocks at the end of productions -/

/-- The text before the block at the end of a production and the text inside it, if the block
follows some symbol. -/
def liftable? (production : Text) : Option (Text × Text) :=
  (splitInline? production).filter fun parts =>
    !isSpaces (dropStart [pipe] (trim parts.1))

/-- The actions that blocks at the end of productions become, numbered from `i`. -/
def liftedActions : Nat → List Text → List Action
  | _, [] => []
  | i, p :: ps =>
      match liftable? p with
      | none => liftedActions (i + 1) ps
      | some (_, inner) =>
          Action.ofText (bytes " \x7b" ++ inner ++ [closeBrace]) i 0 :: liftedActions (i + 1) ps

/-- The rule with the blocks at the end of its productions made actions. -/
def Rule.liftActions (r : Rule) : Rule :=
  { r with
    productions := r.productions.map fun p => ((liftable? p).map Prod.fst).getD p
    actions := (liftedActions 0 r.productions).foldl (fun as a => Rule.insertOwned a as) r.actions }

/-! ## Productions and blocks -/

/-- Production `i` behind one indentation step; the first one is indented by its rule. -/
def indentProduction (unit : Text) (i : Nat) (p : Text) : Text :=
  if i = 0 then trim p
  else
    let rest := trim (dropStart [pipe] (trim p))
    if rest.isEmpty then unit ++ [pipe] else unit ++ bytes "| " ++ rest

/-- The lines of code of a block, given the text between its braces: what follows the opening brace
is lined up with the least indented line below, and blank lines at both ends are dropped. -/
def blockContent (inner : Text) : List Text :=
  match splitLines inner with
  | [] => []
  | head :: below =>
      let first := trim head
      let middle := match below.getLast? with
        | some l => if isSpaces l then below.dropLast else below
        | none => []
      let content := if first.isEmpty then middle else (leastBlanks middle ++ first) :: middle
      content.dropWhile isSpaces

/-- A block with its braces at one step and its code at two; other text is kept. -/
def reflowBlock (unit body : Text) : Text :=
  if startsWith [openBrace] body && endsWith [closeBrace] body then
    let content := blockContent (body.drop 1).dropLast
    openBrace :: newline :: (rebase (unit ++ unit) content).flatMap (· ++ [newline])
      ++ unit ++ [closeBrace]
  else body

/-- The rule laid out with one indentation step. -/
def Rule.indentBy (unit : Text) (r : Rule) : Rule :=
  let lifted := r.liftActions
  { lifted with
    productions := lifted.productions.mapIdx (indentProduction unit)
    actions := lifted.actions.map fun a => a.setText (newline :: unit ++ reflowBlock unit a.body)
    productionIndent := unit
    terminatorIndent := unit }

/-- The indentation pass. -/
def Document.indent (style : Style) (d : Document) : Document :=
  d.mapRules (Rule.indentBy style.indent.unit)

end GrammarLayout
