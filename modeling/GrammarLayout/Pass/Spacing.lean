import GrammarLayout.Grammar.Document
import GrammarLayout.Pass.Operators
import GrammarLayout.Style.Basic

/-!
# Spaces around signs

The spacing pass sets the space before the colon of each rule and after each
pipe, and spaces the operators in blocks: those at the end of a production,
those in the middle of one, and the lines of its actions.
-/

namespace GrammarLayout

open Ascii Text

/-- An alternative with a space, or none, after its pipe. -/
def spacePipe (around : Bool) (p : Text) : Text :=
  let indent := leadingBlanks p
  let rest := trim (dropStart [pipe] (trimBlanksStart p))
  if rest.isEmpty then indent ++ [pipe]
  else if around then indent ++ bytes "| " ++ rest
  else indent ++ pipe :: rest

/-- The text inside a block with its operators spaced and a space at each end. -/
def spaceBlock (inner : Text) : Text :=
  let code := spaceOperators (trim inner)
  if code.isEmpty then [space] else space :: code ++ [space]

/-- The blocks of a production with their operators spaced. -/
def spaceBlocks (p : Text) : Text :=
  match splitInline? p with
  | some (before, inner) => joinInline before (spaceOperators (trim inner))
  | none => mapBlocks spaceBlock p

/-- Production `i` as the style asks. -/
def spaceProduction (style : SpacingStyle) (i : Nat) (p : Text) : Text :=
  let piped := if 0 < i && hasPipe p then spacePipe style.aroundPipe p else p
  if style.aroundEquals then spaceBlocks piped else piped

/-- A line of an action with its operators spaced; lines without code are kept. -/
def spaceActionLine (l : Text) : Text :=
  let code := trim l
  if code.isEmpty || code = [openBrace] || code = [closeBrace] then l
  else leadingBlanks l ++ spaceOperators (trimBlanksStart l)

/-- The action with the operators of its lines spaced. -/
def Action.spaceLines (a : Action) : Action :=
  a.setText (a.lead ++ joinLines ((splitLines a.body).map spaceActionLine))

/-- The rule with its signs spaced. -/
def Rule.spaceSigns (style : SpacingStyle) (r : Rule) : Rule :=
  { r with
    colonSpacing := style.aroundColon
    productions := r.productions.mapIdx (spaceProduction style)
    actions := if style.aroundEquals then r.actions.map Action.spaceLines else r.actions }

/-- The spacing pass. -/
def Document.spaceSigns (style : Style) (d : Document) : Document :=
  d.mapRules (Rule.spaceSigns style.spacing)

end GrammarLayout
