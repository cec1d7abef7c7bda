import GrammarLayout.Grammar.Document
import GrammarLayout.Style.Basic

/-!
# Opening braces

The brace pass moves the opening brace of each action onto the line of the
production before it, or onto a line of its own.  A brace that is already where
it belongs stays as it is.
-/

namespace GrammarLayout

open Ascii Text

/-- The action with its opening brace placed as the style asks, in a rule indented by `indent`. -/
def Action.placeBrace (style : BraceStyle) (indent : Text) (a : Action) : Action :=
  match style.placement with
  | .sameLine =>
      if a.onOwnLine then a.setText ((if style.spaceBefore then [space] else []) ++ a.body) else a
  | .newLine => if a.onOwnLine then a else a.setText (newline :: indent ++ a.body)

/-- The rule with all its opening braces placed. -/
def Rule.placeBraces (style : BraceStyle) (r : Rule) : Rule :=
  { r with actions := r.actions.map (Action.placeBrace style r.productionIndent) }

/-- The brace pass. -/
def Document.placeBraces (style : Style) (d : Document) : Document :=
  d.mapRules (Rule.placeBraces style.brace)

end GrammarLayout
