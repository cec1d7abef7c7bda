import GrammarLayout.Grammar.Parser
import GrammarLayout.Pass.Alignment
import GrammarLayout.Pass.Brace
import GrammarLayout.Pass.EmptyLine
import GrammarLayout.Pass.Indent
import GrammarLayout.Pass.Spacing
import GrammarLayout.Text.Width

/-!
# Formatting a grammar

A grammar is formatted by reading it, running the passes that the style turns
on, one after the other, and writing the result.
-/

namespace GrammarLayout

/-- Runs one pass over a document. -/
def PassName.run (style : Style) : PassName → Document → Document
  | .indent => Document.indent style
  | .braceNewline => Document.placeBraces style
  | .spacing => Document.spaceSigns style
  | .alignment => Document.align Text.width style
  | .emptyLine => Document.separate style

/-- Runs passes in order. -/
def Document.runPasses (style : Style) (passes : List PassName) (d : Document) : Document :=
  passes.foldl (fun d p => p.run style d) d

/-- The document laid out in a style. -/
def Document.layOut (style : Style) (d : Document) : Document := d.runPasses style style.passes

/-- The text of a grammar laid out in a style. -/
def format (style : Style) (text : Text) : Except ParseError Text := do
  let d ← Document.parse text
  return (d.layOut style).render

end GrammarLayout
