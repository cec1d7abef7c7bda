import GrammarLayout.Grammar.Document
import GrammarLayout.Style.Basic

/-!
# Empty lines

The empty-line pass inserts a blank line before the first rule, between two
rules that follow each other, and before each code section after a rule, where
none stands already.  No line is removed.
-/

namespace GrammarLayout

open Text

/-- Is an inserted blank line wanted before `e`, given the entry before it and whether a rule came
earlier? -/
def EmptyLineStyle.wantsBlank (style : EmptyLineStyle) (previous : Option Entry) (seenRule : Bool)
    (e : Entry) : Bool :=
  let separated := previous.all Entry.isBlank
  match e with
  | .rule _ =>
      if seenRule then style.betweenRules && previous.any Entry.isRule
      else style.afterHeader && !separated
  | .verbatim v => isFooterMarker v.text && seenRule && style.beforeFooter && !separated

/-- The entries with the missing blank lines inserted. -/
def EmptyLineStyle.separate (style : EmptyLineStyle) (previous : Option Entry) (seenRule : Bool) :
    List Entry → List Entry
  | [] => []
  | e :: es =>
      let rest := e :: separate style (some e) (seenRule || e.isRule) es
      if style.wantsBlank previous seenRule e then .verbatim .blank :: rest else rest

/-- The empty-line pass. -/
def Document.separate (style : Style) (d : Document) : Document :=
  ⟨style.emptyLine.separate none false d.entries⟩

end GrammarLayout
