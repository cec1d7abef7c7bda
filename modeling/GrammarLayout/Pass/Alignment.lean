import GrammarLayout.Grammar.Braces
import GrammarLayout.Grammar.Document
import GrammarLayout.Pass.Reindent
import GrammarLayout.Style.Basic

/-!
# Alignment

The alignment pass brings three things into line: the colons of neighbouring
rules, the pipes of each rule with its first production, and the lines of each
action block with the line that holds its opening brace.

Rules are neighbours when only blank lines stand between them.  A run of
neighbours is padded to its widest name: `widestAfter` is that width for the
part of the run that is still to come, and the run's width so far is carried
along.  How many columns a name takes is a parameter of the pass.
-/

namespace GrammarLayout

open Ascii Text

/-! ## Colons -/

/-- The greatest width of a name in the rest of a run of neighbouring rules. -/
def widestAfter (width : Text → Nat) : List Entry → Nat
  | [] => 0
  | .rule r :: es => max (width r.name) (widestAfter width es)
  | .verbatim v :: es => if v.isBlank then widestAfter width es else 0

/-- Pads names so that the colons of neighbouring rules line up; `widest` is the greatest width of
the run so far. -/
def alignColonsFrom (width : Text → Nat) (widest : Nat) : List Entry → List Entry
  | [] => []
  | .rule r :: es =>
      let sofar := max widest (width r.name)
      .rule { r with namePadding := max sofar (widestAfter width es) - width r.name }
        :: alignColonsFrom width sofar es
  | .verbatim v :: es =>
      .verbatim v :: alignColonsFrom width (if v.isBlank then widest else 0) es

/-- The document with the colons of neighbouring rules lined up. -/
def Document.alignColons (width : Text → Nat) (d : Document) : Document :=
  ⟨alignColonsFrom width 0 d.entries⟩

/-! ## Pipes -/

/-- The rule with its alternatives in the column of its first production. -/
def Rule.alignPipes (r : Rule) : Rule :=
  match r.productions with
  | [] => r
  | first :: later =>
      if hasPipe first then r
      else
        { r with productions :=
            first :: later.map fun p => if hasPipe p then r.productionIndent ++ trim p else p }

/-! ## Actions -/

/-- A production with one space inside the braces of the block at its end. -/
def alignInline (p : Text) : Text :=
  match splitInline? p with
  | some (before, inner) => leadingBlanks p ++ joinInline (trim before) (trim inner)
  | none => p

/-- The text after the last newline, if there is a newline. -/
def afterLastNewline? (s : Text) : Option Text :=
  if s.contains newline then some (s.reverse.takeWhile (· != newline)).reverse else none

/-- The indentation of the line that holds an action's opening brace. -/
def Rule.braceIndent (r : Rule) (a : Action) : Text :=
  match afterLastNewline? a.lead with
  | some indent => indent
  | none => if a.owner < 0 then r.productionIndent else r.lineIndent a.owner

/-- The lines of code of a block one step deeper than `base`; blank lines are kept. -/
def alignContent (base step : Text) (content : List Text) : List Text :=
  content.map fun l =>
    if isSpaces l then l else rebaseLine (base ++ step) (leastIndent content) l

/-- The lines of a block after its first: the code one step deeper than `base`, and a closing brace
that starts the last line at `base`. -/
def alignBelow (base step : Text) (below : List Text) : List Text :=
  match below.getLast? with
  | none => []
  | some last =>
      if startsWith [closeBrace] (trim last) then
        alignContent base step below.dropLast ++ [base ++ trim last]
      else alignContent base step below

/-- The action with its lines brought in line with its opening brace. -/
def Rule.alignBlock (step : Text) (r : Rule) (a : Action) : Action :=
  if a.multiline then
    match splitLines a.body with
    | [] => a
    | first :: below =>
        a.setText (a.lead ++ joinLines (first :: alignBelow (r.braceIndent a) step below))
  else a

/-- The rule with its blocks lined up. -/
def Rule.alignActions (step : Text) (r : Rule) : Rule :=
  let inlined := { r with productions := r.productions.map alignInline }
  { inlined with actions := inlined.actions.map (inlined.alignBlock step) }

/-! ## The pass -/

/-- The alignment pass. -/
def Document.align (width : Text → Nat) (style : Style) (d : Document) : Document :=
  let aligned :=
    if style.alignment.alignRules then (d.alignColons width).mapRules Rule.alignPipes else d
  if style.alignment.alignActions then aligned.mapRules (Rule.alignActions style.indent.unit)
  else aligned

end GrammarLayout
