import GrammarLayout.Number.Power
import GrammarLayout.Text.Basic

/-!
# Layout styles

A style says which passes run over a grammar and how each of them lays it out.
Every pass has a section of its own; `Style` holds the five sections, and its
default is the layout used when nothing is configured.
-/

namespace GrammarLayout

/-- The passes, in the order in which they run. -/
inductive PassName where
  | indent | braceNewline | spacing | alignment | emptyLine
  deriving Repr, DecidableEq

namespace PassName

/-- All passes in order. -/
def all : List PassName := [indent, braceNewline, spacing, alignment, emptyLine]

/-- The name of a pass in configuration files and reports. -/
def key : PassName → Text
  | indent => bytes "indent"
  | braceNewline => bytes "brace_newline"
  | spacing => bytes "spacing"
  | alignment => bytes "alignment"
  | emptyLine => bytes "empty_line"

/-- The pass that a name stands for. -/
def ofKey? (name : Text) : Option PassName := all.find? fun p => p.key == name

end PassName

/-- What a line is indented with. -/
inductive IndentKind where
  | spaces | tabs
  deriving Repr, DecidableEq

/-- Where the opening brace of a block stands. -/
inductive BracePlacement where
  | sameLine | newLine
  deriving Repr, DecidableEq

/-- How rules are indented. -/
structure IndentStyle where
  /-- Whether the pass runs. -/
  enabled : Bool := true
  /-- The number of bytes of one indentation step. -/
  size : Nat := 2
  /-- What the step is made of. -/
  kind : IndentKind := .spaces
  deriving Repr, DecidableEq

/-- How the opening braces of blocks are placed. -/
structure BraceStyle where
  /-- Whether the pass runs. -/
  enabled : Bool := true
  /-- Where the brace stands. -/
  placement : BracePlacement := .sameLine
  /-- Whether a space separates it from the production before it. -/
  spaceBefore : Bool := true
  deriving Repr, DecidableEq

/-- Which signs are surrounded by spaces. -/
structure SpacingStyle where
  /-- Whether the pass runs. -/
  enabled : Bool := true
  /-- Whether a space stands before the colon. -/
  aroundColon : Bool := true
  /-- Whether a space stands after each pipe. -/
  aroundPipe : Bool := true
  /-- Whether operators in actions are surrounded by spaces. -/
  aroundEquals : Bool := true
  deriving Repr, DecidableEq

/-- What is lined up. -/
structure AlignmentStyle where
  /-- Whether the pass runs. -/
  enabled : Bool := true
  /-- Whether the lines of action blocks are lined up. -/
  alignActions : Bool := true
  /-- Whether colons and pipes are lined up. -/
  alignRules : Bool := true
  deriving Repr, DecidableEq

/-- Where empty lines are inserted. -/
structure EmptyLineStyle where
  /-- Whether the pass runs. -/
  enabled : Bool := true
  /-- Whether one separates neighbouring rules. -/
  betweenRules : Bool := true
  /-- Whether one follows the declarations before the first rule. -/
  afterHeader : Bool := true
  /-- Whether one precedes the sections after the grammar. -/
  beforeFooter : Bool := true
  deriving Repr, DecidableEq

/-- A complete layout style. -/
structure Style where
  /-- The section of the indentation pass. -/
  indent : IndentStyle := {}
  /-- The section of the brace pass. -/
  brace : BraceStyle := {}
  /-- The section of the spacing pass. -/
  spacing : SpacingStyle := {}
  /-- The section of the alignment pass. -/
  alignment : AlignmentStyle := {}
  /-- The section of the empty-line pass. -/
  emptyLine : EmptyLineStyle := {}
  deriving Repr, DecidableEq

/-- One indentation step; a size of nothing stands for two. -/
def IndentStyle.unit (s : IndentStyle) : Text :=
  List.replicate (if s.size = 0 then 2 else s.size)
    (match s.kind with | .spaces => Ascii.space | .tabs => Ascii.tab)

namespace Style

/-- Does the pass run? -/
def enabled (s : Style) : PassName → Bool
  | .indent => s.indent.enabled
  | .braceNewline => s.brace.enabled
  | .spacing => s.spacing.enabled
  | .alignment => s.alignment.enabled
  | .emptyLine => s.emptyLine.enabled

/-- The passes that run, in order. -/
def passes (s : Style) : List PassName := PassName.all.filter s.enabled

/-- A style that a configuration can describe: its indentation step is a positive 64-bit number. -/
def Valid (s : Style) : Prop := 1 ≤ s.indent.size ∧ s.indent.size < twoTo 63

end Style

end GrammarLayout
