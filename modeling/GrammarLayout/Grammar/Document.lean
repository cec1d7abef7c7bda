import GrammarLayout.Grammar.Rule

/-!
# Grammar documents

A document is the list of its entries in order: rules, and the lines between
them that are kept as they are.  Blank lines that a pass inserts are marked, so
that they can be told from those of the file.
-/

namespace GrammarLayout

open Ascii Text

/-- A line kept as it is, with its newline. -/
structure Verbatim where
  /-- The whole line. -/
  text : Text
  /-- Whether a pass inserted it. -/
  synthetic : Bool := false
  deriving Repr, DecidableEq

namespace Verbatim

/-- An inserted empty line. -/
def blank : Verbatim := ⟨[newline], true⟩

/-- Does the line hold only white space? -/
def isBlank (v : Verbatim) : Bool := isSpaces v.text

/-- Is the line a comment? -/
def isComment (v : Verbatim) : Bool := startsWith [hash] (trim v.text)

end Verbatim

/-- Does the line open one of the code sections after the grammar? -/
def isFooterMarker (line : Text) : Bool := startsWith (bytes "----") (trim line)

/-- One element of a document. -/
inductive Entry where
  /-- A line kept as it is. -/
  | verbatim (v : Verbatim)
  /-- A rule. -/
  | rule (r : Rule)
  deriving Repr, DecidableEq

namespace Entry

/-- The text of an entry, its final newline included. -/
def render : Entry → Text
  | verbatim v => v.text
  | rule r => r.render

/-- Is the entry a blank line? -/
def isBlank : Entry → Bool
  | verbatim v => v.isBlank
  | rule _ => false

/-- Is the entry a rule? -/
def isRule : Entry → Bool
  | verbatim _ => false
  | rule _ => true

/-- The rule of an entry, if it is one. -/
def rule? : Entry → Option Rule
  | verbatim _ => none
  | rule r => some r

/-- The entry with its rule changed by `f`. -/
def mapRule (f : Rule → Rule) : Entry → Entry
  | verbatim v => verbatim v
  | rule r => rule (f r)

end Entry

/-- A grammar file as its entries in order. -/
structure Document where
  /-- The entries. -/
  entries : List Entry
  deriving Repr, DecidableEq

namespace Document

/-- The rules of a document, in order. -/
def rules (d : Document) : List Rule := d.entries.filterMap Entry.rule?

/-- The document with every rule changed by `f`. -/
def mapRules (f : Rule → Rule) (d : Document) : Document := ⟨d.entries.map (Entry.mapRule f)⟩

/-- The text of a document. -/
def render (d : Document) : Text := d.entries.flatMap Entry.render

end Document

end GrammarLayout
