import GrammarLayout.Text.Basic

/-!
# Action blocks

An action is a block of embedded code.  Its text starts with the layout that
separates it from the production it follows (a space, or a newline and
indentation) and ends with its last visible byte.
-/

namespace GrammarLayout

open Ascii Text

/-- A block of embedded code. -/
structure Action where
  /-- The separating layout and the block. -/
  text : Text
  /-- The number of the production it follows; -1 when it stands before the first. -/
  owner : Int
  /-- The line its brace was read from; 0 for a block taken out of a production. -/
  line : Int
  deriving Repr, DecidableEq

namespace Action

/-- An action whose text is `text` without the layout at its end. -/
def ofText (text : Text) (owner line : Int) : Action := ⟨trimEndWhile isLayout text, owner, line⟩

/-- The action with another text. -/
def setText (a : Action) (text : Text) : Action := { a with text := trimEndWhile isLayout text }

/-- What stands before the first opening brace, or the layout in front when there is none. -/
def lead (a : Action) : Text :=
  if a.text.contains openBrace then a.text.takeWhile (· != openBrace)
  else a.text.takeWhile isLayout

/-- The text from the first opening brace on, or without the layout in front. -/
def body (a : Action) : Text :=
  if a.text.contains openBrace then a.text.dropWhile (· != openBrace)
  else a.text.dropWhile isLayout

/-- Does the opening brace start a line of its own? -/
def onOwnLine (a : Action) : Bool := a.lead.contains newline

/-- Does the block span several lines? -/
def multiline (a : Action) : Bool := a.body.contains newline

end Action

end GrammarLayout
