import GrammarLayout.Style.Setting

/-!
# The parts of a TOML document

A document is a list of statements.  A statement opens a table, opens a new
element of an array of tables, or gives a key a value.  A key has one or more
parts, divided by dots.
-/

namespace GrammarLayout.Toml

/-- The parts of a key, from the outermost table on. -/
abbrev Key := List Text

/-- A value as it is written. -/
inductive Literal where
  /-- A value without parts. -/
  | plain (value : Setting)
  /-- Values in brackets. -/
  | array (items : List Literal)
  /-- Keys with values in braces. -/
  | inline (pairs : List (Key × Literal))
  deriving Repr, Inhabited

/-- A statement of a document. -/
inductive Statement where
  /-- What follows belongs to a table. -/
  | table (key : Key)
  /-- What follows belongs to a new element of an array of tables. -/
  | element (key : Key)
  /-- A key has a value. -/
  | assign (key : Key) (value : Literal)
  deriving Repr, Inhabited

end GrammarLayout.Toml
