import GrammarLayout.Number.Double
import GrammarLayout.Text.Basic

/-!
# Settings

A configuration arrives as a tree of settings: tables with names, and at the
leaves values of any type.  Of a value whose type means nothing here only the
name of the type is kept, which is what a message tells of it.  `Table.merge`
lays one tree over another: where both have a table the tables are merged name
by name, everywhere else the overriding value wins.
-/

namespace GrammarLayout

/-- The widths in which whole numbers arrive. -/
inductive IntWidth where
  /-- The machine's own word. -/
  | native
  /-- 32 bits with a sign. -/
  | signed32
  /-- 64 bits with a sign. -/
  | signed64
  /-- 64 bits without a sign. -/
  | unsigned64
  deriving Repr, DecidableEq

/-- A configured value. -/
inductive Setting where
  /-- Nothing. -/
  | null
  /-- A truth value. -/
  | flag (b : Bool)
  /-- A text. -/
  | text (t : Text)
  /-- A whole number. -/
  | int (width : IntWidth) (n : Int)
  /-- A floating-point number. -/
  | float (x : Double)
  /-- A date or a time. -/
  | moment
  /-- A list of values. -/
  | list (items : List Setting)
  /-- A list of tables. -/
  | tables (items : List (List (Text × Setting)))
  /-- A table. -/
  | table (entries : List (Text × Setting))
  /-- A value of any other type, such as a narrower number. -/
  | other (type : Text)
  deriving Repr, Inhabited

/-- The entries of a table, each name once. -/
abbrev Table := List (Text × Setting)

namespace Setting

/-- The name of a value's type in messages. -/
def typeName : Setting → Text
  | null => bytes "<nil>"
  | flag _ => bytes "bool"
  | text _ => bytes "string"
  | int .native _ => bytes "int"
  | int .signed32 _ => bytes "int32"
  | int .signed64 _ => bytes "int64"
  | int .unsigned64 _ => bytes "uint64"
  | float _ => bytes "float64"
  | moment => bytes "time.Time"
  | list _ => bytes "[]interface \x7b\x7d"
  | tables _ => bytes "[]map[string]interface \x7b\x7d"
  | table _ => bytes "map[string]interface \x7b\x7d"
  | other type => type

/-- The entries of a table. -/
def table? : Setting → Option Table
  | table entries => some entries
  | _ => none

end Setting

namespace Table

/-- The value of a name. -/
def get? (t : Table) (name : Text) : Option Setting := t.lookup name

/-- The table with the value of a name set; a new name comes last. -/
def set (name : Text) (v : Setting) : Table → Table
  | [] => [(name, v)]
  | (k, old) :: rest => if k = name then (k, v) :: rest else (k, old) :: set name v rest

end Table

mutual

/-- The value `v` over what was configured before. -/
def Setting.over (old : Option Setting) : Setting → Setting
  | .table entries =>
      match old with
      | some (.table base) => .table (Table.merge base entries)
      | _ => .table entries
  | v => v

/-- The entries of the second table over those of the first. -/
def Table.merge (base : Table) : List (Text × Setting) → Table
  | [] => base
  | e :: rest => Table.merge (Table.mergeEntry base e) rest

/-- One entry over a table. -/
def Table.mergeEntry (base : Table) : Text × Setting → Table
  | (name, v) => Table.set name (Setting.over (Table.get? base name) v) base

end

end GrammarLayout
