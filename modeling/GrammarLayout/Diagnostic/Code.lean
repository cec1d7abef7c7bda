import GrammarLayout.Text.Basic

/-!
# Error codes

Every error that the tool reports itself has a number.  The thousands say which
part it comes from: 1 for reading grammars, 2 for configuration, 3 for files.
-/

namespace GrammarLayout

open Text

/-- The number of an error. -/
structure Code where
  /-- The number itself. -/
  number : Nat
  deriving Repr, DecidableEq

namespace Code

/-- Nothing more specific applies. -/
def unknown : Code := ⟨0⟩
/-- An action block is never closed. -/
def unterminatedAction : Code := ⟨1001⟩
/-- A closing brace has no partner. -/
def unexpectedBrace : Code := ⟨1002⟩
/-- A production looks like a header. -/
def headerLikeProduction : Code := ⟨1003⟩
/-- The configuration file is not TOML. -/
def invalidToml : Code := ⟨2001⟩
/-- A setting has a value that is not allowed. -/
def invalidValue : Code := ⟨2002⟩
/-- A setting has a value of the wrong type. -/
def invalidType : Code := ⟨2003⟩
/-- The configuration file cannot be read. -/
def configUnreadable : Code := ⟨2004⟩
/-- The configuration file exists already. -/
def configExists : Code := ⟨2005⟩
/-- A grammar file cannot be read. -/
def loadFailed : Code := ⟨3001⟩
/-- A grammar file cannot be written. -/
def writeFailed : Code := ⟨3002⟩
/-- There is nothing to format. -/
def noSourceFiles : Code := ⟨3003⟩

/-- The codes that have a title of their own. -/
def titles : List (Nat × Text) :=
  [ (1000, bytes "Parse information"),
    (1001, bytes "Unterminated action block"),
    (1002, bytes "Unexpected closing brace"),
    (1003, bytes "Production reads as a rule header"),
    (2000, bytes "Config information"),
    (2001, bytes "Invalid TOML in config file"),
    (2002, bytes "Invalid config value"),
    (2003, bytes "Config value has wrong type"),
    (2004, bytes "Config file cannot be read"),
    (2005, bytes "Config file already exists"),
    (3000, bytes "IO information"),
    (3001, bytes "Failed to load file"),
    (3002, bytes "Failed to write file"),
    (3003, bytes "No grammar files found") ]

/-- The title of a code. -/
def title (c : Code) : Text := (titles.lookup c.number).getD (bytes "Unknown error")

/-- The name of a code: letters for the part it comes from and its number. -/
def id (c : Code) : Text :=
  let digits := ofNat c.number
  match c.number / 1000 with
  | 1 => bytes "PAR" ++ digits
  | 2 => bytes "CFG" ++ digits
  | 3 => bytes "IO" ++ digits
  | _ => bytes "E0000"

/-- The name and the title of a code. -/
def describe (c : Code) : Text := bytes "[" ++ c.id ++ bytes "]: " ++ c.title

end Code

end GrammarLayout
