import GrammarLayout.Text.Basic

/-!
# Line endings and byte order marks

Grammars are laid out with bare newlines and no byte order mark.  `normalize`
brings a file into that form and notes what it took away; `restore` puts it
back.  A carriage return that no newline follows is text like any other.
-/

namespace GrammarLayout

open Ascii Text

/-- What is known of a file's form, one bit each. -/
abbrev FileFlags := UInt8

namespace FileFlags

/-- The file was given as text, not read from disk. -/
def isVirtual : FileFlags := 1
/-- The file started with a byte order mark. -/
def hadBom : FileFlags := 2
/-- The lines of the file ended in a carriage return and a newline. -/
def hadCrlf : FileFlags := 4

/-- Is the bit set? -/
def has (flags bit : FileFlags) : Bool := flags &&& bit != 0

end FileFlags

/-- The UTF-8 byte order mark. -/
def byteOrderMark : Text := [0xEF, 0xBB, 0xBF]

/-- Does a carriage return stand directly before a newline somewhere? -/
def hasCrlf : Text → Bool
  | [] => false
  | c :: s => (c == carriageReturn && s.head? == some newline) || hasCrlf s

/-- The text without the carriage returns that stand directly before a newline. -/
def toNewlines : Text → Text
  | [] => []
  | c :: s =>
      if c == carriageReturn && s.head? == some newline then toNewlines s else c :: toNewlines s

/-- The text with a carriage return before each newline. -/
def toCrlf (s : Text) : Text :=
  s.flatMap fun c => if c = newline then [carriageReturn, newline] else [c]

/-- The content of a file in the form that grammars are laid out in, and what was taken away. -/
def normalize (content : Text) : Text × FileFlags :=
  let bare := dropStart byteOrderMark content
  let bom : FileFlags := if startsWith byteOrderMark content then .hadBom else 0
  let crlf : FileFlags := if hasCrlf bare then .hadCrlf else 0
  (toNewlines bare, bom ||| crlf)

/-- The content with what the flags tell put back. -/
def restore (flags : FileFlags) (content : Text) : Text :=
  let lines := if flags.has .hadCrlf then toCrlf content else content
  if flags.has .hadBom then byteOrderMark ++ lines else lines

end GrammarLayout
