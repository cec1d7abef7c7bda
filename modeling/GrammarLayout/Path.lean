import GrammarLayout.Text.Basic

/-!
# File paths

A path is a text whose parts are divided by slashes.  `clean` gives the
shortest path with the same meaning, as far as the text alone shows it: empty
and `.` parts are dropped and `..` cancels the part before it.
-/

namespace GrammarLayout

open Ascii Text

namespace Path

/-- The part that stands for the directory above. -/
def up : Text := [dot, dot]

/-- Does the path start at the root? -/
def isAbsolute (p : Text) : Bool := startsWith [slash] p

/-- One more part on a stack of parts, the last on top. -/
def push (absolute : Bool) (stack : List Text) (part : Text) : List Text :=
  if part = [] ∨ part = [dot] then stack
  else if part = up then
    match stack with
    | [] => if absolute then [] else [up]
    | top :: rest => if top = up then up :: stack else rest
  else part :: stack

/-- The parts of a path after cleaning. -/
def parts (p : Text) : List Text :=
  ((splitOn slash p).foldl (push (isAbsolute p)) []).reverse

/-- The path with the given parts. -/
def ofParts (absolute : Bool) (ps : List Text) : Text :=
  if absolute then slash :: Text.join [slash] ps
  else if ps.isEmpty then [dot]
  else Text.join [slash] ps

/-- The shortest path with the same meaning. -/
def clean (p : Text) : Text := ofParts (isAbsolute p) (parts p)

/-- Paths put one below the other, empty ones left out, and cleaned. -/
def join (ps : List Text) : Text :=
  let named := ps.filter fun p => !p.isEmpty
  if named.isEmpty then [] else clean (Text.join [slash] named)

/-- The path seen from the root, given the working directory. -/
def absolute (cwd p : Text) : Text := if isAbsolute p then clean p else join [cwd, p]

/-- The last part of a path. -/
def base (p : Text) : Text :=
  if p.isEmpty then [dot]
  else
    let bare := trimEndWhile (· == slash) p
    if bare.isEmpty then [slash] else (bare.reverse.takeWhile (· != slash)).reverse

/-- All but the last part of a path. -/
def dir (p : Text) : Text := clean (p.reverse.dropWhile (· != slash)).reverse

/-- The last part's ending from its last dot on, or nothing. -/
def ext (p : Text) : Text :=
  let name := (p.reverse.takeWhile (· != slash)).reverse
  if name.contains dot then dot :: (name.reverse.takeWhile (· != dot)).reverse else []

/-- The two lists without the parts they start with in common. -/
def dropCommon : List Text → List Text → List Text × List Text
  | a :: as, b :: bs => if a = b then dropCommon as bs else (a :: as, b :: bs)
  | as, bs => (as, bs)

/-- The way from one directory to a path, if the texts tell it. -/
def relative? (start target : Text) : Option Text :=
  if isAbsolute start != isAbsolute target then none
  else
    let (above, below) := dropCommon (parts start) (parts target)
    if above.head? = some up then none
    else some (ofParts false (above.map (fun _ => up) ++ below))

end Path

end GrammarLayout
