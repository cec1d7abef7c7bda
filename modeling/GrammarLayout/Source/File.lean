import GrammarLayout.Digest.Sha256
import GrammarLayout.Path
import GrammarLayout.Source.Newline

/-!
# Source files

A file of a run has a number, its cleaned path, its normalized content with the
positions of its newlines and its digest, and the flags that tell its form.  A
`FileSet` keeps every version of every file that was added, and knows for each
path which version is the latest.
-/

namespace GrammarLayout

open Ascii Text

/-- One version of a file. -/
structure SourceFile where
  /-- Its number. -/
  id : Nat
  /-- Its cleaned path. -/
  path : Text
  /-- Its content. -/
  content : Text
  /-- The positions of the newlines in the content. -/
  newlines : List Nat
  /-- The digest of the content. -/
  hash : Text
  /-- The form it had. -/
  flags : FileFlags
  deriving Repr, DecidableEq

/-- The positions of the newlines of a text whose first byte has position `i`. -/
def newlinesFrom (i : Nat) : Text → List Nat
  | [] => []
  | c :: s => if c = newline then i :: newlinesFrom (i + 1) s else newlinesFrom (i + 1) s

/-- The first number with a path, in an index of paths. -/
abbrev PathIndex := List (Text × Nat)

namespace SourceFile

/-- The number of lines, a last line without newline included. -/
def lineCount (f : SourceFile) : Nat :=
  match f.content.getLast? with
  | none => f.newlines.length
  | some c => if c = newline then f.newlines.length else f.newlines.length + 1

/-- The line with a number, from 1, without its newline; nothing when there is no such line. -/
def line (f : SourceFile) (n : Int) : Text :=
  if n < 1 ∨ (f.lineCount : Int) < n then []
  else
    let i := n.toNat - 1
    let start := if i = 0 then 0 else (f.newlines[i - 1]?.map (· + 1)).getD 0
    let stop := (f.newlines[i]?).getD f.content.length
    (f.content.take stop).drop start

/-- Formatted content in the form that the file had. -/
def restore (f : SourceFile) (content : Text) : Text := GrammarLayout.restore f.flags content

end SourceFile

/-- The versions of the files of a run. -/
structure FileSet where
  /-- All versions, by number. -/
  files : List SourceFile := []
  /-- The number of the latest version of each path. -/
  latest : PathIndex := []
  deriving Repr, DecidableEq

namespace FileSet

/-- The index with the number of a path set. -/
def setLatest (path : Text) (id : Nat) : PathIndex → PathIndex
  | [] => [(path, id)]
  | (p, n) :: rest => if p = path then (p, id) :: rest else (p, n) :: setLatest path id rest

/-- The set with a new version of a file, and that version. -/
def add (fs : FileSet) (path content : Text) (flags : FileFlags) : FileSet × SourceFile :=
  let cleaned := Path.clean path
  let file : SourceFile :=
    { id := fs.files.length, path := cleaned, content := content,
      newlines := newlinesFrom 0 content, hash := sha256 content, flags := flags }
  ({ files := fs.files ++ [file], latest := setLatest cleaned file.id fs.latest }, file)

/-- The set with the normalized content of a file added. -/
def addRaw (fs : FileSet) (path content : Text) (extra : FileFlags) : FileSet × SourceFile :=
  let (text, flags) := normalize content
  fs.add path text (flags ||| extra)

/-- The set with a file that is not on disk. -/
def addVirtual (fs : FileSet) (path content : Text) : FileSet × SourceFile :=
  fs.addRaw path content .isVirtual

/-- The version with a number. -/
def get? (fs : FileSet) (id : Nat) : Option SourceFile := fs.files[id]?

/-- The number of the latest version of a path. -/
def latest? (fs : FileSet) (path : Text) : Option Nat := fs.latest.lookup (Path.clean path)

/-- The latest version of a path. -/
def find? (fs : FileSet) (path : Text) : Option SourceFile := (fs.latest? path).bind fs.get?

/-- The number of versions. -/
def size (fs : FileSet) : Nat := fs.files.length

end FileSet

end GrammarLayout
