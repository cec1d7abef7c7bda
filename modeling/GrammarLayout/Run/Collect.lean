import GrammarLayout.Disk.Basic
import GrammarLayout.Text.Case

/-!
# The files of a run

The arguments of a run name files and directories.  A file that is named is
taken as it is; a directory stands for the grammar files below it, except those
in hidden directories.  Together they are sorted, each path once.

A walk opens the directories it comes to by their paths, name after name.  One
whose path is too long cannot be opened, and the walk ends there.
-/

namespace GrammarLayout

open Ascii Text

/-- The endings of grammar files, in small letters. -/
def grammarEndings : List Text := [bytes ".y", bytes ".ry", bytes ".racc"]

/-- Does the path have the ending of a grammar file, in letters of either case? -/
def isGrammarPath (path : Text) : Bool := grammarEndings.contains (fold (Path.ext path))

/-- A named value put in front of the first one whose name is not less. -/
def insertByName {α : Type} (x : Text × α) : List (Text × α) → List (Text × α)
  | [] => [x]
  | y :: rest => if notAfter x.1 y.1 then x :: y :: rest else y :: insertByName x rest

/-- Named values in the order of their names. -/
def sortByName {α : Type} (xs : List (Text × α)) : List (Text × α) := xs.foldr insertByName []

/-- What walks found below names, taken in the order of the names until one of them fails. -/
def findings (walks : List (Text × Except DiskError (List Text))) :
    Except DiskError (List Text) := do
  let found ← (sortByName walks).mapM Prod.snd
  return found.flatten

mutual

/-- The grammar files at or below a path. -/
def Node.grammarFiles (path : Text) : Node → Except DiskError (List Text)
  | .file _ => .ok (if isGrammarPath path then [path] else [])
  | .dir entries =>
      if Disk.maxPath < path.length then .error ⟨bytes "open", path, .tooLong⟩
      else findings (walksIn path entries)

/-- The walks through the entries of the directory at a path. -/
def walksIn (path : Text) : List (Text × Node) → List (Text × Except DiskError (List Text))
  | [] => []
  | entry :: rest => walkOf path entry :: walksIn path rest

/-- The walk through one entry; a hidden directory is not entered. -/
def walkOf (path : Text) : Text × Node → Text × Except DiskError (List Text)
  | (name, node) =>
      (name, if node.isDir && startsWith [dot] name then .ok []
        else node.grammarFiles (Path.join [path, name]))

end

/-- The files that an argument stands for. -/
def Disk.filesOf (d : Disk) (path : Text) : Except DiskError (List Text) := do
  match ← d.stat path with
  | .file _ => return [Path.clean path]
  | .dir entries => (Node.dir entries).grammarFiles path

/-- The texts in bytewise order, each once. -/
def sortTexts (ts : List Text) : List Text := (ts.eraseDups).mergeSort notAfter

/-- The files that arguments stand for; a run that was cancelled looks at none. -/
def Disk.collect (d : Disk) (cancelled : Bool) (paths : List Text) :
    Except Failure (List Text) := do
  let files ← paths.mapM fun p =>
    if cancelled then throw .cancelled else (d.filesOf p).mapError DiskError.failure
  return sortTexts files.flatten

end GrammarLayout
