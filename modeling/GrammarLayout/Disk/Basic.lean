import GrammarLayout.Diagnostic.Basic
import GrammarLayout.Disk.Node
import GrammarLayout.Path

/-!
# The disk

A disk is a tree of files seen from a working directory.  A path is followed
name by name: every name but the last has to be a directory that exists.  Each
operation gives its result or says why there is none.

There are files and directories only: no links, no permissions that keep anyone
from one of them, and always room for what is written.
-/

namespace GrammarLayout

open Ascii Text

/-! ## Faults -/

/-- Why an operation on the disk fails. -/
inductive DiskFault where
  /-- There is nothing at the path. -/
  | missing
  /-- There is something at the path. -/
  | present
  /-- Something on the path is a file. -/
  | notDirectory
  /-- There is a directory at the path. -/
  | isDirectory
  /-- The path or one of its names is too long. -/
  | tooLong
  /-- The path holds a byte that no name may hold. -/
  | invalid
  deriving Repr, DecidableEq

/-- A fault in words. -/
def DiskFault.message : DiskFault → Text
  | missing => bytes "no such file or directory"
  | present => bytes "file exists"
  | notDirectory => bytes "not a directory"
  | isDirectory => bytes "is a directory"
  | tooLong => bytes "file name too long"
  | invalid => bytes "invalid argument"

/-- An operation on the disk that failed. -/
structure DiskError where
  /-- What was tried. -/
  verb : Text
  /-- The path it was tried at. -/
  path : Text
  /-- Why it failed. -/
  fault : DiskFault
  deriving Repr, DecidableEq

namespace DiskError

/-- A failed operation in words. -/
def message (e : DiskError) : Text := e.verb ++ bytes " " ++ e.path ++ bytes ": " ++ e.fault.message

/-- A failed operation as a failure of a run. -/
def failure (e : DiskError) : Failure := .plain e.message

end DiskError

/-! ## Following paths -/

/-- A tree of files and a place in it to start from. -/
structure Disk where
  /-- All files. -/
  root : Node := .dir []
  /-- The working directory. -/
  cwd : Location := []
  deriving Repr, Inhabited

namespace Disk

/-- The longest name. -/
def maxName : Nat := 255

/-- The longest path. -/
def maxPath : Nat := 4095

/-- The names of a path. -/
def names (path : Text) : List Text := (splitOn slash path).filter fun n => !n.isEmpty

/-- The place that names lead to, from a directory.  The last name need not exist. -/
def follow (root : Node) : Location → List Text → Except DiskFault Location
  | loc, [] => .ok loc
  | loc, name :: rest =>
      if name = [dot] then follow root loc rest
      else if name = Path.up then follow root loc.dropLast rest
      else if maxName < name.length then .error .tooLong
      else if rest.isEmpty then .ok (loc ++ [name])
      else
        match root.get? (loc ++ [name]) with
        | none => .error .missing
        | some (.file _) => .error .notDirectory
        | some (.dir _) => follow root (loc ++ [name]) rest

/-- The place that a path leads to. -/
def locate (d : Disk) (path : Text) : Except DiskFault Location :=
  if path.contains 0 then .error .invalid
  else if path.isEmpty then .error .missing
  else if maxPath < path.length then .error .tooLong
  else follow d.root (if Path.isAbsolute path then [] else d.cwd) (names path)

/-- Does the path end in a slash, so that it has to be a directory? -/
def asksDirectory (path : Text) : Bool := endsWith [slash] path

/-- What is at a path. -/
def find (d : Disk) (path : Text) : Except DiskFault Node := do
  let loc ← d.locate path
  match d.root.get? loc with
  | none => throw .missing
  | some (.file t) => if asksDirectory path then throw .notDirectory else return .file t
  | some n => return n

/-! ## Operations -/

/-- What is at a path, for an operation that looks at it only. -/
def stat (d : Disk) (path : Text) : Except DiskError Node :=
  (d.find path).mapError (⟨bytes "stat", path, ·⟩)

/-- Is there anything at a path? -/
def holds (d : Disk) (path : Text) : Bool := (d.find path).toBool

/-- The content of a file. -/
def read (d : Disk) (path : Text) : Except DiskError Text := do
  match ← (d.find path).mapError (⟨bytes "open", path, ·⟩) with
  | .file t => return t
  | .dir _ => throw ⟨bytes "read", path, .isDirectory⟩

/-- The place of a file that is to be written; a `fresh` one may not exist. -/
def target (d : Disk) (path : Text) (fresh : Bool) : Except DiskFault Location := do
  let loc ← d.locate path
  let last := (names path).getLast?
  if last.any fun n => n != [dot] && n != Path.up then
    if asksDirectory path then throw .isDirectory
  match d.root.get? loc with
  | none => return loc
  | some n =>
      if fresh then throw .present
      else if n.isDir then throw .isDirectory
      else return loc

/-- Writes a file, over what it held. -/
def write (d : Disk) (path content : Text) : Except DiskError Disk := do
  let loc ← (d.target path false).mapError (⟨bytes "open", path, ·⟩)
  return { d with root := d.root.put loc (.file content) }

/-- Writes a file that may not exist before. -/
def create (d : Disk) (path content : Text) : Except DiskError Disk := do
  let loc ← (d.target path true).mapError (⟨bytes "open", path, ·⟩)
  return { d with root := d.root.put loc (.file content) }

/-- Makes the directories on the way that are missing; `done` is the path so far. -/
def makeDirsFrom (d : Disk) (done : Text) : Location → List Text → Except DiskError Disk
  | _, [] => .ok d
  | loc, name :: rest =>
      let path := done ++ name
      if name = [dot] then makeDirsFrom d (path ++ [slash]) loc rest
      else if name = Path.up then makeDirsFrom d (path ++ [slash]) loc.dropLast rest
      else if maxName < name.length then .error ⟨bytes "mkdir", path, .tooLong⟩
      else
        match d.root.get? (loc ++ [name]) with
        | none =>
            makeDirsFrom { d with root := d.root.put (loc ++ [name]) (.dir []) } (path ++ [slash])
              (loc ++ [name]) rest
        | some (.file _) => .error ⟨bytes "mkdir", path, .notDirectory⟩
        | some (.dir _) => makeDirsFrom d (path ++ [slash]) (loc ++ [name]) rest

/-- Makes a directory and those above it, where they are missing. -/
def makeDirs (d : Disk) (path : Text) : Except DiskError Disk :=
  if path.contains 0 then .error ⟨bytes "mkdir", path, .invalid⟩
  else if path.isEmpty then .error ⟨bytes "mkdir", path, .missing⟩
  else if Path.isAbsolute path then d.makeDirsFrom [slash] [] (names path)
  else d.makeDirsFrom [] d.cwd (names path)

/-- Writes a file and makes the directories it needs. -/
def writeDeep (d : Disk) (path content : Text) : Except DiskError Disk := do
  let d ← d.makeDirs (Path.dir path)
  d.write path content

/-- Removes what is at a path, with everything below it; nothing there is fine. -/
def remove (d : Disk) (path : Text) : Except DiskError Disk :=
  match d.locate path with
  | .ok loc => .ok { d with root := d.root.erase loc }
  | .error .missing => .ok d
  | .error f => .error ⟨bytes "unlinkat", path, f⟩

end Disk

end GrammarLayout
