import GrammarLayout.Command.Footprint
import Std.Time.DateTime.Timestamp

/-!
# The command line

`main` reads the places that a command line touches from the disk, carries the
command out by `run`, and puts what changed on the disk and in the outputs.
-/

namespace GrammarLayout

open Text

/-! ## Reading -/

/-- A path as the system takes it. -/
def systemPath (path : Text) : String := (String.fromUTF8? ⟨path.toArray⟩).getD ""

/-- The path of a place. -/
def pathOfPlace (loc : Location) : Text := Path.ofParts true loc

/-- The rest of a stream. -/
partial def readRest (h : IO.FS.Stream) (done : ByteArray) : IO ByteArray := do
  let chunk ← h.read 65536
  if chunk.isEmpty then return done else readRest h (done ++ chunk)

/-- What is at a place: a file, empty unless it is `wanted`, or a directory without its entries. -/
def readNode? (wanted : Bool) (loc : Location) : IO (Option Node) := do
  try
    let real ← IO.FS.realPath (systemPath (pathOfPlace loc))
    if ← real.isDir then return some (.dir [])
    if !wanted then return some (.file [])
    let content ← IO.FS.readBinFile real
    return some (.file content.toList)
  catch _ => return none

/-- The names in the directory at a place. -/
def readNames (loc : Location) : IO (List Text) := do
  try
    let real ← IO.FS.realPath (systemPath (pathOfPlace loc))
    return (← real.readDir).toList.map fun e => bytes e.fileName
  catch _ => return []

/-- The tree with what is at a place, unless it is known already. -/
def readPlace (wanted : Bool) (root : Node) (loc : Location) : IO Node := do
  if (root.get? loc).isSome then return root
  match ← readNode? wanted loc with
  | some n => return root.put loc n
  | none => return root

/-- The tree with what is at a place and on the way there. -/
def readWay (root : Node) (loc : Location) : IO Node :=
  ((List.range (loc.length + 1)).map loc.take).foldlM (readPlace true) root

/-- The tree with everything below a place that a run can look at. -/
partial def readBelow (root : Node) (loc : Location) : IO Node := do
  let mut root := root
  for name in ← readNames loc do
    let place := loc ++ [name]
    root ← readPlace (isReadBelow name) root place
    if (root.get? place).any Node.isDir && !startsWith [Ascii.dot] name then
      root ← readBelow root place
  return root

/-- The part of the disk that a footprint covers. -/
def readDisk (f : Footprint) : IO Disk := do
  let cwd := Path.parts (bytes (← IO.currentDir).toString)
  let place (path : Text) : Location := Path.parts (Path.absolute (pathOfPlace cwd) path)
  let named := fun path : Text => !path.isEmpty
  let paths := (f.trees ++ f.paths).filter named
  let root ← (cwd :: paths.map place).foldlM readWay (.dir [])
  let root ← ((f.trees.filter named).map place).foldlM readBelow root
  return { root := root, cwd := cwd }

/-! ## Writing -/

/-- Writes a tree to a path, where it differs from what was there. -/
partial def writeTree (path : Text) (old : Option Node) (new : Node) : IO Unit := do
  match new with
  | .file content =>
      if old.bind Node.content? ≠ some content then
        IO.FS.writeBinFile (systemPath path) ⟨content.toArray⟩
  | .dir entries =>
      if old.isNone then IO.FS.createDirAll (systemPath path)
      for (name, n) in entries do
        writeTree (Path.join [path, name]) (old.bind (·.get? [name])) n

/-- Writes a text to a stream. -/
def writeText (h : IO.FS.Stream) (t : Text) : IO Unit := do
  h.write ⟨t.toArray⟩
  h.flush

/-! ## Running -/

/-- A variable of the surroundings; empty when it is not set. -/
def variableText (name : String) : IO Text := return bytes ((← IO.getEnv name).getD "")

/-- The present moment. -/
def presentMoment : IO Moment := do
  let t ← Std.Time.Timestamp.now
  return .ofUnix t.val.second.val t.val.nano.val 0

/-- What the tool finds around it, but for the files and the input. -/
def readSurroundings : IO Surroundings := do
  let noColour ← variableText "NO_COLOR"
  return {
    cacheHome := ← variableText "XDG_CACHE_HOME"
    home := ← variableText "HOME"
    colourful := (← (← IO.getStdout).isTty) && noColour.isEmpty
    recorder := { now := ← presentMoment } }

end GrammarLayout

open GrammarLayout in
/-- Carries out a command line. -/
def main (arguments : List String) : IO UInt32 := do
  let args := arguments.map bytes
  let s ← readSurroundings
  let request := (Request.ofArguments args).toOption
  let disk ← readDisk ((request.map (·.footprint s)).getD {})
  let input ←
    if request.any Request.readsInput then readRest (← IO.getStdin) .empty else pure .empty
  let outcome := run { s with disk := disk, input := input.toList } args
  writeTree [Ascii.slash] (some disk.root) outcome.disk.root
  writeText (← IO.getStdout) outcome.streams.out
  writeText (← IO.getStderr) outcome.streams.err
  return if outcome.failed then 1 else 0
