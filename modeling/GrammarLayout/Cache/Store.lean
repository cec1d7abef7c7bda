import GrammarLayout.Cache.Entry
import GrammarLayout.Disk.Basic

/-!
# The cache on disk

Entries are files below the directory of the cache, spread over directories by
the first two digits of their keys.  Entries of another version count as
missing.
-/

namespace GrammarLayout

open Text

/-- A cache, by its directory. -/
structure Cache where
  /-- The directory. -/
  dir : Text
  deriving Repr, DecidableEq

namespace Cache

/-- The directory that holds all entries. -/
def entriesDir (c : Cache) : Text := Path.join [c.dir, bytes "formatted"]

/-- The file of an entry. -/
def pathOf (c : Cache) (key : Text) : Text :=
  let name := hex key
  Path.join [c.dir, bytes "formatted", name.take 2, name ++ bytes ".mp"]

/-- Opens a cache; its directory is made. -/
def openAt (d : Disk) (dir : Text) : Except DiskError (Disk × Cache) := do
  let d ← d.makeDirs dir
  return (d, ⟨dir⟩)

/-- Why an entry cannot be read. -/
inductive Fault where
  /-- Its file cannot be read. -/
  | unreadable (e : DiskError)
  /-- Its file holds no entry. -/
  | malformed
  deriving Repr, DecidableEq

/-- The entry of a key. -/
def get (c : Cache) (d : Disk) (key : Text) : Except Fault (Option CacheEntry) :=
  match d.read (c.pathOf key) with
  | .error e => if e.fault = .missing then .ok none else .error (.unreadable e)
  | .ok content =>
      match CacheEntry.decode? content with
      | none => .error .malformed
      | some e => .ok (if e.schema = cacheSchema then some e else none)

/-- Is there an entry of a key that can be read? -/
def has (c : Cache) (d : Disk) (key : Text) : Bool :=
  match c.get d key with
  | .ok (some _) => true
  | _ => false

/-- Keeps an entry.  Without a time it gets the present one. -/
def put (c : Cache) (d : Disk) (now : Int) (key : Text) (e : CacheEntry) :
    Except DiskError Disk := do
  let path := c.pathOf key
  let d ← d.makeDirs (Path.dir path)
  let e := { e with
    schema := cacheSchema
    checkedAt := if e.checkedAt = 0 then now else e.checkedAt }
  match d.find path with
  | .ok (.dir _) => throw ⟨bytes "rename", path, .present⟩
  | _ => d.write path e.encode

/-- Forgets all entries. -/
def dropAll (c : Cache) (d : Disk) : Except DiskError Disk := d.remove c.entriesDir

end Cache

end GrammarLayout
