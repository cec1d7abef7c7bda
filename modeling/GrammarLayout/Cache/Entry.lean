import GrammarLayout.Cache.MessagePack
import GrammarLayout.Digest.Sha256

/-!
# Entries of the cache

The cache knows of a content that it is formatted under a style.  An entry is
found by a key made from the digest of the content and the fingerprint of the
style, and is kept as a MessagePack map.
-/

namespace GrammarLayout

open MessagePack

/-- The version of the form that entries are kept in. -/
def cacheSchema : Nat := 1

/-- The key of a content under a style. -/
def cacheKey (content style : Text) : Text := sha256 (content ++ style)

/-- What is kept of a formatted file. -/
structure CacheEntry where
  /-- The version of its form. -/
  schema : Nat := 0
  /-- The path of the file. -/
  path : Text := []
  /-- The digest of its content. -/
  content : Text := List.replicate 32 0
  /-- The fingerprint of the style. -/
  style : Text := List.replicate 32 0
  /-- When it was found to be formatted, in seconds. -/
  checkedAt : Int := 0
  deriving Repr, DecidableEq

namespace CacheEntry

/-- An entry as it is kept. -/
def encode (e : CacheEntry) : Text :=
  0x85 :: (writeString (bytes "Schema") ++ writeUInt16 e.schema
    ++ writeString (bytes "Path") ++ writeString e.path
    ++ writeString (bytes "ContentHash") ++ writeBytes e.content
    ++ writeString (bytes "Config") ++ writeBytes e.style
    ++ writeString (bytes "CheckedAt") ++ writeInt64 e.checkedAt)

/-! ## Reading -/

/-- The entry with a version read, of which the lowest 16 bits count. -/
def readSchema (e : CacheEntry) (s : Text) : Option (CacheEntry × Text) :=
  (integer? s).map fun r => ({ e with schema := (r.1 % (twoTo 16 : Int)).toNat }, r.2)

/-- The entry with a path read. -/
def readPath (e : CacheEntry) (s : Text) : Option (CacheEntry × Text) :=
  (bytes? s).map fun r => ({ e with path := r.1.getD [] }, r.2)

/-- A digest with the bytes read in front; more than it has do not fit. -/
def readDigest (old : Text) (s : Text) : Option (Text × Text) := do
  let (n, _) ← length? s
  if n.any (old.length < ·) then none
  else
    let (t, rest) ← bytes? s
    let new := t.getD []
    some (new ++ old.drop new.length, rest)

/-- The entry with the digest of the content read. -/
def readContent (e : CacheEntry) (s : Text) : Option (CacheEntry × Text) :=
  (readDigest e.content s).map fun r => ({ e with content := r.1 }, r.2)

/-- The entry with the fingerprint of the style read. -/
def readStyle (e : CacheEntry) (s : Text) : Option (CacheEntry × Text) :=
  (readDigest e.style s).map fun r => ({ e with style := r.1 }, r.2)

/-- The entry with a time read, of which the lowest 64 bits count. -/
def readCheckedAt (e : CacheEntry) (s : Text) : Option (CacheEntry × Text) :=
  (integer? s).map fun r => ({ e with checkedAt := Int.bmod r.1 (twoTo 64) }, r.2)

/-- The entry with the value of a key read; a value of an unknown key is left out. -/
def readField (e : CacheEntry) (key : Text) (s : Text) : Option (CacheEntry × Text) :=
  if key = bytes "Schema" then e.readSchema s
  else if key = bytes "Path" then e.readPath s
  else if key = bytes "ContentHash" then e.readContent s
  else if key = bytes "Config" then e.readStyle s
  else if key = bytes "CheckedAt" then e.readCheckedAt s
  else (skip? s).map (e, ·)

/-- The entry with so many keys and values read. -/
def readFields : Nat → CacheEntry → Text → Option CacheEntry
  | 0, e, _ => some e
  | n + 1, e, s => do
      let (key, rest) ← bytes? s
      let (e, rest) ← e.readField (key.getD []) rest
      readFields n e rest

/-- The entry that five values in order describe. -/
def readItems (s : Text) : Option CacheEntry := do
  let (e, rest) ← ({} : CacheEntry).readSchema s
  let (e, rest) ← e.readPath rest
  let (e, rest) ← e.readContent rest
  let (e, rest) ← e.readStyle rest
  let (e, _) ← e.readCheckedAt rest
  some e

/-- The entry that a text holds: a map, an array of all fields, or nothing at all. -/
def decode? (s : Text) : Option CacheEntry :=
  match mapSize? s with
  | some (none, _) => some {}
  | some (some n, rest) => readFields n {} rest
  | none => do
      let (n, rest) ← arraySize? s
      if n = 0 then some {}
      else if n = 5 then readItems rest
      else none

end CacheEntry

end GrammarLayout
