import GrammarLayout.Number.Power
import GrammarLayout.Text.Basic

/-!
# MessagePack

Values are written one after the other, each with a first byte that tells its
kind.  The writers here choose one form for each kind; the readers take every
form that the format has.  A reader gives what it read and what follows.
-/

namespace GrammarLayout.MessagePack

/-! ## Numbers in bytes -/

/-- The lowest `size` bytes of a number, the highest of them first. -/
def bigEndian : Nat → Nat → Text
  | 0, _ => []
  | size + 1, n => (n / twoTo (8 * size) % 256).toUInt8 :: bigEndian size n

/-- The number that bytes stand for, the highest byte first. -/
def ofBigEndian (s : Text) : Nat := s.foldl (fun n c => n * 256 + c.toNat) 0

/-- So many bytes, if there are enough. -/
def take? (n : Nat) (s : Text) : Option (Text × Text) :=
  if n ≤ s.length then some (s.take n, s.drop n) else none

/-- A number of so many bytes. -/
def nat? (size : Nat) (s : Text) : Option (Nat × Text) :=
  (take? size s).map fun r => (ofBigEndian r.1, r.2)

/-- A number of so many bytes with a sign. -/
def int? (size : Nat) (s : Text) : Option (Int × Text) :=
  (nat? size s).map fun r => (Int.bmod r.1 (twoTo (8 * size)), r.2)

/-! ## Writing -/

/-- A string, in the shortest form. -/
def writeString (s : Text) : Text :=
  let n := s.length
  let head : Text :=
    if n < 32 then [(0xA0 + n).toUInt8]
    else if n < twoTo 8 then 0xD9 :: bigEndian 1 n
    else if n < twoTo 16 then 0xDA :: bigEndian 2 n
    else 0xDB :: bigEndian 4 n
  head ++ s

/-- Fewer than 256 bytes. -/
def writeBytes (s : Text) : Text := 0xC4 :: bigEndian 1 s.length ++ s

/-- A number of 16 bits. -/
def writeUInt16 (n : Nat) : Text := 0xCD :: bigEndian 2 n

/-- A number of 64 bits with a sign. -/
def writeInt64 (n : Int) : Text := 0xD3 :: bigEndian 8 (n % twoTo 64).toNat

/-! ## Reading -/

/-- The empty value. -/
abbrev nil : UInt8 := 0xC0

/-- A whole number of any width; nil counts as 0. -/
def integer? (s : Text) : Option (Int × Text) :=
  match s with
  | [] => none
  | c :: r =>
      if c = nil then some (0, r)
      else if c < 0x80 then some (c.toNat, r)
      else if 0xE0 ≤ c then some ((c.toNat : Int) - 256, r)
      else if 0xCC ≤ c && c ≤ 0xCF then
        (nat? (twoTo (c.toNat - 0xCC)) r).map fun v => (v.1, v.2)
      else if 0xD0 ≤ c && c ≤ 0xD3 then int? (twoTo (c.toNat - 0xD0)) r
      else none

/-- The length of a string or of bytes; nil has none. -/
def length? (s : Text) : Option (Option Nat × Text) :=
  match s with
  | [] => none
  | c :: r =>
      let sized (size : Nat) := (nat? size r).map fun v => (some v.1, v.2)
      if c = nil then some (none, r)
      else if 0xA0 ≤ c && c < 0xC0 then some (some (c.toNat - 0xA0), r)
      else if c = 0xD9 || c = 0xC4 then sized 1
      else if c = 0xDA || c = 0xC5 then sized 2
      else if c = 0xDB || c = 0xC6 then sized 4
      else none

/-- A string or bytes, or nil. -/
def bytes? (s : Text) : Option (Option Text × Text) := do
  let (n, rest) ← length? s
  match n with
  | none => some (none, rest)
  | some n =>
      let (t, rest) ← take? n rest
      some (some t, rest)

/-- The number of entries of a map; nil has none. -/
def mapSize? (s : Text) : Option (Option Nat × Text) :=
  match s with
  | [] => none
  | c :: r =>
      let sized (size : Nat) := (nat? size r).map fun v => (some v.1, v.2)
      if c = nil then some (none, r)
      else if 0x80 ≤ c && c < 0x90 then some (some (c.toNat - 0x80), r)
      else if c = 0xDE then sized 2
      else if c = 0xDF then sized 4
      else none

/-- The number of items of an array. -/
def arraySize? (s : Text) : Option (Nat × Text) :=
  match s with
  | [] => none
  | c :: r =>
      if 0x90 ≤ c && c < 0xA0 then some (c.toNat - 0x90, r)
      else if c = 0xDC then nat? 2 r
      else if c = 0xDD then nat? 4 r
      else none

/-- The bytes of a value without parts after its first one, and the number of values that follow
as its parts. -/
def shape? (c : UInt8) (r : Text) : Option (Nat × Nat) :=
  let counted (size factor : Nat) := (nat? size r).map fun v => (size, v.1 * factor)
  let sized (size extra : Nat) := (nat? size r).map fun v => (size + extra + v.1, 0)
  if c < 0x80 || 0xE0 ≤ c then some (0, 0)
  else if c < 0x90 then some (0, 2 * (c.toNat - 0x80))
  else if c < 0xA0 then some (0, c.toNat - 0x90)
  else if c < 0xC0 then some (c.toNat - 0xA0, 0)
  else if c = nil || c = 0xC2 || c = 0xC3 then some (0, 0)
  else if c = 0xC4 || c = 0xD9 then sized 1 0
  else if c = 0xC5 || c = 0xDA then sized 2 0
  else if c = 0xC6 || c = 0xDB then sized 4 0
  else if c = 0xC7 then sized 1 1
  else if c = 0xC8 then sized 2 1
  else if c = 0xC9 then sized 4 1
  else if c = 0xCA then some (4, 0)
  else if c = 0xCB then some (8, 0)
  else if 0xCC ≤ c && c ≤ 0xCF then some (twoTo (c.toNat - 0xCC), 0)
  else if 0xD0 ≤ c && c ≤ 0xD3 then some (twoTo (c.toNat - 0xD0), 0)
  else if 0xD4 ≤ c && c ≤ 0xD8 then some (1 + twoTo (c.toNat - 0xD4), 0)
  else if c = 0xDC then counted 2 1
  else if c = 0xDD then counted 4 1
  else if c = 0xDE then counted 2 2
  else if c = 0xDF then counted 4 2
  else none

/-- What follows so many values.  Every value takes a byte, so the length of the text bounds the
steps. -/
def skipValues? : Nat → Nat → Text → Option Text
  | _, 0, s => some s
  | 0, _ + 1, _ => none
  | _ + 1, _ + 1, [] => none
  | fuel + 1, n + 1, c :: r => do
      let (size, parts) ← shape? c r
      let (_, rest) ← take? size r
      skipValues? fuel (n + parts) rest

/-- What follows one value of any kind. -/
def skip? (s : Text) : Option Text := skipValues? s.length 1 s

end GrammarLayout.MessagePack
