import GrammarLayout.Text.Blank
import GrammarLayout.View.Colour

/-!
# The version of the tool
-/

namespace GrammarLayout

open Ascii Text

/-- What is known of the build of the tool. -/
structure Build where
  /-- The version. -/
  version : Text := bytes "0.1.0-dev"
  /-- The commit it was built from; empty when it is not known. -/
  commit : Text := []
  /-- The date it was built; empty when it is not known. -/
  date : Text := []
  deriving Repr, DecidableEq

/-- A text cut at the first byte equal to `sep`, if there is one. -/
def cutAt? (sep : UInt8) (s : Text) : Option (Text × Text) :=
  if s.contains sep then some (s.takeWhile (· != sep), (s.dropWhile (· != sep)).drop 1) else none

/-- The version with its three numbers painted; what follows the third number is plain, and a
version that has no three parts is plain too. -/
def Build.paintedVersion (b : Build) (colour : Bool) : Text :=
  let v := trim b.version
  let parts := do
    let (major, rest) ← cutAt? dot v
    let (minor, rest) ← cutAt? dot rest
    some (major, minor, rest)
  match parts with
  | none => v
  | some (major, minor, rest) =>
      let isNumber (c : UInt8) : Bool := c != minus && c != 0x2B
      Paint.boldYellow.apply colour major ++ [dot] ++ Paint.boldGreen.apply colour minor ++ [dot]
        ++ Paint.boldBlue.apply colour (rest.takeWhile isNumber) ++ rest.dropWhile isNumber

/-- A recorded fact, or a word that says there is none. -/
def valueOrUnknown (s : Text) : Text := if isSpaces s then bytes "unknown" else trim s

end GrammarLayout
