import GrammarLayout.Command.Program

/-!
# What a request touches

`Surroundings.disk` need not be a whole disk.  `Request.footprint` names the
places that a request can look at or change; a disk that agrees with another
one there serves as well.
-/

namespace GrammarLayout

open Ascii Text

/-- Places on a disk. -/
structure Footprint where
  /-- Paths that matter by themselves. -/
  paths : List Text := []
  /-- Paths that matter with everything below them. -/
  trees : List Text := []
  deriving Repr, DecidableEq

/-- Can a run look into a file that was found below a directory? -/
def isReadBelow (name : Text) : Bool := isGrammarPath name || Path.ext name = bytes ".mp"

/-- The files that traces and profiles are written to. -/
def observedPaths (g : GivenFlags) : List Text :=
  ["trace", "cpu-profile", "mem-profile", "runtime-trace"].map fun name => g.word (bytes name) []

/-- The places that a request can look at or change. -/
def Request.footprint (s : Surroundings) : Request → Footprint
  | .run .format g operands =>
      { paths := g.word (bytes "config") configName :: observedPaths g
        trees := operands ++ (if g.isOn (bytes "cache") then s.cacheDir.toOption.toList else []) }
  | .run .init g operands =>
      let dir := operands.headD [dot]
      { paths := dir :: Path.join [dir, configName] :: observedPaths g }
  | .run _ g _ => { paths := observedPaths g }
  | .usage _ | .versionLine => {}

/-- Does a request look at the input? -/
def Request.readsInput : Request → Bool
  | .run .format _ operands => operands = [[minus]]
  | _ => false

end GrammarLayout
