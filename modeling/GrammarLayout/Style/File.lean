import GrammarLayout.Disk.Basic
import GrammarLayout.Style.Encode
import GrammarLayout.Toml.Builder

/-!
# The configuration file

A style is read from a TOML file; without a file it is the default one.  The
default style is written to a new file only.
-/

namespace GrammarLayout

open Text

/-- The name of the configuration file. -/
def configName : Text := bytes ".raccfmt.toml"

/-- The comment that a new configuration file starts with. -/
def configHeader : Text :=
  bytes "# raccfmt configuration\n"
    ++ bytes "# Every key is optional; missing keys fall back to the defaults below.\n\n"

/-- The style that the content of a configuration file describes. -/
def Style.ofToml (content : Text) : Except Failure Style :=
  match Toml.read? content with
  | none => .error (.config .invalidToml (bytes "invalid TOML in config file") none)
  | some raw => (Style.ofSettings raw).mapError SettingFault.failure

namespace Disk

/-- The style that the configuration file at a path describes. -/
def loadStyle (d : Disk) (path : Text) : Except Failure Style :=
  match d.stat path with
  | .error e =>
      if e.fault = .missing then .ok {}
      else .error (.config .configUnreadable (bytes "failed to stat " ++ path) (some e.failure))
  | .ok _ =>
      match d.read path with
      | .error e =>
          .error ((Failure.config .configUnreadable (bytes "failed to read config file")
            (some e.failure)).withPath path)
      | .ok content => (Style.ofToml content).mapError (Failure.withPath path)

/-- Writes the default style to a new file. -/
def writeDefaultStyle (d : Disk) (path : Text) : Except Failure Disk :=
  match d.create path (configHeader ++ ({} : Style).encode) with
  | .ok d => .ok d
  | .error e =>
      if e.fault = .present then
        .error ((Failure.config .configExists (bytes "config file already exists")
          (some e.failure)).withPath path)
      else .error e.failure

end Disk

end GrammarLayout
