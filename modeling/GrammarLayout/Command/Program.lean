import GrammarLayout.Command.Observe
import GrammarLayout.Run.Format
import GrammarLayout.Run.Report
import GrammarLayout.Style.File

/-!
# The tool

`run` carries out a command line: it takes what the tool finds around it and
gives what the tool leaves behind, the disk, its two outputs and whether it
failed.
-/

namespace GrammarLayout

open Ascii Text

/-- What the tool finds around it. -/
structure Surroundings where
  /-- The files. -/
  disk : Disk := {}
  /-- The input. -/
  input : Text := []
  /-- The directory for caches; empty when it is not set. -/
  cacheHome : Text := []
  /-- The home directory; empty when it is not set. -/
  home : Text := []
  /-- Whether colours show where the output goes. -/
  colourful : Bool := false
  /-- The build of the tool. -/
  build : Build := {}
  /-- The state of the trace: the time, and the numbers given so far. -/
  recorder : Recorder := {}
  deriving Repr

/-- What the tool leaves behind. -/
structure Outcome where
  /-- The files. -/
  disk : Disk
  /-- The outputs. -/
  streams : Streams := {}
  /-- Whether it failed. -/
  failed : Bool := false
  /-- The state of the trace. -/
  recorder : Recorder := {}
  deriving Repr

/-- A command under way. -/
structure Work where
  /-- The files. -/
  disk : Disk
  /-- The trace. -/
  recorder : Recorder
  /-- The outputs so far. -/
  streams : Streams := {}
  deriving Repr

namespace Work

/-- The work with more outputs. -/
def print (w : Work) (s : Streams) : Work := { w with streams := w.streams.append s }

/-- The source file at a path on disk. -/
def source? (w : Work) (path : Text) : Option SourceFile :=
  (w.disk.read path).toOption.map fun content => (({} : FileSet).addRaw path content 0).2

end Work

/-- The way failures are shown. -/
def shown (d : Disk) (colour : Bool) : RenderOptions :=
  { colour := colour, context := 1, cwd := slash :: Text.join [slash] d.cwd }

/-! ## Formatting -/

/-- The flags of the command that formats. -/
structure FormatFlags where
  /-- The path of the configuration file. -/
  config : Text
  /-- What is done with formatted files. -/
  mode : RunMode
  /-- Whether the cache is used. -/
  cache : Bool
  /-- Whether the report is JSON. -/
  json : Bool
  /-- Whether the time is reported. -/
  timings : Bool
  /-- Whether files that change go unmentioned. -/
  quiet : Bool
  deriving Repr, DecidableEq

/-- Does a value say whether progress is shown? -/
def isProgressWord (w : Text) : Bool :=
  [[], bytes "auto", bytes "on", bytes "off"].contains (trim (fold w))

/-- The mode that switches ask for; they exclude each other. -/
def modeOf (write check stdout : Bool) : Except Failure RunMode :=
  if 1 < [write, check, stdout].count true then
    .error (.plain (bytes "format: --write, --check and --stdout are mutually exclusive"))
  else if write then .ok .write
  else if check then .ok .check
  else .ok .stdout

/-- The flags of the command that formats, as they were given. -/
def FormatFlags.ofGiven (g : GivenFlags) : Except Failure FormatFlags := do
  let progress := g.word (bytes "ui") (bytes "auto")
  if !isProgressWord progress then
    throw (.plain
      (bytes "invalid --ui value " ++ quoted progress ++ bytes " (expected auto|on|off)"))
  let mode ← modeOf (g.isOn (bytes "write")) (g.isOn (bytes "check")) (g.isOn (bytes "stdout"))
  let output := fold (trim (g.word (bytes "output") (bytes "text")))
  let json := output = bytes "json"
  if !json && output ≠ bytes "text" then
    throw (.plain (bytes "format: unsupported output format " ++ quoted output))
  if mode = .stdout && json then
    throw (.plain (bytes "format: --stdout is only supported with text output"))
  return {
    config := g.word (bytes "config") configName
    mode := mode
    cache := g.isOn (bytes "cache")
    json := json
    timings := g.isOn (bytes "timings")
    quiet := g.isOn (bytes "quiet") }

/-- The directory of the cache. -/
def Surroundings.cacheDir (s : Surroundings) : Except Failure Text :=
  if !s.cacheHome.isEmpty then .ok (Path.join [s.cacheHome, toolName])
  else if s.home.isEmpty then .error (.plain (bytes "$HOME is not defined"))
  else .ok (Path.join [Path.join [s.home, bytes ".cache"], toolName])

/-- Formats the input to the output. -/
def formatInput (style : Style) (input : Text) (w : Work) : Work × Option Failure :=
  let (probe, result) := formatContent style { recorder := w.recorder } (bytes "<stdin>") input
  let w := { w with recorder := probe.recorder }
  match result with
  | .error f => (w, some f)
  | .ok out => (w.print { out := out }, none)

/-- The disk and the cache for a run, if the flags ask for one. -/
def openCache (s : Surroundings) (f : FormatFlags) (d : Disk) :
    Except Failure (Disk × Option Cache) := do
  if f.cache && f.mode ≠ .stdout then
    let dir ← s.cacheDir
    let (d, c) ← (Cache.openAt d dir).mapError DiskError.failure
    return (d, some c)
  else return (d, none)

/-- Formats files and reports on them. -/
def formatPaths (f : FormatFlags) (colour : Bool) (style : Style) (cache : Option Cache)
    (paths : List Text) (w : Work) : Work × Option Failure :=
  let o : RunOptions := { style := style, mode := f.mode, cache := cache }
  let (s, results) := o.formatFiles { disk := w.disk, recorder := w.recorder } paths
  let w := { w with disk := s.disk, recorder := s.recorder }
  let w :=
    if f.json then
      w.print { out := jsonReport f.mode results (if f.timings then some s.totals else none) }
    else
      let w := w.print (textReport (shown w.disk colour) w.source? f.mode f.quiet results)
      if f.timings then w.print { err := s.totals.summary } else w
  (w, (summarize results).verdict f.mode)

/-- Carries out the command that formats. -/
def runFormat (s : Surroundings) (g : GivenFlags) (colour : Bool) (operands : List Text)
    (w : Work) : Work × Option Failure :=
  let prepared : Except Failure (FormatFlags × Style) := do
    let f ← FormatFlags.ofGiven g
    return (f, ← w.disk.loadStyle f.config)
  match prepared with
  | .error e => (w, some e)
  | .ok (f, style) =>
      if operands = [[minus]] then
        if f.mode ≠ .stdout then
          (w, some (.plain (bytes "format: stdin input only supports --stdout")))
        else formatInput style s.input w
      else
        let opened : Except Failure (List Text × Disk × Option Cache) := do
          return (← w.disk.sources operands, ← openCache s f w.disk)
        match opened with
        | .error e => (w, some e)
        | .ok (paths, disk, cache) => formatPaths f colour style cache paths { w with disk := disk }

/-! ## The other commands -/

/-- Carries out the command that writes a configuration file. -/
def runInit (g : GivenFlags) (operands : List Text) (w : Work) : Work × Option Failure :=
  let dir := operands.headD [dot]
  match w.disk.stat dir with
  | .error e => (w, some e.failure)
  | .ok (.file _) => (w, some (.plain (quoted dir ++ bytes " is not a directory")))
  | .ok (.dir _) =>
      let path := Path.join [dir, configName]
      match w.disk.writeDefaultStyle path with
      | .error e => (w, some e)
      | .ok d =>
          let w := { w with disk := d }
          if g.isOn (bytes "quiet") then (w, none)
          else (w.print { out := bytes "created " ++ path ++ bytes "\n" }, none)

/-- What is known of the build, for readers. -/
def Build.describe (b : Build) (colour hash date : Bool) : Text :=
  toolName ++ bytes " " ++ b.paintedVersion colour ++ bytes "\n"
    ++ (if hash then bytes "commit: " ++ valueOrUnknown b.commit ++ bytes "\n" else [])
    ++ (if date then bytes "built:  " ++ valueOrUnknown b.date ++ bytes "\n" else [])

/-- What is known of the build, as JSON. -/
def Build.json (b : Build) (hash date : Bool) : Json :=
  .object <|
    [(bytes "tool", .string toolName), (bytes "version", .string (valueOrUnknown b.version))]
    ++ (if hash then [(bytes "git_commit", .string (valueOrUnknown b.commit))] else [])
    ++ (if date then [(bytes "build_date", .string (valueOrUnknown b.date))] else [])

/-- Carries out the command that tells the version. -/
def runVersion (b : Build) (g : GivenFlags) (colour : Bool) (w : Work) : Work × Option Failure :=
  let full := g.isOn (bytes "full")
  let hash := full || g.isOn (bytes "hash")
  let date := full || g.isOn (bytes "date")
  let format := g.word (bytes "format") (bytes "pretty")
  if fold format = bytes "pretty" then (w.print { out := b.describe colour hash date }, none)
  else if fold format = bytes "json" then
    (w.print { out := (b.json hash date).indented 0 ++ bytes "\n" }, none)
  else
    (w, some (.plain (bytes "unsupported format " ++ quoted format
      ++ bytes " (must be pretty or json)")))

/-! ## The whole -/

/-- Whether colours are used, as a flag says. -/
def colourOf (g : GivenFlags) (colourful : Bool) : Except Failure Bool :=
  let value := g.word (bytes "color") (bytes "auto")
  let w := fold (trim value)
  if w = [] ∨ w = bytes "auto" then .ok colourful
  else if w = bytes "on" then .ok true
  else if w = bytes "off" then .ok false
  else
    .error (.plain
      (bytes "invalid --color value " ++ quoted value ++ bytes " (expected auto|on|off)"))

/-- Carries out a command. -/
def Command.perform (c : Command) (s : Surroundings) (g : GivenFlags) (colour : Bool)
    (operands : List Text) (w : Work) : Work × Option Failure :=
  match c with
  | .format => runFormat s g colour operands w
  | .init => runInit g operands w
  | .version => runVersion s.build g colour w
  | _ => (w, none)

/-- Ends the work: a failure is shown last. -/
def Work.finish (w : Work) (colour : Bool) (failure : Option Failure) : Outcome :=
  let w := match failure with
    | none => w
    | some f => w.print { err := f.render (shown w.disk colour) w.source? }
  { disk := w.disk, streams := w.streams, failed := failure.isSome, recorder := w.recorder }

/-- Closes profiles that were opened. -/
def ProfileOptions.closeIn (o : ProfileOptions) (w : Work) : Work :=
  let (d, message) := o.close w.disk
  { w with disk := d }.print { err := message }

/-- Carries out a command within a trace. -/
def performTraced (c : Command) (s : Surroundings) (g : GivenFlags) (colour : Bool)
    (operands : List Text) (o : TraceOptions) (sink : Sink) (w : Work) : Work × Option Failure :=
  let (w, failure) := c.perform s g colour operands
    { w with recorder := { w.recorder with sink := sink } }
  let traced := if o.toErrors then w.recorder.sink.written else []
  let (d, message) := o.close w.disk w.recorder.sink
  let streams := (Streams.append { err := traced } w.streams).append { err := message }
  let recorder := { w.recorder with sink := .nowhere }
  ({ disk := d, recorder := recorder, streams := streams }, failure)

/-- Carries out a command within the traces and profiles that its flags ask for. -/
def performObserved (c : Command) (s : Surroundings) (g : GivenFlags) (operands : List Text) :
    Outcome :=
  let w : Work := { disk := s.disk, recorder := s.recorder }
  match colourOf g s.colourful with
  | .error f => w.finish false (some f)
  | .ok colour =>
      let profiles := ProfileOptions.ofFlags g
      let (d, failure) := profiles.begin w.disk
      let w := { w with disk := d }
      match failure with
      | some f => w.finish colour (some f)
      | none =>
          let begun : Except Failure (TraceOptions × Disk × Sink) := do
            let o ← TraceOptions.ofFlags g
            let (d, sink) ← (o.begin w.disk).mapError (.within (bytes "failed to create tracer"))
            return (o, d, sink)
          match begun with
          | .error f => (profiles.closeIn w).finish colour (some f)
          | .ok (o, d, sink) =>
              let (w, failure) := performTraced c s g colour operands o sink { w with disk := d }
              (profiles.closeIn w).finish colour failure

/-- How the tool is used. -/
def usage : Text :=
  bytes "raccfmt rewrites Racc (.y) grammar files into a consistent layout\n\nUsage:\n"
    ++ bytes "  raccfmt format [flags] <path|-> [path...]\n  raccfmt init [dir]\n"
    ++ bytes "  raccfmt version [flags]\n"

/-- Carries out a command line. -/
def run (s : Surroundings) (args : List Text) : Outcome :=
  let w : Work := { disk := s.disk, recorder := s.recorder }
  match Request.ofArguments args with
  | .error f => w.finish false (some f)
  | .ok (.usage _) => (w.print { out := usage }).finish false none
  | .ok .versionLine =>
      let line := toolName ++ bytes " version " ++ s.build.version ++ bytes "\n"
      (w.print { out := line }).finish false none
  | .ok (.run c g operands) => performObserved c s g operands

end GrammarLayout
