import GrammarLayout.Cache.Store
import GrammarLayout.Run.Collect
import GrammarLayout.Run.Probe
import GrammarLayout.Run.Result
import GrammarLayout.Style.Encode

/-!
# Formatting files

Each file of a run is loaded, looked up in the cache, formatted and, as the
mode of the run asks, handed out, written back or only compared.  A file that
fails does not keep the others from being formatted.  Files are taken one after
the other, in the order given; a schedule takes them in another one, and each
result then goes to the place of its file.
-/

namespace GrammarLayout

open Text

/-- What a run is to do. -/
structure RunOptions where
  /-- The style. -/
  style : Style := {}
  /-- What is done with formatted files. -/
  mode : RunMode := .stdout
  /-- The cache, if one is used. -/
  cache : Option Cache := none
  deriving Repr, DecidableEq

/-- The state of a run. -/
structure RunState where
  /-- The files on disk. -/
  disk : Disk
  /-- The trace. -/
  recorder : Recorder := {}
  /-- The files loaded so far. -/
  files : FileSet := {}
  /-- The events so far. -/
  events : List ProgressEvent := []
  /-- The time that all files took. -/
  totals : TimingReport := {}
  deriving Repr

namespace RunState

/-- Tells of a file. -/
def tell (s : RunState) (e : ProgressEvent) : RunState := { s with events := s.events ++ [e] }

/-- Tells that work on a stage of a file has begun. -/
def begin (s : RunState) (path : Text) (stage : Stage) : RunState :=
  s.tell { file := path, stage := stage, status := .working }

end RunState

namespace RunOptions

/-- The key of a file in the cache. -/
def keyOf (o : RunOptions) (f : SourceFile) : Text := cacheKey f.hash o.style.fingerprint

/-- Is the file known to be formatted? -/
def known (o : RunOptions) (d : Disk) (f : SourceFile) : Bool :=
  o.mode ≠ .stdout && o.cache.any fun c => c.has d (o.keyOf f)

/-- Notes in the cache that a file is formatted; a failure to do so is only traced. -/
def remember (o : RunOptions) (current : Nat) (s : RunState) (f : SourceFile) : RunState :=
  match o.cache with
  | none => s
  | some c =>
      let entry : CacheEntry := { path := f.path, content := f.hash, style := o.style.fingerprint }
      match c.put s.disk s.recorder.now.seconds (o.keyOf f) entry with
      | .ok d => { s with disk := d }
      | .error e =>
          { s with recorder := s.recorder.point .error (bytes "cache") e.message current }

/-- Writes the new content of a file back to disk. -/
def writeBack (o : RunOptions) (current : Nat) (s : RunState) (path : Text) (f : SourceFile)
    (out : Text) (r : FileResult) : RunState × FileResult :=
  let s := s.begin path .write
  match s.disk.write path (f.restore out) with
  | .error e => (s, { r with failure := some (.io .writeFailed path (some e.failure)) })
  | .ok d =>
      let (files, written) := s.files.add path out f.flags
      (o.remember current { s with disk := d, files := files } written, r)

/-- Does with a formatted file what the mode asks. -/
def conclude (o : RunOptions) (current : Nat) (s : RunState) (path : Text) (f : SourceFile)
    (out : Text) (r : FileResult) : RunState × FileResult :=
  match o.mode with
  | .stdout => (s, { r with formatted := some (f.restore out) })
  | .check => (if r.changed then s else o.remember current s f, r)
  | _ => if r.changed then o.writeBack current s path f out r else (o.remember current s f, r)

/-- Formats a file that has been loaded. -/
def formatLoaded (o : RunOptions) (current : Nat) (s : RunState) (path : Text) (f : SourceFile) :
    RunState × FileResult :=
  let s := s.begin path .format
  let (probe, result) :=
    formatObserved o.style o.style.passes current { recorder := s.recorder } f.content
  let timings := probe.timer.report
  let s := { s with recorder := probe.recorder, totals := s.totals.add timings }
  let r : FileResult := { path := path, timings := timings }
  match result with
  | .error e => (s, { r with failure := some (e.failure.withPath path) })
  | .ok out => o.conclude current s path f out { r with changed := f.content ≠ out }

/-- Loads a file and formats it, unless it is known to be formatted. -/
def process (o : RunOptions) (current : Nat) (s : RunState) (path : Text) :
    RunState × FileResult :=
  match s.disk.read path with
  | .error e => (s, { path := path, failure := some (.io .loadFailed path (some e.failure)) })
  | .ok content =>
      let (files, f) := s.files.addRaw path content 0
      let s := { s with files := files }
      if o.known s.disk f then (s, { path := path, cached := true })
      else o.formatLoaded current s path f

/-- How a file with a result stands at its end. -/
def finalStatus (r : FileResult) : Status :=
  if r.failure.isSome then .error else if r.cached then .cached else .done

/-- The stage that a file with a result has reached. -/
def finalStage (o : RunOptions) (r : FileResult) : Stage :=
  if finalStatus r = .done ∧ r.changed ∧ o.mode = .write then .write else .format

/-- Formats one file, below the span `current`. -/
def formatFile (o : RunOptions) (current : Nat) (s : RunState) (path : Text) :
    RunState × FileResult :=
  let (recorder, span) := s.recorder.startSpan .file (bytes "file:" ++ path) current
  let s := { s with recorder := recorder }.begin path .load
  let (s, r) := o.process (Recorder.currentSpan current span) s path
  let status := finalStatus r
  let recorder := (r.failure.map fun f => s.recorder.failSpan span f.message).getD s.recorder
  let span := span.withExtra (bytes "changed") (if r.changed then bytes "true" else bytes "false")
  let s := { s with recorder := recorder.endSpan span status.name }
  let event : ProgressEvent :=
    { file := path, stage := o.finalStage r, status := status, changed := r.changed,
      failure := r.failure }
  (s.tell event, r)

/-- Formats files one after the other, below the span `current`. -/
def formatEach (o : RunOptions) (current : Nat) :
    RunState → List Text → RunState × List FileResult
  | s, [] => (s, [])
  | s, path :: paths =>
      let (s, r) := o.formatFile current s path
      let (s, rs) := o.formatEach current s paths
      (s, r :: rs)

/-- Formats the files with the numbers of a schedule one after the other, below the span `current`.
Each result goes to the place that its file has among all. -/
def formatAt (o : RunOptions) (current : Nat) (paths : List Text) :
    RunState → List (Option FileResult) → List Nat → RunState × List (Option FileResult)
  | s, results, [] => (s, results)
  | s, results, i :: schedule =>
      match paths[i]? with
      | none => o.formatAt current paths s results schedule
      | some path =>
          let (s, r) := o.formatFile current s path
          o.formatAt current paths s (results.set i (some r)) schedule

/-- Tells that the files wait and does `work` on them below the span of the run. -/
def overFiles {α : Type} (o : RunOptions) (s : RunState) (paths : List Text)
    (work : Nat → RunState → RunState × α) : RunState × α :=
  let (recorder, span) := s.recorder.startSpan .driver (bytes "format") 0
  let span := span.withExtra (bytes "files") (ofNat paths.length)
  let span := span.withExtra (bytes "mode") o.mode.name
  let s := { s with recorder := recorder }
  let s := paths.foldl
    (fun s path => s.tell { file := path, stage := .load, status := .queued }) s
  let (s, result) := work (Recorder.currentSpan 0 span) s
  ({ s with recorder := s.recorder.endSpan span [] }, result)

/-- Formats files; the results are in the order of the files. -/
def formatFiles (o : RunOptions) (s : RunState) (paths : List Text) :
    RunState × List FileResult :=
  o.overFiles s paths fun current s => o.formatEach current s paths

/-- Formats files in the order of a schedule of their numbers; a file that the schedule leaves out
has no result. -/
def formatScheduled (o : RunOptions) (s : RunState) (paths : List Text) (schedule : List Nat) :
    RunState × List (Option FileResult) :=
  o.overFiles s paths fun current s =>
    o.formatAt current paths s (List.replicate paths.length none) schedule

end RunOptions

/-! ## Runs -/

/-- The failure of a run that has no files. -/
def noFiles (paths : List Text) : Failure := .io .noSourceFiles (Text.join (bytes ", ") paths) none

/-- The files that arguments stand for, at least one. -/
def Disk.sources (d : Disk) (paths : List Text) : Except Failure (List Text) := do
  let files ← d.collect false paths
  if files.isEmpty then throw (noFiles paths) else return files

namespace RunOptions

/-- Formats files, unless the run was cancelled before the first of them. -/
def runFiles (o : RunOptions) (cancelled : Bool) (s : RunState) (files : List Text) :
    Except Failure (RunState × List FileResult) :=
  if cancelled && !files.isEmpty then .error .cancelled else .ok (o.formatFiles s files)

/-- Formats the files that arguments stand for. -/
def runPaths (o : RunOptions) (cancelled : Bool) (s : RunState) (paths : List Text) :
    Except Failure (RunState × List FileResult) := do
  if cancelled then throw .cancelled
  let files ← s.disk.sources paths
  o.runFiles cancelled s files

end RunOptions

end GrammarLayout
