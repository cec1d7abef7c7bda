import GrammarLayout.Diagnostic.Render
import GrammarLayout.Run.Result
import GrammarLayout.Text.Json

/-!
# Reports of a run

The results of a run are reported as text, on the two output streams, or as one
JSON object.
-/

namespace GrammarLayout

open Text

/-- What is written to the two output streams. -/
structure Streams where
  /-- The normal output. -/
  out : Text := []
  /-- The output for errors. -/
  err : Text := []
  deriving Repr, DecidableEq

/-- Two outputs, one after the other. -/
def Streams.append (a b : Streams) : Streams := ⟨a.out ++ b.out, a.err ++ b.err⟩

/-- The report of one result as text. -/
def FileResult.report (o : RenderOptions) (find : Text → Option SourceFile) (mode : RunMode)
    (quiet : Bool) (r : FileResult) : Streams :=
  match r.failure with
  | some f => { err := f.render o find }
  | none =>
      match mode with
      | .stdout => { out := r.formatted.getD [] }
      | .check => if r.changed && !quiet then { out := r.path ++ bytes "\n" } else {}
      | .write =>
          if r.changed && !quiet then { out := bytes "reformatted " ++ r.path ++ bytes "\n" }
          else {}
      | .other => {}

/-- The report of results as text. -/
def textReport (o : RenderOptions) (find : Text → Option SourceFile) (mode : RunMode) (quiet : Bool)
    (rs : List FileResult) : Streams :=
  rs.foldl (fun s r => s.append (r.report o find mode quiet)) {}

/-- A text as the value of a key, left out when it is empty. -/
def optionalField (key : String) (t : Text) : List (Text × Json) :=
  if t.isEmpty then [] else [(bytes key, .string t)]

/-- One result as JSON. -/
def FileResult.json (r : FileResult) : Json :=
  let code := (r.failure.map Failure.code).getD .unknown
  .object <|
    [(bytes "path", .string r.path), (bytes "changed", .flag r.changed)]
    ++ (if r.cached then [(bytes "cached", .flag true)] else [])
    ++ optionalField "error" ((r.failure.map Failure.message).getD [])
    ++ optionalField "code" (if code = .unknown then [] else code.id)

/-- A summary as JSON. -/
def Summary.json (s : Summary) : Json :=
  .object
    [ (bytes "files", .ofInt s.files), (bytes "changed", .ofInt s.changed),
      (bytes "cached", .ofInt s.cached), (bytes "failed", .ofInt s.failed) ]

/-- The time of one phase as JSON. -/
def PhaseTiming.json (p : PhaseTiming) : Json :=
  .object <|
    [(bytes "name", .string p.name), (bytes "duration_ms", .ofDouble p.duration)]
    ++ (if p.count = 0 then [] else [(bytes "count", .ofInt p.count)])
    ++ optionalField "note" p.note

/-- Timings as JSON. -/
def TimingReport.json (r : TimingReport) : Json :=
  .object
    [ (bytes "total_ms", .ofDouble r.total),
      (bytes "phases", .array (r.phases.map PhaseTiming.json)) ]

/-- The report of results as JSON, with a final newline. -/
def jsonReport (mode : RunMode) (rs : List FileResult) (timings : Option TimingReport) : Text :=
  let report := Json.object <|
    [ (bytes "mode", .string mode.name), (bytes "files", .array (rs.map FileResult.json)),
      (bytes "summary", (summarize rs).json) ]
    ++ (timings.map fun t => [(bytes "timings", t.json)]).getD []
  report.indented 0 ++ bytes "\n"

end GrammarLayout
