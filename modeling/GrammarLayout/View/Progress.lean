import GrammarLayout.Number.Double
import GrammarLayout.Run.Event
import GrammarLayout.Text.Width

/-!
# The progress view

The view shows each file of a run with its status.  It is a value that events,
ticks and changes of the window's width turn into the next one.
-/

namespace GrammarLayout

open Text

/-- A file in the view. -/
structure ProgressItem where
  /-- Its path. -/
  path : Text
  /-- The word shown before it. -/
  label : Text := bytes "queued"
  /-- The stage it has reached. -/
  stage : Stage := .other []
  /-- Whether the work on it is over. -/
  finished : Bool := false
  deriving Repr, DecidableEq

/-- The state of the view. -/
structure ProgressView where
  /-- What the run is called. -/
  title : Text
  /-- The files. -/
  items : List ProgressItem
  /-- How many were changed. -/
  changed : Nat := 0
  /-- How many failed. -/
  failed : Nat := 0
  /-- The columns of the window. -/
  width : Int := 80
  /-- Whether the run is over. -/
  done : Bool := false
  /-- How often the spinner has turned. -/
  ticks : Nat := 0
  deriving Repr, DecidableEq

/-- The word for the work of a stage. -/
def Stage.label : Stage → Text
  | load => bytes "loading"
  | format => bytes "formatting"
  | write => bytes "writing"
  | other _ => []

/-- The word that an event puts before its file. -/
def ProgressEvent.label (e : ProgressEvent) : Text :=
  match e.status with
  | .working => e.stage.label
  | .done => if e.changed then bytes "changed" else bytes "unchanged"
  | s => s.name

/-- The share of the work on a file that is done once it has reached a stage. -/
def Stage.share : Stage → Double
  | load => .ofDecimal false 1 (-1)
  | format => .ofDecimal false 5 (-1)
  | write => .ofDecimal false 9 (-1)
  | other _ => .zero

namespace ProgressView

/-- The view before the first event. -/
def ofFiles (title : Text) (files : List Text) : ProgressView :=
  { title := title, items := files.map fun f => { path := f } }

/-- The number of the last item with a path. -/
def indexOf? (v : ProgressView) (path : Text) : Option Nat :=
  (v.items.reverse.findIdx? fun i => i.path == path).map fun i => v.items.length - 1 - i

/-- An item after an event. -/
def updateItem (e : ProgressEvent) (i : ProgressItem) : ProgressItem :=
  { i with stage := e.stage, label := e.label, finished := e.status.isFinal }

/-- The view after an event; an item that is finished stays as it is. -/
def applyEvent (v : ProgressView) (e : ProgressEvent) : ProgressView :=
  match v.indexOf? e.file with
  | none => v
  | some i =>
      match v.items[i]? with
      | none => v
      | some item =>
          if item.finished then v
          else
            { v with
              items := v.items.set i (updateItem e item)
              failed := if e.status = .error then v.failed + 1 else v.failed
              changed :=
                if (e.status = .done ∨ e.status = .cached) ∧ e.changed then v.changed + 1
                else v.changed }

/-- The view once the run is over. -/
def close (v : ProgressView) : ProgressView := { v with done := true }

/-- The view after a turn of the spinner. -/
def tick (v : ProgressView) : ProgressView := if v.done then v else { v with ticks := v.ticks + 1 }

/-- The view in a window of another width. -/
def resize (v : ProgressView) (width : Int) : ProgressView :=
  if 0 < width then { v with width := width } else v

/-- The share of the whole work that is done. -/
def share (v : ProgressView) : Double :=
  if v.items.isEmpty then .zero
  else
    let total := v.items.foldl
      (fun sum i => sum.add (if i.finished then .ofDecimal false 1 0 else i.stage.share))
      Double.zero
    total.divNat v.items.length

/-! ## Drawing -/

/-- The pictures of the spinner. -/
def spinner : List Text :=
  [ bytes "⣾ ", bytes "⣽ ", bytes "⣻ ", bytes "⢿ ", bytes "⡿ ", bytes "⣟ ", bytes "⣯ ",
    bytes "⣷ " ]

/-- A text cut to whole clusters that leave room for a tail, if it is wider than `room`. -/
def cutTo (room : Int) (tail s : Text) : Text :=
  if (Text.width s : Int) ≤ room then s
  else
    let left := room - Text.width tail
    (if left < 0 then [] else fitting left.toNat (clusters s)) ++ tail

/-- A text cut so that it fits in a column; dots show the cut where there is room for them. -/
def truncate (s : Text) (room : Int) : Text :=
  if room ≤ 0 ∨ (Text.width s : Int) ≤ room then s
  else if room ≤ 3 then cutTo room [] s
  else cutTo (room - 3) (bytes "...") s

/-- A text with four spaces for each tab. -/
def expandTabs (s : Text) : Text :=
  s.flatMap fun c => if c = Ascii.tab then List.replicate 4 Ascii.space else [c]

/-- The line of an item: its word on the right of a column of twelve, and its path. -/
def itemLine (v : ProgressView) (i : ProgressItem) : Text :=
  let room := max (v.width - 16) 20
  let word := List.replicate (12 - (pieces i.label).length) Ascii.space ++ i.label
  bytes "  " ++ expandTabs word ++ bytes " " ++ truncate i.path room ++ bytes "\n"

/-- The first line: the state of the run and what was counted. -/
def headline (v : ProgressView) : Text :=
  let counts := v.title ++ bytes " (" ++ ofNat v.items.length ++ bytes " files, " ++ ofNat v.changed
    ++ bytes " changed, " ++ ofNat v.failed ++ bytes " failed)"
  if v.done then bytes "done: " ++ counts
  else spinner.getD (v.ticks % spinner.length) [] ++ bytes " " ++ counts

/-- The view without colours and without its bar; nothing when there are no files. -/
def draw (v : ProgressView) : Text :=
  if v.items.isEmpty then []
  else expandTabs v.headline ++ bytes "\n\n" ++ v.items.flatMap v.itemLine ++ bytes "\n"

end ProgressView

end GrammarLayout
