import GrammarLayout.Run.Format

/-!
# The events of a run

The work on a file tells of the file only: that loading, formatting and writing
begin, and at last how the file stands.  Files may be worked on at the same
time; their events then mix, but those of one file stay in order.

`RunOptions.Work` lists what the work on a file tells of between its first and
its last event, in whatever state the other files have left the disk.
`Interleaved` says how streams of events mix.

What is proved here:

* `RunOptions.Work.spec` — what every work tells of, and what its result is;
* `RunOptions.formatFile_work` — formatting a file is one of the works;
* `RunOptions.formatFiles_interleaved` — a run tells of its files one after the
  other, which is one way to mix their events.
-/

namespace GrammarLayout

open Text

/-! ## Mixing streams -/

/-- A list made of streams: each time one of them goes on, until all have come to their end. -/
inductive Interleaved {α : Type} : List (List α) → List α → Prop where
  /-- All streams have come to their end. -/
  | done {streams : List (List α)} (h : ∀ s ∈ streams, s = []) : Interleaved streams []
  /-- The stream with number `i` goes on. -/
  | next {streams : List (List α)} {e : α} {rest tail : List α} (i : Nat)
      (h : streams[i]? = some (e :: rest)) (htail : Interleaved (streams.set i rest) tail) :
      Interleaved streams (e :: tail)

namespace Interleaved

variable {α : Type} {streams : List (List α)} {l : List α}

theorem nil_cons (h : Interleaved streams l) : Interleaved ([] :: streams) l := by
  induction h with
  | done h => exact .done (List.forall_mem_cons.2 ⟨rfl, h⟩)
  | next i h _ ih => exact .next (i + 1) h ih

/-- One stream may come before all others. -/
theorem append (h : Interleaved streams l) (s : List α) : Interleaved (s :: streams) (s ++ l) := by
  induction s with
  | nil => exact h.nil_cons
  | cons e s ih => exact .next 0 rfl ih

end Interleaved

/-! ## One file -/

/-- Between two states nothing is told but that the work on a file goes on. -/
def RunState.GoesOn (s : RunState) (path : Text) (s' : RunState) : Prop :=
  ∃ told, s'.events = s.events ++ told ∧ ∀ e ∈ told, e.file = path ∧ e.status = .working

namespace RunState

variable {path : Text} {s s' s'' : RunState}

theorem GoesOn.refl (s : RunState) (path : Text) : s.GoesOn path s := ⟨[], by simp, by simp⟩

theorem GoesOn.trans (h : s.GoesOn path s') (h' : s'.GoesOn path s'') : s.GoesOn path s'' := by
  obtain ⟨told, htold, hall⟩ := h
  obtain ⟨told', htold', hall'⟩ := h'
  refine ⟨told ++ told', by rw [htold', htold, List.append_assoc], ?_⟩
  intro e he
  rcases List.mem_append.1 he with he | he
  · exact hall e he
  · exact hall' e he

theorem GoesOn.of_events (h : s.GoesOn path s') (heq : s''.events = s'.events) :
    s.GoesOn path s'' := by
  obtain ⟨told, htold, hall⟩ := h
  exact ⟨told, heq.trans htold, hall⟩

theorem goesOn_begin (s : RunState) (path : Text) (stage : Stage) :
    s.GoesOn path (s.begin path stage) := ⟨_, rfl, by simp⟩

end RunState

namespace RunOptions

variable {o : RunOptions} {path : Text} {told : List ProgressEvent} {r : FileResult}

/-- What the work on a file tells of between its first and its last event, and its result. -/
inductive Work (o : RunOptions) (path : Text) : List ProgressEvent → FileResult → Prop where
  /-- The file cannot be loaded. -/
  | unreadable (e : DiskError) :
      Work o path [] { path := path, failure := some (.io .loadFailed path (some e.failure)) }
  /-- It is known to be formatted. -/
  | known : Work o path [] { path := path, cached := true }
  /-- It is formatted, from any state of the disk. -/
  | loaded {current : Nat} {s : RunState} {f : SourceFile} {told : List ProgressEvent}
      (htold : (o.formatLoaded current s path f).1.events = s.events ++ told) :
      Work o path told (o.formatLoaded current s path f).2

theorem remember_events (o : RunOptions) (current : Nat) (s : RunState) (f : SourceFile) :
    (o.remember current s f).events = s.events := by
  rw [remember]
  split
  · rfl
  · simp only
    split <;> rfl

theorem writeBack_goesOn (o : RunOptions) (current : Nat) (s : RunState) (path : Text)
    (f : SourceFile) (out : Text) (r : FileResult) :
    s.GoesOn path (o.writeBack current s path f out r).1 ∧
      (o.writeBack current s path f out r).2.path = r.path ∧
      (o.writeBack current s path f out r).2.cached = r.cached := by
  rw [writeBack]
  split
  · exact ⟨s.goesOn_begin path .write, rfl, rfl⟩
  · exact ⟨(s.goesOn_begin path .write).of_events (o.remember_events _ _ _), rfl, rfl⟩

theorem conclude_goesOn (o : RunOptions) (current : Nat) (s : RunState) (path : Text)
    (f : SourceFile) (out : Text) (r : FileResult) :
    s.GoesOn path (o.conclude current s path f out r).1 ∧
      (o.conclude current s path f out r).2.path = r.path ∧
      (o.conclude current s path f out r).2.cached = r.cached := by
  have hsame : s.GoesOn path s := .refl s path
  have hnoted : s.GoesOn path (o.remember current s f) := hsame.of_events (o.remember_events _ _ _)
  rw [conclude]
  split
  · exact ⟨hsame, rfl, rfl⟩
  · refine ⟨?_, rfl, rfl⟩
    show s.GoesOn path (if r.changed then s else o.remember current s f)
    split
    · exact hsame
    · exact hnoted
  · split
    · exact o.writeBack_goesOn current s path f out r
    · exact ⟨hnoted, rfl, rfl⟩

theorem formatLoaded_goesOn (o : RunOptions) (current : Nat) (s : RunState) (path : Text)
    (f : SourceFile) :
    s.GoesOn path (o.formatLoaded current s path f).1 ∧
      (o.formatLoaded current s path f).2.path = path ∧
      (o.formatLoaded current s path f).2.cached = false := by
  rw [formatLoaded]
  generalize formatObserved o.style o.style.passes current
    { recorder := (s.begin path .format).recorder } f.content = observed
  obtain ⟨probe, result⟩ := observed
  have hbegin := s.goesOn_begin path .format
  cases result with
  | error e => exact ⟨hbegin, rfl, rfl⟩
  | ok out =>
    obtain ⟨hgoes, hpath, hcached⟩ := o.conclude_goesOn current
      { s.begin path .format with
        recorder := probe.recorder
        totals := (s.begin path .format).totals.add probe.timer.report } path f out
      { path := path, timings := probe.timer.report, changed := f.content ≠ out }
    exact ⟨hbegin.trans hgoes, hpath, hcached⟩

/-- Every work tells that the work on its file goes on, and no file is both known and changed. -/
theorem Work.spec (h : o.Work path told r) :
    (∀ e ∈ told, e.file = path ∧ e.status = .working) ∧ r.path = path ∧
      (r.cached = true → r.changed = false) := by
  cases h with
  | unreadable e => exact ⟨by simp, rfl, fun h => by cases h⟩
  | known => exact ⟨by simp, rfl, fun _ => rfl⟩
  | @loaded current s f _ htold =>
    obtain ⟨⟨others, hothers, hall⟩, hpath, hcached⟩ := o.formatLoaded_goesOn current s path f
    obtain rfl := List.append_cancel_left (htold.symm.trans hothers)
    exact ⟨hall, hpath, fun h => by rw [hcached] at h; cases h⟩

/-- The last event of a file with a result. -/
def lastEvent (o : RunOptions) (path : Text) (r : FileResult) : ProgressEvent :=
  { file := path, stage := o.finalStage r, status := finalStatus r, changed := r.changed,
    failure := r.failure }

end RunOptions

/-- The work on one file of a run. -/
structure Job (o : RunOptions) where
  /-- The file. -/
  path : Text
  /-- What is told between its first and its last event. -/
  told : List ProgressEvent
  /-- What became of it. -/
  result : FileResult
  /-- It is worked on as files are. -/
  work : o.Work path told result

namespace Job

variable {o : RunOptions}

/-- The event that a file waits for its turn. -/
def queued (path : Text) : ProgressEvent := { file := path, stage := .load, status := .queued }

/-- The events of the work on a file. -/
def events (j : Job o) : List ProgressEvent :=
  { file := j.path, stage := .load, status := .working } :: j.told
    ++ [o.lastEvent j.path j.result]

end Job

namespace RunOptions

theorem process_work (o : RunOptions) (current : Nat) (s : RunState) (path : Text) :
    ∃ told, (o.process current s path).1.events = s.events ++ told ∧
      o.Work path told (o.process current s path).2 := by
  cases hread : s.disk.read path with
  | error e =>
    rw [process, hread]
    exact ⟨[], by simp, .unreadable e⟩
  | ok content =>
    let loaded := s.files.addRaw path content 0
    let s' : RunState := { s with files := loaded.1 }
    have hprocess : o.process current s path
        = if o.known s'.disk loaded.2 then (s', { path := path, cached := true })
          else o.formatLoaded current s' path loaded.2 := by
      rw [process, hread]
    rw [hprocess]
    split
    · exact ⟨[], (List.append_nil _).symm, .known⟩
    · obtain ⟨⟨told, htold, -⟩, -⟩ := o.formatLoaded_goesOn current s' path loaded.2
      exact ⟨told, htold, .loaded htold⟩

/-- Formatting a file is one of the works. -/
theorem formatFile_work (o : RunOptions) (current : Nat) (s : RunState) (path : Text) :
    ∃ j : Job o, j.path = path ∧ j.result = (o.formatFile current s path).2 ∧
      (o.formatFile current s path).1.events = s.events ++ j.events := by
  let traced := s.recorder.startSpan .file (bytes "file:" ++ path) current
  let s' : RunState := { s with recorder := traced.1 }.begin path .load
  obtain ⟨told, htold, hwork⟩ := o.process_work (Recorder.currentSpan current traced.2) s' path
  refine ⟨⟨path, told, _, hwork⟩, rfl, rfl, ?_⟩
  have hbegun : s'.events
      = s.events ++ [{ file := path, stage := .load, status := .working }] := rfl
  show (o.process (Recorder.currentSpan current traced.2) s' path).1.events ++ _ = _
  rw [htold, hbegun, List.append_assoc, List.append_assoc]
  rfl

theorem formatEach_interleaved (o : RunOptions) (current : Nat) (s : RunState) (paths : List Text) :
    ∃ jobs : List (Job o), jobs.map Job.path = paths ∧
      jobs.map Job.result = (o.formatEach current s paths).2 ∧
      ∃ told, (o.formatEach current s paths).1.events = s.events ++ told ∧
        Interleaved (jobs.map Job.events) told := by
  induction paths generalizing s with
  | nil => exact ⟨[], rfl, rfl, [], by simp [formatEach], .done (by simp)⟩
  | cons path paths ih =>
    obtain ⟨j, hpath, hresult, hevents⟩ := o.formatFile_work current s path
    obtain ⟨jobs, hpaths, hresults, told, htold, hmixed⟩ := ih (o.formatFile current s path).1
    refine ⟨j :: jobs, by rw [List.map_cons, hpath, hpaths],
      by rw [List.map_cons, hresult, hresults]; rfl, j.events ++ told, ?_, hmixed.append j.events⟩
    show (o.formatEach current (o.formatFile current s path).1 paths).1.events = _
    rw [htold, hevents, List.append_assoc]

theorem events_queued (s : RunState) (paths : List Text) :
    (paths.foldl (fun s path => s.tell { file := path, stage := .load, status := .queued })
        s).events
      = s.events ++ paths.map Job.queued := by
  induction paths generalizing s with
  | nil => simp
  | cons path paths ih => rw [List.foldl_cons, ih]; simp [RunState.tell, Job.queued]

/-- A run tells of the files that wait, and then of one file after the other. -/
theorem formatFiles_interleaved (o : RunOptions) (s : RunState) (paths : List Text) :
    ∃ jobs : List (Job o), jobs.map Job.path = paths ∧
      jobs.map Job.result = (o.formatFiles s paths).2 ∧
      ∃ told, (o.formatFiles s paths).1.events = s.events ++ told ∧
        Interleaved (paths.map Job.queued :: jobs.map Job.events) told := by
  let span := s.recorder.startSpan .driver (bytes "format") 0
  let s' := paths.foldl (fun s path => s.tell { file := path, stage := .load, status := .queued })
    { s with recorder := span.1 }
  have hqueued : s'.events = s.events ++ paths.map Job.queued := events_queued _ paths
  let traced := (span.2.withExtra (bytes "files") (ofNat paths.length)).withExtra (bytes "mode")
    o.mode.name
  obtain ⟨jobs, hpaths, hresults, told, htold, hmixed⟩ :=
    o.formatEach_interleaved (Recorder.currentSpan 0 traced) s' paths
  refine ⟨jobs, hpaths, hresults, paths.map Job.queued ++ told, ?_, hmixed.append _⟩
  rw [← List.append_assoc, ← hqueued]
  exact htold

end RunOptions

end GrammarLayout
