import GrammarLayout.Proofs.Disk.Holding
import GrammarLayout.Run.Format

/-!
# What the work on a file can do

The work on a file loads it, may find it in the cache, formats it, and writes
it back or notes it in the cache.  `RunOptions.Step` lists the ways in which
this ends, with the disk and the result of each; the trace, the timings and the
events take no part in it.  A run is such a step for each of its files in turn.

What is proved here:

* `formatObserved_snd` — formatting under observation is formatting;
* `RunOptions.formatFile_step` — the work on one file is one of the steps;
* `RunOptions.formatFiles_steps` — a run is one step after the other.
-/

namespace GrammarLayout

open Text

/-! ## Formatting -/

theorem runPassesObserved_snd (style : Style) (current : Nat) (passes : List PassName) (p : Probe)
    (d : Document) :
    (runPassesObserved style current passes p d).2 = d.runPasses style passes := by
  induction passes generalizing p d with
  | nil => rfl
  | cons pass rest ih => exact ih _ _

theorem formatObserved_snd (style : Style) (current : Nat) (p : Probe) (text : Text) :
    (formatObserved style style.passes current p text).2 = format style text := by
  rw [formatObserved, format]
  cases Document.parse text with
  | error e => rfl
  | ok d =>
    have hpasses := runPassesObserved_snd style current style.passes
      (p.phase current (bytes "parse") (ruleCountNote d) [] none) d
    exact congrArg (fun d : Document => Except.ok d.render) hpasses

/-! ## One file -/

/-- The result without the time it took. -/
def FileResult.untimed (r : FileResult) : FileResult := { r with timings := {} }

section Untimed

variable (r : FileResult)

@[simp] theorem FileResult.path_untimed : r.untimed.path = r.path := rfl
@[simp] theorem FileResult.changed_untimed : r.untimed.changed = r.changed := rfl
@[simp] theorem FileResult.cached_untimed : r.untimed.cached = r.cached := rfl
@[simp] theorem FileResult.failure_untimed : r.untimed.failure = r.failure := rfl

end Untimed

/-- Are files written back?  A number that stands for no mode counts as one that writes. -/
def RunMode.rewrites : RunMode → Bool
  | .write => true
  | .other => true
  | _ => false

theorem RunMode.rewrites_iff {m : RunMode} : m.rewrites = true ↔ m ≠ .stdout ∧ m ≠ .check := by
  cases m <;> simp [rewrites]

namespace RunOptions

/-- The key of a content in the cache. -/
def keyFor (o : RunOptions) (content : Text) : Text :=
  cacheKey (sha256 content) o.style.fingerprint

/-- Is the content known to be formatted? -/
def knows (o : RunOptions) (d : Disk) (content : Text) : Bool :=
  o.mode ≠ .stdout && o.cache.any fun c => c.has d (o.keyFor content)

/-- What noting a key in the cache does to the disk. -/
inductive Noted (o : RunOptions) (key : Text) (d : Disk) : Disk → Prop where
  /-- There is no cache, or the entry cannot be kept. -/
  | not : Noted o key d d
  /-- An entry is kept. -/
  | kept {c : Cache} {now : Int} {entry : CacheEntry} {d' : Disk} (hcache : o.cache = some c)
      (hput : c.put d now key entry = .ok d') : Noted o key d d'

/-- How the work on a file ends: the disk after it, and the result without timings. -/
inductive Step (o : RunOptions) (d : Disk) (path : Text) : Disk → FileResult → Prop where
  /-- The file cannot be loaded. -/
  | unreadable {e : DiskError} (hread : d.read path = .error e) :
      Step o d path d { path := path, failure := some (.io .loadFailed path (some e.failure)) }
  /-- Its content is known to be formatted. -/
  | known {b : Text} (hread : d.read path = .ok b) (hknown : o.knows d (normalize b).1 = true) :
      Step o d path d { path := path, cached := true }
  /-- Its content cannot be formatted. -/
  | refused {b : Text} {e : ParseError} (hread : d.read path = .ok b)
      (hknown : o.knows d (normalize b).1 = false)
      (hformat : format o.style (normalize b).1 = .error e) :
      Step o d path d { path := path, failure := some (e.failure.withPath path) }
  /-- It is printed. -/
  | shown {b out : Text} (hread : d.read path = .ok b)
      (hknown : o.knows d (normalize b).1 = false)
      (hformat : format o.style (normalize b).1 = .ok out) (hmode : o.mode = .stdout) :
      Step o d path d
        { path := path, changed := (normalize b).1 ≠ out,
          formatted := some (restore (normalize b).2 out) }
  /-- It is found to need formatting. -/
  | reported {b out : Text} (hread : d.read path = .ok b)
      (hknown : o.knows d (normalize b).1 = false)
      (hformat : format o.style (normalize b).1 = .ok out) (hchanged : (normalize b).1 ≠ out)
      (hmode : o.mode = .check) : Step o d path d { path := path, changed := true }
  /-- It is found to be formatted. -/
  | settled {b : Text} {d' : Disk} (hread : d.read path = .ok b)
      (hknown : o.knows d (normalize b).1 = false)
      (hformat : format o.style (normalize b).1 = .ok (normalize b).1) (hmode : o.mode ≠ .stdout)
      (hnoted : o.Noted (o.keyFor (normalize b).1) d d') : Step o d path d' { path := path }
  /-- It is written back. -/
  | rewritten {b out : Text} {loc : Location} {written d' : Disk} (hread : d.read path = .ok b)
      (hknown : o.knows d (normalize b).1 = false)
      (hformat : format o.style (normalize b).1 = .ok out) (hchanged : (normalize b).1 ≠ out)
      (hmode : o.mode.rewrites = true) (hloc : d.locate path = .ok loc)
      (hwritten : d.Put loc (.file (restore (normalize b).2 out)) written)
      (hnoted : o.Noted (o.keyFor out) written d') :
      Step o d path d' { path := path, changed := true }

theorem remember_noted (o : RunOptions) (current : Nat) (s : RunState) {f : SourceFile}
    {content : Text} (hf : f.hash = sha256 content) :
    o.Noted (o.keyFor content) s.disk (o.remember current s f).disk := by
  have hkey : o.keyOf f = o.keyFor content := by rw [keyOf, keyFor, hf]
  rw [remember]
  split
  · exact .not
  · rename_i c hcache
    simp only
    split
    · rename_i d hput
      rw [hkey] at hput
      exact .kept hcache hput
    · exact .not

/-- A file read from disk has the flags of its content. -/
theorem FileSet.addRaw_zero (fs : FileSet) (path content : Text) :
    fs.addRaw path content 0 = fs.add path (normalize content).1 (normalize content).2 := by
  simp [FileSet.addRaw]

theorem FileSet.hash_add (fs : FileSet) (path content : Text) (flags : FileFlags) :
    (fs.add path content flags).2.hash = sha256 content := rfl

/-- Writing back succeeds for a file that was read. -/
theorem writeBack_step (o : RunOptions) (current : Nat) (s : RunState) {path b out : Text}
    {f : SourceFile} {r : FileResult} (hread : s.disk.read path = .ok b)
    (hflags : f.flags = (normalize b).2) (hknown : o.knows s.disk (normalize b).1 = false)
    (hformat : format o.style (normalize b).1 = .ok out) (hchanged : (normalize b).1 ≠ out)
    (hmode : o.mode.rewrites = true) (hr : r.untimed = { path := path, changed := true }) :
    o.Step s.disk path (o.writeBack current s path f out r).1.disk
      (o.writeBack current s path f out r).2.untimed := by
  obtain ⟨loc, written, hloc, -, hwrite, hput⟩ := Disk.exists_write_of_read hread (f.restore out)
  have hbegin : (s.begin path .write).disk.write path (f.restore out) = .ok written := hwrite
  rw [SourceFile.restore, hflags] at hput
  have hnoted := o.remember_noted current
    { s.begin path .write with disk := written, files := (s.files.add path out f.flags).1 }
    (FileSet.hash_add s.files path out f.flags)
  simp only [writeBack, hbegin, hr]
  exact .rewritten hread hknown hformat hchanged hmode hloc hput hnoted

/-- What the mode asks for is one of the steps. -/
theorem conclude_step (o : RunOptions) (current : Nat) {d : Disk} {s : RunState}
    {path b out : Text} {f : SourceFile} {r : FileResult} (hd : s.disk = d)
    (hread : d.read path = .ok b) (hhash : f.hash = sha256 (normalize b).1)
    (hflags : f.flags = (normalize b).2) (hknown : o.knows d (normalize b).1 = false)
    (hformat : format o.style (normalize b).1 = .ok out)
    (hr : r.untimed = { path := path, changed := (normalize b).1 ≠ out }) :
    o.Step d path (o.conclude current s path f out r).1.disk
      (o.conclude current s path f out r).2.untimed := by
  subst hd
  have hchanged : r.changed = decide ((normalize b).1 ≠ out) := congrArg FileResult.changed hr
  by_cases hmode : o.mode = .stdout
  · have hshown : { r with formatted := some (f.restore out) }.untimed
        = { path := path, changed := (normalize b).1 ≠ out,
            formatted := some (restore (normalize b).2 out) } := by
      rw [SourceFile.restore, hflags]
      exact congrArg (fun r => { r with formatted := some (restore (normalize b).2 out) }) hr
    simp only [conclude, hmode, hshown]
    exact .shown hread hknown hformat hmode
  · by_cases hsame : (normalize b).1 = out
    · -- In every other mode a content that stays the same is noted.
      subst hsame
      have hno : r.changed = false := by simpa using hchanged
      have hconclude : o.conclude current s path f (normalize b).1 r
          = (o.remember current s f, r) := by
        unfold conclude
        split
        · exact absurd ‹_› hmode
        · simp [hno]
        · simp [hno]
      rw [hconclude, hr, ← hchanged, hno]
      exact .settled hread hknown hformat hmode (o.remember_noted current s hhash)
    · have hyes : r.changed = true := by simpa [hsame] using hchanged
      rw [← hchanged, hyes] at hr
      unfold conclude
      split
      · exact absurd ‹_› hmode
      · rename_i hcheck
        simp only [hyes, if_true, hr]
        exact .reported hread hknown hformat hsame hcheck
      · rename_i hcheck
        have hrewrites : o.mode.rewrites = true := RunMode.rewrites_iff.2 ⟨hmode, hcheck⟩
        rw [hyes, if_pos rfl]
        exact o.writeBack_step current s hread hflags hknown hformat hsame hrewrites hr

theorem formatLoaded_step (o : RunOptions) (current : Nat) {d : Disk} {s : RunState}
    {path b : Text} {f : SourceFile} (hd : s.disk = d) (hread : d.read path = .ok b)
    (hcontent : f.content = (normalize b).1) (hhash : f.hash = sha256 (normalize b).1)
    (hflags : f.flags = (normalize b).2) (hknown : o.knows d (normalize b).1 = false) :
    o.Step d path (o.formatLoaded current s path f).1.disk
      (o.formatLoaded current s path f).2.untimed := by
  subst hd
  have hobserved := formatObserved_snd o.style current
    { recorder := (s.begin path .format).recorder } f.content
  rw [hcontent] at hobserved
  rw [formatLoaded, hcontent]
  generalize formatObserved o.style o.style.passes current
    { recorder := (s.begin path .format).recorder } (normalize b).1 = observed at hobserved
  obtain ⟨probe, result⟩ := observed
  simp only at hobserved ⊢
  rw [hobserved]
  cases hformat : format o.style (normalize b).1 with
  | error e => exact .refused hread hknown hformat
  | ok out =>
    exact o.conclude_step current rfl hread hhash hflags hknown hformat rfl

theorem process_step (o : RunOptions) (current : Nat) (s : RunState) (path : Text) :
    o.Step s.disk path (o.process current s path).1.disk (o.process current s path).2.untimed := by
  rw [process]
  cases hread : s.disk.read path with
  | error e => exact .unreadable hread
  | ok b =>
    simp only [FileSet.addRaw_zero]
    split
    · rename_i hknown
      exact .known hread hknown
    · rename_i hknown
      exact o.formatLoaded_step current rfl hread rfl rfl rfl (Bool.not_eq_true _ ▸ hknown)

theorem formatFile_step (o : RunOptions) (current : Nat) (s : RunState) (path : Text) :
    o.Step s.disk path (o.formatFile current s path).1.disk
      (o.formatFile current s path).2.untimed :=
  let traced := s.recorder.startSpan .file (bytes "file:" ++ path) current
  o.process_step (Recorder.currentSpan current traced.2)
    ({ s with recorder := traced.1 }.begin path .load) path

/-! ## All files -/

/-- The steps of several files, one after the other. -/
inductive Steps (o : RunOptions) : Disk → List Text → Disk → List FileResult → Prop where
  /-- No file is left. -/
  | nil (d : Disk) : Steps o d [] d []
  /-- The first file, then the others. -/
  | cons {d next d' : Disk} {path : Text} {paths : List Text} {r : FileResult}
      {rs : List FileResult} (hstep : o.Step d path next r) (hsteps : Steps o next paths d' rs) :
      Steps o d (path :: paths) d' (r :: rs)

theorem formatEach_steps (o : RunOptions) (current : Nat) (s : RunState) (paths : List Text) :
    o.Steps s.disk paths (o.formatEach current s paths).1.disk
      ((o.formatEach current s paths).2.map FileResult.untimed) := by
  induction paths generalizing s with
  | nil => exact .nil s.disk
  | cons path paths ih => exact .cons (o.formatFile_step current s path) (ih _)

/-- The work of a run begins with the disk as it is, and its disk and its result are those of the
run. -/
theorem exists_overFiles (o : RunOptions) (s : RunState) (paths : List Text) :
    ∃ (current : Nat) (begun : RunState), begun.disk = s.disk ∧
      ∀ {α : Type} (work : Nat → RunState → RunState × α),
        (o.overFiles s paths work).1.disk = (work current begun).1.disk ∧
          (o.overFiles s paths work).2 = (work current begun).2 := by
  have hqueued : ∀ (ps : List Text) (s : RunState), (ps.foldl (fun s path => s.tell
      { file := path, stage := .load, status := .queued }) s).disk = s.disk := by
    intro ps
    induction ps with
    | nil => exact fun s => rfl
    | cons p ps ih => exact fun s => ih _
  exact ⟨_, _, hqueued paths { s with recorder := (s.recorder.startSpan .driver _ 0).1 },
    fun work => ⟨rfl, rfl⟩⟩

theorem formatFiles_steps (o : RunOptions) (s : RunState) (paths : List Text) :
    o.Steps s.disk paths (o.formatFiles s paths).1.disk
      ((o.formatFiles s paths).2.map FileResult.untimed) := by
  obtain ⟨current, begun, hdisk, hrun⟩ := o.exists_overFiles s paths
  rw [formatFiles, (hrun _).1, (hrun _).2, ← hdisk]
  exact o.formatEach_steps current begun paths

end RunOptions

end GrammarLayout
