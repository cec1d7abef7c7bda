import GrammarLayout.Proofs.Run.Schedule

/-!
# What a run does to the disk

Without a cache a run touches its own files and nothing else: a file that can
be loaded and formatted is written back, in its own line endings, when the mode
writes and the content changes, and every other file keeps its bytes.  What
happens to a file depends on that file alone.

What is proved here:

* `RunOptions.Step.result_eq`, `RunOptions.Step.exists_put` — the result and the
  disk after one file;
* `RunOptions.Steps.left` — what several files leave behind, from the disk before
  the first of them;
* `formatFiles_effect` — a run, with its files in any order and by any schedule.
-/

namespace GrammarLayout

open Text

/-! ## Paths that lead to one place -/

/-- The two paths lead to the same place. -/
def Disk.Aliased (d : Disk) (p q : Text) : Prop := ∃ loc, d.locate p = .ok loc ∧ d.locate q = .ok loc

theorem Disk.Aliased.symm {d : Disk} {p q : Text} (h : d.Aliased p q) : d.Aliased q p := by
  obtain ⟨loc, hp, hq⟩ := h
  exact ⟨loc, hq, hp⟩

/-- Paths of which no two lead to one place are such paths in any order. -/
theorem Disk.pairwise_not_aliased_of_perm {d : Disk} {ps qs : List Text} (h : ps.Perm qs)
    (hdistinct : qs.Pairwise fun p q => ¬ d.Aliased p q) :
    ps.Pairwise fun p q => ¬ d.Aliased p q :=
  (h.pairwise_iff fun {_ _} hpq hqp => hpq hqp.symm).2 hdistinct

instance (d : Disk) (p q : Text) : Decidable (d.Aliased p q) :=
  match hp : d.locate p, hq : d.locate q with
  | .ok l, .ok l' => decidable_of_iff (l = l') (by simp [Disk.Aliased, hp, hq, eq_comm])
  | .error _, _ => isFalse (by simp [Disk.Aliased, hp])
  | .ok _, .error _ => isFalse (by simp [Disk.Aliased, hq])

namespace RunOptions

variable {o : RunOptions} {d d' : Disk} {path b : Text} {r : FileResult}

/-! ## One file -/

/-- The bytes that a run leaves in a file that held `b`. -/
def leaves (o : RunOptions) (b : Text) : Text :=
  match format o.style (normalize b).1 with
  | .error _ => b
  | .ok out =>
      if o.mode.rewrites ∧ out ≠ (normalize b).1 then restore (normalize b).2 out else b

/-- The result of a file, without timings, from what the disk holds. -/
def outcome (o : RunOptions) (d : Disk) (path : Text) : FileResult :=
  match d.read path with
  | .error e => { path := path, failure := some (.io .loadFailed path (some e.failure)) }
  | .ok b =>
      match format o.style (normalize b).1 with
      | .error e => { path := path, failure := some (e.failure.withPath path) }
      | .ok out =>
          { path := path, changed := (normalize b).1 ≠ out
            formatted := if o.mode = .stdout then some (restore (normalize b).2 out) else none }

theorem outcome_congr (h : d'.read path = d.read path) : o.outcome d' path = o.outcome d path := by
  rw [outcome, outcome, h]

theorem knows_of_no_cache (hcache : o.cache = none) (d : Disk) (content : Text) :
    o.knows d content = false := by
  simp [knows, hcache]

theorem Noted.eq (hcache : o.cache = none) {key : Text} (h : o.Noted key d d') : d' = d := by
  cases h with
  | not => rfl
  | kept hsome => exact absurd (hcache.symm.trans hsome) (by simp)

theorem Step.result_eq (h : o.Step d path d' r)
    (hfresh : ∀ b, d.read path = .ok b → o.knows d (normalize b).1 = false) :
    r = o.outcome d path := by
  cases h with
  | unreadable hread => rw [outcome, hread]
  | known hread hknown => exact absurd (hknown.symm.trans (hfresh _ hread)) (by simp)
  | refused hread _ hformat => simp only [outcome, hread, hformat]
  | shown hread _ hformat hmode => simp only [outcome, hread, hformat, hmode, if_true]
  | reported hread _ hformat hchanged hmode => simp [outcome, hread, hformat, hchanged, hmode]
  | settled hread _ hformat hmode => simp [outcome, hread, hformat, hmode]
  | rewritten hread _ hformat hchanged hmode =>
    simp [outcome, hread, hformat, hchanged, (RunMode.rewrites_iff.1 hmode).1]

theorem Step.eq_of_read_error (h : o.Step d path d' r) {e : DiskError}
    (hread : d.read path = .error e) : d' = d := by
  cases h with
  | settled hread' => exact absurd (hread.symm.trans hread') (by simp)
  | rewritten hread' => exact absurd (hread.symm.trans hread') (by simp)
  | _ => rfl

/-- A file that is known is left alone. -/
theorem Step.eq_of_knows (h : o.Step d path d' r) (hread : d.read path = .ok b)
    (hknows : o.knows d (normalize b).1 = true) :
    d' = d ∧ r = { path := path, cached := true } := by
  have hfresh : ∀ {b'}, d.read path = .ok b' → o.knows d (normalize b').1 ≠ false := by
    intro b' hread'
    obtain rfl := Except.ok.inj (hread.symm.trans hread')
    simp [hknows]
  cases h with
  | known => exact ⟨rfl, rfl⟩
  | unreadable hread' => exact absurd (hread.symm.trans hread') (by simp)
  | refused hread' hnot => exact absurd hnot (hfresh hread')
  | shown hread' hnot => exact absurd hnot (hfresh hread')
  | reported hread' hnot => exact absurd hnot (hfresh hread')
  | settled hread' hnot => exact absurd hnot (hfresh hread')
  | rewritten hread' hnot => exact absurd hnot (hfresh hread')

/-- A file that is not known is left with its new bytes, and what is then noted in the cache is the
formatted content: that of the file, or what was written. -/
theorem Step.exists_put (h : o.Step d path d' r) {loc : Location} (hread : d.read path = .ok b)
    (hloc : d.locate path = .ok loc) (hfresh : o.knows d (normalize b).1 = false) :
    ∃ mid, d.Put loc (.file (o.leaves b)) mid ∧ (d' = mid ∨ ∃ content,
      format o.style (normalize b).1 = .ok content ∧
      (content = (normalize b).1 ∨ o.mode.rewrites = true) ∧
      o.Noted (o.keyFor content) mid d') := by
  have hsame : o.leaves b = b → d.Put loc (.file (o.leaves b)) d := by
    obtain ⟨l, hl, hfile, -⟩ := Disk.exists_of_read hread
    obtain rfl := Except.ok.inj (hloc.symm.trans hl)
    intro hleaves
    rw [hleaves, ← hfile]
    exact d.put_self loc
  cases h with
  | unreadable hread' => exact absurd (hread.symm.trans hread') (by simp)
  | known hread' hknown =>
    obtain rfl := Except.ok.inj (hread.symm.trans hread')
    exact absurd (hknown.symm.trans hfresh) (by simp)
  | refused hread' _ hformat =>
    obtain rfl := Except.ok.inj (hread.symm.trans hread')
    exact ⟨d, hsame (by simp [leaves, hformat]), Or.inl rfl⟩
  | shown hread' _ hformat hmode =>
    obtain rfl := Except.ok.inj (hread.symm.trans hread')
    exact ⟨d, hsame (by simp [leaves, hformat, hmode, RunMode.rewrites]), Or.inl rfl⟩
  | reported hread' _ hformat hchanged hmode =>
    obtain rfl := Except.ok.inj (hread.symm.trans hread')
    exact ⟨d, hsame (by simp [leaves, hformat, hmode, RunMode.rewrites]), Or.inl rfl⟩
  | settled hread' _ hformat _ hnoted =>
    obtain rfl := Except.ok.inj (hread.symm.trans hread')
    exact ⟨d, hsame (by simp [leaves, hformat]), Or.inr ⟨_, hformat, Or.inl rfl, hnoted⟩⟩
  | @rewritten _ out _ written _ hread' _ hformat hchanged hmode hloc' hput hnoted =>
    obtain rfl := Except.ok.inj (hread.symm.trans hread')
    obtain rfl := Except.ok.inj (hloc.symm.trans hloc')
    have hleaves : o.leaves b = restore (normalize b).2 out := by
      simp only [leaves, hformat, hmode, true_and]
      exact if_pos (Ne.symm hchanged)
    rw [hleaves]
    exact ⟨written, hput, Or.inr ⟨out, hformat, Or.inr hmode, hnoted⟩⟩

/-- Without a cache nothing but the file changes. -/
theorem Step.put (hcache : o.cache = none) (h : o.Step d path d' r) {loc : Location}
    (hread : d.read path = .ok b) (hloc : d.locate path = .ok loc) :
    d.Put loc (.file (o.leaves b)) d' := by
  obtain ⟨mid, hput, rfl | ⟨content, -, -, hnoted⟩⟩ :=
    h.exists_put hread hloc (knows_of_no_cache hcache d _)
  · exact hput
  · rwa [hnoted.eq hcache]

theorem Step.cwd_eq (hcache : o.cache = none) (h : o.Step d path d' r) : d'.cwd = d.cwd := by
  cases hread : d.read path with
  | error e => rw [h.eq_of_read_error hread]
  | ok b =>
    obtain ⟨loc, hloc, -⟩ := Disk.exists_of_read hread
    exact (h.put hcache hread hloc).cwd

/-! ## All files -/

theorem Steps.cwd_eq (hcache : o.cache = none) {paths : List Text} {rs : List FileResult}
    (h : o.Steps d paths d' rs) : d'.cwd = d.cwd := by
  induction h with
  | nil d => rfl
  | cons hstep _ ih => rw [ih, hstep.cwd_eq hcache]

/-- What a run over `paths` makes of the disk `d`. -/
structure Left (o : RunOptions) (d : Disk) (paths : List Text) (d' : Disk) : Prop where
  /-- Every path leads where it did. -/
  locate : ∀ q, d'.locate q = d.locate q
  /-- A path that leads to no file of the run is read as before. -/
  others : ∀ q, (∀ p ∈ paths, ¬ d.Aliased p q) → d'.read q = d.read q
  /-- A file of the run that could not be loaded still cannot. -/
  unread : ∀ p ∈ paths, ∀ e, d.read p = .error e → d'.read p = .error e
  /-- A file of the run that could be loaded has its new bytes. -/
  files : ∀ p ∈ paths, ∀ b, d.read p = .ok b → d'.read p = .ok (o.leaves b)
  /-- No other place changes. -/
  elsewhere : ∀ loc, (∀ p ∈ paths, ∀ b, d.read p = .ok b → d.locate p ≠ .ok loc) →
    d'.holding loc = d.holding loc

theorem Left.nil (o : RunOptions) (d : Disk) : o.Left d [] d :=
  ⟨fun _ => rfl, fun _ _ => rfl, by simp, by simp, fun _ _ => rfl⟩

/-- One file. -/
theorem Step.left (hcache : o.cache = none) (h : o.Step d path d' r) : o.Left d [path] d' := by
  cases hread : d.read path with
  | error e =>
    obtain rfl := h.eq_of_read_error hread
    exact ⟨fun _ => rfl, fun _ _ => rfl, by simp, by simp [hread], fun _ _ => rfl⟩
  | ok b =>
    obtain ⟨loc, hloc, hfile, -⟩ := Disk.exists_of_read hread
    have hput := h.put hcache hread hloc
    refine ⟨hput.locate_eq hfile, ?_, by simp [hread], ?_, ?_⟩
    · intro q hq
      apply hput.read_of_ne hfile
      intro hsame
      exact hq path List.mem_cons_self ⟨loc, hloc, hsame⟩
    · intro p hp b' hb'
      obtain rfl := List.mem_singleton.1 hp
      obtain rfl := Except.ok.inj (hread.symm.trans hb')
      exact hput.read_self hread hloc
    · intro l hl
      apply hput.holding_of_ne
      rintro rfl
      exact hl path List.mem_cons_self b hread hloc

/-- A file, then the others, none of which leads to its place. -/
theorem Left.cons {next : Disk} {paths : List Text} (hfirst : o.Left d [path] next)
    (hrest : o.Left next paths d') (hdistinct : ∀ q ∈ paths, ¬ d.Aliased path q) :
    o.Left d (path :: paths) d' := by
  have halias : ∀ p q, next.Aliased p q ↔ d.Aliased p q := by
    intro p q
    rw [Disk.Aliased, Disk.Aliased, hfirst.locate, hfirst.locate]
  have hnext : ∀ q ∈ paths, next.read q = d.read q := fun q hq =>
    hfirst.others q (by simpa using hdistinct q hq)
  have hlast : d'.read path = next.read path := by
    refine hrest.others path fun p hp hsame => hdistinct p hp ?_
    exact ((halias p path).1 hsame).symm
  refine ⟨?_, ?_, ?_, ?_, ?_⟩
  · intro q
    rw [hrest.locate, hfirst.locate]
  · intro q hq
    rw [hrest.others q fun p hp => (halias p q).not.2 (hq p (List.mem_cons_of_mem path hp)),
      hfirst.others q (by simpa using hq path List.mem_cons_self)]
  · intro p hp e he
    rcases List.mem_cons.1 hp with rfl | hp
    · rw [hlast]
      exact hfirst.unread p List.mem_cons_self e he
    · exact hrest.unread p hp e ((hnext p hp).trans he)
  · intro p hp b hb
    rcases List.mem_cons.1 hp with rfl | hp
    · rw [hlast]
      exact hfirst.files p List.mem_cons_self b hb
    · exact hrest.files p hp b ((hnext p hp).trans hb)
  · intro l hl
    have hplace : next.holding l = d.holding l := by
      apply hfirst.elsewhere
      intro p hp b hb
      obtain rfl := List.mem_singleton.1 hp
      exact hl p List.mem_cons_self b hb
    rw [← hplace]
    apply hrest.elsewhere
    intro p hp b hb
    rw [hfirst.locate]
    exact hl p (List.mem_cons_of_mem path hp) b ((hnext p hp).symm.trans hb)

theorem Steps.left (hcache : o.cache = none) {paths : List Text} {rs : List FileResult}
    (h : o.Steps d paths d' rs) (hdistinct : paths.Pairwise fun p q => ¬ d.Aliased p q) :
    rs = paths.map (o.outcome d) ∧ o.Left d paths d' := by
  induction h with
  | nil d => exact ⟨rfl, Left.nil o d⟩
  | @cons d next d' path paths r rs hstep _ ih =>
    obtain ⟨hpath, hpaths⟩ := List.pairwise_cons.1 hdistinct
    have hfirst := hstep.left hcache
    have hdistinct' : paths.Pairwise fun p q => ¬ next.Aliased p q := by
      refine hpaths.imp fun {p q} hpq => ?_
      rwa [Disk.Aliased, hfirst.locate, hfirst.locate]
    obtain ⟨hresults, hrest⟩ := ih hdistinct'
    refine ⟨?_, hfirst.cons hrest hpath⟩
    rw [List.map_cons, hstep.result_eq fun _ _ => knows_of_no_cache hcache _ _, hresults]
    congr 1
    refine List.map_congr_left fun q hq => outcome_congr (hfirst.others q ?_)
    simpa using hpath q hq

/-- What the run does with a file, seen from the disks before and after it. -/
structure Treated (o : RunOptions) (d d' : Disk) (path : Text) (r : FileResult) : Prop where
  /-- The result is that of the file. -/
  named : r.path = path
  /-- The file was looked at. -/
  fresh : r.cached = false
  /-- A file that cannot be loaded fails, and stays as it is. -/
  unreadable : ∀ e, d.read path = .error e → r.failure.isSome ∧ d'.read path = .error e
  /-- A file that cannot be formatted fails, and keeps its bytes. -/
  refused : ∀ b e, d.read path = .ok b → format o.style (normalize b).1 = .error e →
    r.failure.isSome ∧ d'.read path = .ok b
  /-- Any other file is changed exactly when formatting changes its content, and is then written
  back if the mode asks for it, in the form it had. -/
  formatted : ∀ b out, d.read path = .ok b → format o.style (normalize b).1 = .ok out →
    r.failure = none ∧ (r.changed ↔ out ≠ (normalize b).1) ∧
      d'.read path = .ok
        (if o.mode.rewrites ∧ out ≠ (normalize b).1 then restore (normalize b).2 out else b)

theorem Left.treated {paths : List Text} (h : o.Left d paths d') (hpath : path ∈ paths)
    (hr : r.untimed = o.outcome d path) : o.Treated d d' path r := by
  have hfailure : r.failure = (o.outcome d path).failure := by rw [← hr, FileResult.failure_untimed]
  have hchanged : r.changed = (o.outcome d path).changed := by rw [← hr, FileResult.changed_untimed]
  refine ⟨?_, ?_, ?_, ?_, ?_⟩
  · rw [← FileResult.path_untimed, hr, outcome]
    split
    · rfl
    · split <;> rfl
  · rw [← FileResult.cached_untimed, hr, outcome]
    split
    · rfl
    · split <;> rfl
  · intro e he
    refine ⟨?_, h.unread path hpath e he⟩
    rw [hfailure, outcome, he]
    rfl
  · intro b e hb he
    refine ⟨?_, ?_⟩
    · simp only [hfailure, outcome, hb, he, Option.isSome_some]
    · simpa only [leaves, he] using h.files path hpath b hb
  · intro b out hb hout
    refine ⟨?_, ?_, ?_⟩
    · simp only [hfailure, outcome, hb, hout]
    · simp only [hchanged, outcome, hb, hout, decide_eq_true_eq]
      exact ne_comm
    · simpa only [leaves, hout] using h.files path hpath b hb

/-- In whatever order the files were taken, each is treated as its result says. -/
theorem Left.forall₂_treated {paths taken : List Text} {rs : List FileResult}
    (h : o.Left d taken d') (htaken : ∀ path ∈ paths, path ∈ taken)
    (hrs : rs.map FileResult.untimed = paths.map (o.outcome d)) :
    List.Forall₂ (o.Treated d d') paths rs := by
  have hall : List.Forall₂ (fun path r => o.outcome d path = r.untimed) paths rs :=
    map_eq_map_iff_forall₂.1 hrs.symm
  have htreated := (List.forall₂_and_left _ _).2 ⟨htaken, hall⟩
  exact htreated.imp fun path r hr => h.treated hr.1 hr.2.symm

/-- The files of a run, each with the result that it gets alone. -/
theorem map_outcome_eq_flatMap (hcache : o.cache = none) (s : RunState) (paths : List Text) :
    paths.map (o.outcome s.disk)
      = paths.flatMap fun path => (o.formatFiles s [path]).2.map FileResult.untimed := by
  have halone : ∀ path, (o.formatFiles s [path]).2.map FileResult.untimed
      = [o.outcome s.disk path] := fun path =>
    ((o.formatFiles_steps s [path]).left hcache (List.pairwise_singleton _ _)).1
  rw [List.flatMap_congr fun path _ => halone path]
  exact List.map_eq_flatMap

/-- A schedule gives every file the result that it gets alone. -/
theorem formatScheduled_left (hcache : o.cache = none) (s : RunState) {paths : List Text}
    {schedule : List Nat} (hdistinct : paths.Pairwise fun p q => ¬ s.disk.Aliased p q)
    (hschedule : schedule.Perm (List.range paths.length)) :
    ∃ rs : List FileResult, (o.formatScheduled s paths schedule).2 = rs.map some ∧
      rs.map FileResult.untimed = paths.map (o.outcome s.disk) ∧
      o.Left s.disk (scheduled paths schedule) (o.formatScheduled s paths schedule).1.disk := by
  obtain ⟨rs, hplaced, hsteps⟩ := o.formatScheduled_steps s hschedule
  obtain ⟨hrs, hleft⟩ := hsteps.left hcache
    (Disk.pairwise_not_aliased_of_perm (scheduled_perm hschedule) hdistinct)
  obtain ⟨results, hsome, hresults⟩ := exists_map_some_of_schedule hschedule hrs
  exact ⟨results, hplaced.trans hsome, hresults, hleft⟩

end RunOptions

/-- Without a cache, and with the files of a run in any order, every file gets the result that it
gets alone and is left as the mode says, and nothing else on the disk changes.  The same holds for
the files taken in the order of any schedule, with the results at the places of their files. -/
theorem formatFiles_effect {o : RunOptions} (hcache : o.cache = none) (s : RunState)
    {paths order : List Text} (hdistinct : paths.Pairwise fun p q => ¬ s.disk.Aliased p q)
    (horder : order.Perm paths) :
    List.Forall₂ (o.Treated s.disk (o.formatFiles s order).1.disk) order (o.formatFiles s order).2 ∧
    (o.formatFiles s order).2.map FileResult.untimed
      = order.flatMap (fun path => (o.formatFiles s [path]).2.map FileResult.untimed) ∧
    (∀ loc, (∀ path ∈ paths, ∀ b, s.disk.read path = .ok b → s.disk.locate path ≠ .ok loc) →
      (o.formatFiles s order).1.disk.holding loc = s.disk.holding loc) ∧
    ∀ schedule : List Nat, schedule.Perm (List.range paths.length) →
      ∃ rs : List FileResult, (o.formatScheduled s paths schedule).2 = rs.map some ∧
        List.Forall₂ (o.Treated s.disk (o.formatScheduled s paths schedule).1.disk) paths rs ∧
        rs.map FileResult.untimed
          = paths.flatMap (fun path => (o.formatFiles s [path]).2.map FileResult.untimed) ∧
        ∀ loc, (∀ path ∈ paths, ∀ b, s.disk.read path = .ok b → s.disk.locate path ≠ .ok loc) →
          (o.formatScheduled s paths schedule).1.disk.holding loc = s.disk.holding loc := by
  obtain ⟨hrs, hleft⟩ := (o.formatFiles_steps s order).left hcache
    (Disk.pairwise_not_aliased_of_perm horder hdistinct)
  refine ⟨hleft.forall₂_treated (fun _ => id) hrs, ?_, ?_, ?_⟩
  · rw [hrs, RunOptions.map_outcome_eq_flatMap hcache s order]
  · intro loc hloc
    exact hleft.elsewhere loc fun path hpath => hloc path (horder.mem_iff.1 hpath)
  · intro schedule hschedule
    obtain ⟨rs, hplaced, hrs, hleft⟩ :=
      RunOptions.formatScheduled_left hcache s hdistinct hschedule
    have hmem : ∀ path, path ∈ scheduled paths schedule ↔ path ∈ paths := fun path =>
      (scheduled_perm hschedule).mem_iff
    refine ⟨rs, hplaced, hleft.forall₂_treated (fun path => (hmem path).2) hrs, ?_, ?_⟩
    · rw [hrs, RunOptions.map_outcome_eq_flatMap hcache s paths]
    · intro loc hloc
      exact hleft.elsewhere loc fun path hpath => hloc path ((hmem path).1 hpath)

/-- A file with carriage returns is written back, between one that is missing and one that is no
grammar, and whichever of the three is taken first. -/
theorem formatFiles_effect_mixed :
    let d : Disk := ⟨.dir [(bytes "a.y", .file (bytes "a: b\r\n")),
      (bytes "b.y", .file (bytes "a: b\n\x7d\n"))], []⟩
    let o : RunOptions := { mode := .write }
    let order := [bytes "c.y", bytes "a.y", bytes "b.y"]
    order.Pairwise (fun p q => ¬ d.Aliased p q) ∧
      (o.formatFiles { disk := d } order).1.disk.read (bytes "a.y")
        = .ok (bytes "a :\r\n  b\r\n  ;\r\n") ∧
      (o.formatScheduled { disk := d } order [2, 0, 1]).1.disk.read (bytes "a.y")
        = .ok (bytes "a :\r\n  b\r\n  ;\r\n") := by
  intro d o order
  have hdistinct : order.Pairwise fun p q => ¬ d.Aliased p q := by decide +kernel
  have hcache : o.cache = none := rfl
  have hread : d.read (bytes "a.y") = .ok (bytes "a: b\r\n") := by decide +kernel
  have hformat : format o.style (normalize (bytes "a: b\r\n")).1
      = .ok (bytes "a :\n  b\n  ;\n") := by decide +kernel
  have hrestored : (if o.mode.rewrites ∧ bytes "a :\n  b\n  ;\n" ≠ (normalize (bytes "a: b\r\n")).1
      then restore (normalize (bytes "a: b\r\n")).2 (bytes "a :\n  b\n  ;\n") else bytes "a: b\r\n")
      = bytes "a :\r\n  b\r\n  ;\r\n" := by decide +kernel
  have hwritten : ∀ {d' : Disk} {rs : List FileResult}, List.Forall₂ (o.Treated d d') order rs →
      d'.read (bytes "a.y") = .ok (bytes "a :\r\n  b\r\n  ;\r\n") := by
    intro d' rs htreated
    obtain ⟨_, _, -, hrest, -⟩ := List.forall₂_cons_left_iff.1 htreated
    obtain ⟨r, _, ha, -⟩ := List.forall₂_cons_left_iff.1 hrest
    rw [(ha.formatted _ _ hread hformat).2.2, hrestored]
  obtain ⟨htreated, -, -, hscheduled⟩ :=
    formatFiles_effect hcache { disk := d } hdistinct (List.Perm.refl order)
  obtain ⟨_, -, htreated', -⟩ := hscheduled [2, 0, 1] (by decide)
  exact ⟨hdistinct, hwritten htreated, hwritten htreated'⟩

end GrammarLayout
