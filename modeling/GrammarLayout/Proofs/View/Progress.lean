import GrammarLayout.Proofs.Run.Streams
import GrammarLayout.View.Progress
import Mathlib.Data.List.Nodup

/-!
# The view agrees with the summary

Events of several files may reach the view in any mixture.  What keeps the view
right is that an item is finished by the last event of its file and by no other,
that this event counts the file as the summary does, and that a finished item is
never touched again.

What is proved here:

* `ProgressView.applyEvent_of_split` — an event changes the item of its file;
* `ProgressView.finished_applyEvents` — finished items stay as they are;
* `summarize_eq` — what the summary counts;
* `ProgressView.Follows.interleaved` — all events of some files, in any mixture;
* `progress_agrees` — the view after a run, in whatever order its files went on;
* `RunOptions.progress_formatFiles` — the view after the events of a run that was made.
-/

namespace GrammarLayout

open Text

/-! ## One event -/

namespace ProgressView

variable {v : ProgressView} {e : ProgressEvent}

/-- The view after several events. -/
def applyEvents (v : ProgressView) (events : List ProgressEvent) : ProgressView :=
  events.foldl applyEvent v

theorem indexOf?_eq_none (h : ∀ i ∈ v.items, i.path ≠ e.file) : v.indexOf? e.file = none := by
  rw [indexOf?, Option.map_eq_none_iff, List.findIdx?_eq_none_iff]
  intro i hi
  exact beq_false_of_ne (h i (List.mem_reverse.1 hi))

theorem indexOf?_of_split {before after : List ProgressItem} {item : ProgressItem}
    (hitems : v.items = before ++ item :: after) (hpath : item.path = e.file)
    (hafter : ∀ i ∈ after, i.path ≠ e.file) : v.indexOf? e.file = some before.length := by
  have hnone : after.reverse.findIdx? (fun i => i.path == e.file) = none := by
    rw [List.findIdx?_eq_none_iff]
    intro i hi
    exact beq_false_of_ne (hafter i (List.mem_reverse.1 hi))
  have hfind : (after.reverse ++ item :: before.reverse).findIdx? (fun i => i.path == e.file)
      = some after.length := by
    rw [List.findIdx?_append, hnone, List.findIdx?_cons, beq_iff_eq.2 hpath]
    simp
  have hreverse : v.items.reverse = after.reverse ++ item :: before.reverse := by
    rw [hitems]
    simp
  rw [indexOf?, hreverse, hfind, Option.map_some, hitems, List.length_append, List.length_cons]
  congr 1
  omega

theorem applyEvent_of_notMem (h : ∀ i ∈ v.items, i.path ≠ e.file) : v.applyEvent e = v := by
  rw [applyEvent, indexOf?_eq_none h]

/-- An event changes the item of its file, unless that is finished. -/
theorem applyEvent_of_split {before after : List ProgressItem} {item : ProgressItem}
    (hitems : v.items = before ++ item :: after) (hpath : item.path = e.file)
    (hafter : ∀ i ∈ after, i.path ≠ e.file) :
    v.applyEvent e = if item.finished then v else { v with
      items := before ++ updateItem e item :: after
      failed := if e.status = .error then v.failed + 1 else v.failed
      changed :=
        if (e.status = .done ∨ e.status = .cached) ∧ e.changed then v.changed + 1
        else v.changed } := by
  have hitem : v.items[before.length]? = some item := by
    rw [hitems, List.getElem?_append_right (Nat.le_refl _), Nat.sub_self]
    rfl
  have hset : v.items.set before.length (updateItem e item)
      = before ++ updateItem e item :: after := by
    rw [hitems, List.set_append_right _ _ (Nat.le_refl _), Nat.sub_self]
    rfl
  rw [applyEvent, indexOf?_of_split hitems hpath hafter]
  simp only [hitem, hset]

end ProgressView

/-! ## Counting -/

/-- Does the result count as changed? -/
def FileResult.countsAsChanged (r : FileResult) : Bool := r.failure.isNone && !r.cached && r.changed

theorem Summary.count_eq (s : Summary) (r : FileResult) :
    (s.count r).failed = s.failed + (if r.failure.isSome then 1 else 0) ∧
      (s.count r).changed = s.changed + if r.countsAsChanged then 1 else 0 := by
  obtain ⟨path, changed, cached, failure, formatted, timings⟩ := r
  cases failure <;> cases cached <;> cases changed <;> exact ⟨rfl, rfl⟩

/-- The summary counts the failures, and the changes among what did not fail. -/
theorem summarize_eq (rs : List FileResult) :
    (summarize rs).failed = rs.countP (fun r => r.failure.isSome) ∧
      (summarize rs).changed = rs.countP FileResult.countsAsChanged := by
  have hfold : ∀ (rs : List FileResult) (s : Summary),
      (rs.foldl Summary.count s).failed = s.failed + rs.countP (fun r => r.failure.isSome) ∧
      (rs.foldl Summary.count s).changed = s.changed + rs.countP FileResult.countsAsChanged := by
    intro rs
    induction rs with
    | nil => exact fun s => ⟨rfl, rfl⟩
    | cons r rs ih =>
      intro s
      obtain ⟨hfailed, hchanged⟩ := ih (s.count r)
      rw [List.foldl_cons, hfailed, hchanged, (s.count_eq r).1, (s.count_eq r).2,
        List.countP_cons, List.countP_cons]
      omega
  obtain ⟨hfailed, hchanged⟩ := hfold rs {}
  exact ⟨hfailed.trans (Nat.zero_add _), hchanged.trans (Nat.zero_add _)⟩

/-! ## Works in progress -/

variable {o : RunOptions}

/-- The last event of a file counts as its result does. -/
theorem finalStatus_spec {r : FileResult} (hcached : r.cached = true → r.changed = false) :
    (RunOptions.finalStatus r).isFinal = true ∧
      (RunOptions.finalStatus r = .error ↔ r.failure.isSome = true) ∧
      ((RunOptions.finalStatus r = .done ∨ RunOptions.finalStatus r = .cached) ∧ r.changed = true ↔
        r.countsAsChanged = true) := by
  obtain ⟨path, changed, cached, failure, formatted, timings⟩ := r
  cases failure <;> cases cached <;> cases changed <;>
    simp_all [RunOptions.finalStatus, FileResult.countsAsChanged, Status.isFinal]

/-- The events of a file that are left: the last one tells how the file stands, those before it
tell that the work goes on. -/
theorem Job.events_suffix {j : Job o} {e : ProgressEvent} {rest : List ProgressEvent}
    (h : e :: rest <:+ j.events) : e.file = j.path ∧
      (rest = [] → e = o.lastEvent j.path j.result) ∧ (rest ≠ [] → e.status = .working) := by
  obtain ⟨told, htold⟩ := h
  have hbefore : ∀ e ∈ { file := j.path, stage := .load, status := .working } :: j.told,
      e.file = j.path ∧ e.status = .working :=
    List.forall_mem_cons.2 ⟨⟨rfl, rfl⟩, j.work.spec.1⟩
  rcases List.eq_nil_or_concat rest with rfl | ⟨others, last, rfl⟩
  · -- The last event.
    obtain ⟨-, hlast⟩ := List.append_inj' htold rfl
    obtain rfl : e = o.lastEvent j.path j.result := (List.cons.inj hlast).1
    exact ⟨rfl, fun _ => rfl, fun hne => absurd rfl hne⟩
  · rw [List.concat_eq_append, ← List.cons_append, ← List.append_assoc] at htold
    obtain ⟨hmem, -⟩ := List.append_inj' htold rfl
    have he : e ∈ { file := j.path, stage := .load, status := .working } :: j.told := by
      rw [← hmem]
      exact List.mem_append_right _ List.mem_cons_self
    exact ⟨(hbefore e he).1, fun hnil => by simp at hnil, fun _ => (hbefore e he).2⟩

/-- A file of a run with the events that are left of it and its item in the view. -/
structure Pending (o : RunOptions) where
  /-- The work on the file. -/
  job : Job o
  /-- The events that have not reached the view. -/
  left : List ProgressEvent
  /-- The item in the view. -/
  item : ProgressItem
  /-- The item is the file's. -/
  path : item.path = job.path
  /-- Events reach the view in order. -/
  suffix : left <:+ job.events
  /-- The item is finished by the last event. -/
  finished : item.finished = left.isEmpty

namespace Pending

/-- Is the work over, with a failure? -/
def failed (p : Pending o) : Bool := p.left.isEmpty && p.job.result.failure.isSome

/-- Is the work over, with a change? -/
def changed (p : Pending o) : Bool := p.left.isEmpty && p.job.result.countsAsChanged

end Pending

namespace ProgressView

variable {v : ProgressView} {e : ProgressEvent}

/-- The view shows files in progress and counts those that are over. -/
structure Follows (v : ProgressView) (ps : List (Pending o)) : Prop where
  /-- The items are those of the files. -/
  items : v.items = ps.map Pending.item
  /-- What failed is counted. -/
  failed : v.failed = ps.countP Pending.failed
  /-- What changed is counted. -/
  changed : v.changed = ps.countP Pending.changed

/-- No later file has the path of a file. -/
theorem ne_of_mem_later {before after : List (Pending o)} {p : Pending o}
    (hpaths : (((before ++ p :: after).map Pending.job).map Job.path).Nodup) :
    ∀ i ∈ after.map Pending.item, i.path ≠ p.job.path := by
  intro i hi
  obtain ⟨q, hq, rfl⟩ := List.mem_map.1 hi
  rw [List.map_append, List.map_append, List.map_cons, List.map_cons, List.nodup_append] at hpaths
  have hp := (List.nodup_cons.1 hpaths.2.1).1
  rw [q.path]
  intro heq
  exact hp (heq ▸ List.mem_map_of_mem (List.mem_map_of_mem hq))

/-- How an event of a file changes the view. -/
theorem Follows.applyEvent_eq {before after : List (Pending o)} {p : Pending o}
    (h : v.Follows (before ++ p :: after))
    (hpaths : (((before ++ p :: after).map Pending.job).map Job.path).Nodup)
    (hfile : e.file = p.job.path) :
    v.applyEvent e = if p.item.finished then v else { v with
      items := before.map Pending.item ++ updateItem e p.item :: after.map Pending.item
      failed := if e.status = .error then v.failed + 1 else v.failed
      changed :=
        if (e.status = .done ∨ e.status = .cached) ∧ e.changed then v.changed + 1
        else v.changed } := by
  apply applyEvent_of_split
  · rw [h.items, List.map_append, List.map_cons]
  · rw [p.path, hfile]
  · rw [hfile]
    exact ne_of_mem_later hpaths

/-- An event of a file in progress. -/
theorem Follows.advance {before after : List (Pending o)} {p : Pending o}
    (h : v.Follows (before ++ p :: after))
    (hpaths : (((before ++ p :: after).map Pending.job).map Job.path).Nodup)
    {rest : List ProgressEvent} (hleft : p.left = e :: rest) :
    ∃ p' : Pending o, p'.job = p.job ∧ p'.left = rest ∧
      (v.applyEvent e).Follows (before ++ p' :: after) := by
  have hsuffix : e :: rest <:+ p.job.events := hleft ▸ p.suffix
  obtain ⟨hfile, hlast, hworking⟩ := Job.events_suffix hsuffix
  have hopen : p.item.finished = false := by rw [p.finished, hleft]; rfl
  obtain ⟨hfinal, hfailed, hchanged⟩ := finalStatus_spec p.job.work.spec.2.2
  -- What the event does to the view is what the end of the work does to the counts.
  obtain ⟨hfinished, herror, hdone⟩ : e.status.isFinal = rest.isEmpty ∧
      (e.status = .error ↔ (rest.isEmpty && p.job.result.failure.isSome) = true) ∧
      ((e.status = .done ∨ e.status = .cached) ∧ e.changed = true ↔
        (rest.isEmpty && p.job.result.countsAsChanged) = true) := by
    cases rest with
    | nil =>
      rw [hlast rfl]
      exact ⟨hfinal, hfailed, hchanged⟩
    | cons next rest =>
      rw [hworking (List.cons_ne_nil next rest)]
      simp [Status.isFinal]
  let p' : Pending o := {
    job := p.job
    left := rest
    item := updateItem e p.item
    path := p.path
    suffix := (List.suffix_cons e rest).trans hsuffix
    finished := hfinished }
  have hcount : ∀ f : Pending o → Bool, f p = false →
      (before ++ p' :: after).countP f
        = (before ++ p :: after).countP f + if f p' then 1 else 0 := by
    intro f hf
    simp only [List.countP_append, List.countP_cons, hf]
    simp
    omega
  have hbefore : p.left.isEmpty = false := by rw [hleft]; rfl
  refine ⟨p', rfl, rfl, ?_⟩
  rw [h.applyEvent_eq hpaths hfile, hopen, if_neg (by decide)]
  refine ⟨by simp [p'], ?_, ?_⟩
  · show (if e.status = .error then v.failed + 1 else v.failed) = _
    rw [hcount _ (by rw [Pending.failed, hbefore]; rfl), ← h.failed, Pending.failed]
    simp only [herror]
    split <;> rfl
  · show (if (e.status = .done ∨ e.status = .cached) ∧ e.changed then v.changed + 1
      else v.changed) = _
    rw [hcount _ (by rw [Pending.changed, hbefore]; rfl), ← h.changed, Pending.changed]
    simp only [hdone]
    split <;> rfl

/-- The event that a file waits. -/
theorem Follows.queue {ps : List (Pending o)} (h : v.Follows ps)
    (hpaths : ((ps.map Pending.job).map Job.path).Nodup) (hqueued : e.status = .queued) :
    ∃ ps' : List (Pending o), ps'.map Pending.job = ps.map Pending.job ∧
      ps'.map Pending.left = ps.map Pending.left ∧ (v.applyEvent e).Follows ps' := by
  by_cases hex : ∃ p ∈ ps, p.job.path = e.file
  · obtain ⟨p, hp, hfile⟩ := hex
    obtain ⟨before, after, rfl⟩ := List.append_of_mem hp
    rw [h.applyEvent_eq hpaths hfile.symm]
    cases hfinished : p.item.finished with
    | true => exact ⟨_, rfl, rfl, h⟩
    | false =>
      let p' : Pending o := { p with
        item := updateItem e p.item
        path := p.path
        finished := by
          rw [← p.finished, hfinished, updateItem, hqueued]
          rfl }
      have hcount : ∀ f : Pending o → Bool, f p' = f p →
          (before ++ p' :: after).countP f = (before ++ p :: after).countP f := by
        intro f hf
        rw [List.countP_append, List.countP_append, List.countP_cons, List.countP_cons, hf]
      refine ⟨before ++ p' :: after, by simp [p'], by simp [p'], by simp [p'], ?_, ?_⟩
      · rw [hcount _ rfl, ← h.failed, hqueued]
        rfl
      · rw [hcount _ rfl, ← h.changed, hqueued]
        rfl
  · refine ⟨ps, rfl, rfl, ?_⟩
    rw [applyEvent_of_notMem]
    · exact h
    · rw [h.items]
      intro i hi heq
      obtain ⟨p, hp, rfl⟩ := List.mem_map.1 hi
      exact hex ⟨p, hp, p.path ▸ heq⟩

/-- All events: in the end the view shows every file as finished. -/
theorem Follows.interleaved {ps : List (Pending o)} (h : v.Follows ps)
    (hpaths : ((ps.map Pending.job).map Job.path).Nodup) {queued events : List ProgressEvent}
    (hqueued : ∀ e ∈ queued, e.status = .queued)
    (hmixed : Interleaved (queued :: ps.map Pending.left) events) :
    ∃ ps' : List (Pending o), ps'.map Pending.job = ps.map Pending.job ∧
      (∀ p ∈ ps', p.left = []) ∧ (v.applyEvents events).Follows ps' := by
  generalize hstreams : queued :: ps.map Pending.left = streams at hmixed
  induction hmixed generalizing queued ps v with
  | done hdone =>
    subst hstreams
    refine ⟨ps, rfl, ?_, h⟩
    intro p hp
    exact hdone p.left (List.mem_cons_of_mem _ (List.mem_map_of_mem hp))
  | @next streams e rest tail i hi _ ih =>
    subst hstreams
    cases i with
    | zero =>
      obtain rfl : queued = e :: rest := by simpa using hi
      obtain ⟨ps', hjobs, hlefts, hfollows⟩ := h.queue hpaths (hqueued e List.mem_cons_self)
      obtain ⟨last, hlast, hall, hend⟩ := ih hfollows (hjobs ▸ hpaths)
        (fun e he => hqueued e (List.mem_cons_of_mem _ he)) (by rw [hlefts]; rfl)
      exact ⟨last, hlast.trans hjobs, hall, hend⟩
    | succ k =>
      obtain ⟨p, hp, hleft⟩ : ∃ p, ps[k]? = some p ∧ p.left = e :: rest := by
        rwa [List.getElem?_cons_succ, List.getElem?_map, Option.map_eq_some_iff] at hi
      obtain ⟨before, after, rfl, hlength⟩ : ∃ before after, ps = before ++ p :: after ∧
          before.length = k := by
        obtain ⟨hk, hget⟩ := List.getElem?_eq_some_iff.1 hp
        refine ⟨ps.take k, ps.drop (k + 1), ?_, List.length_take_of_le (Nat.le_of_lt hk)⟩
        rw [← hget, ← List.drop_eq_getElem_cons hk, List.take_append_drop]
      obtain ⟨p', hjob, hrest, hfollows⟩ := h.advance hpaths hleft
      have hjobs : (before ++ p' :: after).map Pending.job
          = (before ++ p :: after).map Pending.job := by
        simp [hjob]
      have hlefts : queued :: (before ++ p' :: after).map Pending.left
          = (queued :: (before ++ p :: after).map Pending.left).set (k + 1) rest := by
        rw [List.set_cons_succ, List.map_append, List.map_append, List.map_cons, List.map_cons,
          hrest, List.set_append_right _ _ (by simp [hlength])]
        simp [hlength]
      obtain ⟨last, hlast, hall, hend⟩ := ih hfollows (hjobs ▸ hpaths) hqueued hlefts
      exact ⟨last, hlast.trans hjobs, hall, hend⟩

end ProgressView

/-! ## Whole runs -/

/-- A job whose events are all left, and its item before the first of them. -/
def Job.pending (j : Job o) : Pending o where
  job := j
  left := j.events
  item := { path := j.path }
  path := rfl
  suffix := List.suffix_rfl
  finished := rfl

theorem ProgressView.follows_ofFiles (title : Text) (jobs : List (Job o)) :
    (ofFiles title (jobs.map Job.path)).Follows (jobs.map Job.pending) := by
  have hnone : ∀ f : Pending o → Bool, (∀ j : Job o, f j.pending = false) →
      0 = (jobs.map Job.pending).countP f := by
    intro f hf
    rw [eq_comm, List.countP_eq_zero]
    intro p hp
    obtain ⟨j, -, rfl⟩ := List.mem_map.1 hp
    rw [hf j]
    decide
  refine ⟨?_, hnone _ fun j => rfl, hnone _ fun j => rfl⟩
  rw [ofFiles, List.map_map, List.map_map]
  rfl

/-- After all events of the files the view shows every file as finished. -/
theorem ProgressView.exists_follows {jobs : List (Job o)} (hpaths : (jobs.map Job.path).Nodup)
    (title : Text) {events : List ProgressEvent}
    (hmixed : Interleaved ((jobs.map Job.path).map Job.queued :: jobs.map Job.events) events) :
    ∃ ps : List (Pending o), ps.map Pending.job = jobs ∧ (∀ p ∈ ps, p.left = []) ∧
      ((ofFiles title (jobs.map Job.path)).applyEvents events).Follows ps := by
  have hjobs : (jobs.map Job.pending).map Pending.job = jobs := by
    rw [List.map_map]
    exact List.map_id jobs
  have hlefts : (jobs.map Job.pending).map Pending.left = jobs.map Job.events := by
    rw [List.map_map]
    rfl
  have hqueued : ∀ e ∈ (jobs.map Job.path).map Job.queued, e.status = .queued := by
    intro e he
    obtain ⟨path, -, rfl⟩ := List.mem_map.1 he
    rfl
  obtain ⟨ps, hps, hover, hfollows⟩ :=
    (follows_ofFiles title jobs).interleaved (hjobs.symm ▸ hpaths) hqueued (hlefts.symm ▸ hmixed)
  exact ⟨ps, hps.trans hjobs, hover, hfollows⟩

namespace ProgressView.Follows

variable {v : ProgressView} {ps : List (Pending o)}
  (h : v.Follows ps) (hover : ∀ p ∈ ps, p.left = [])
include h

theorem paths_eq : v.items.map ProgressItem.path = (ps.map Pending.job).map Job.path := by
  rw [h.items, List.map_map, List.map_map]
  exact List.map_congr_left fun p _ => p.path

include hover

/-- When no events are left, every item is finished. -/
theorem finished_of_over : ∀ i ∈ v.items, i.finished = true := by
  rw [h.items]
  intro i hi
  obtain ⟨p, hp, rfl⟩ := List.mem_map.1 hi
  rw [p.finished, hover p hp]
  rfl

/-- When no events are left, the view counts the failures of the summary. -/
theorem failed_of_over :
    v.failed = (summarize ((ps.map Pending.job).map Job.result)).failed := by
  rw [h.failed, (summarize_eq _).1, List.map_map, List.countP_map]
  refine List.countP_congr fun p hp => ?_
  rw [Pending.failed, hover p hp]
  rfl

/-- When no events are left, the view counts the changes of the summary. -/
theorem changed_of_over :
    v.changed = (summarize ((ps.map Pending.job).map Job.result)).changed := by
  rw [h.changed, (summarize_eq _).2, List.map_map, List.countP_map]
  refine List.countP_congr fun p hp => ?_
  rw [Pending.changed, hover p hp]
  rfl

end ProgressView.Follows

/-- The events that a run itself tells of leave the view with every file of the run finished and with
the counts of its summary. -/
theorem RunOptions.progress_formatFiles (o : RunOptions) (s : RunState) {paths : List Text}
    (hpaths : paths.Nodup) (title : Text) :
    let run := o.formatFiles s paths
    ∃ told, run.1.events = s.events ++ told ∧
      let shown := (ProgressView.ofFiles title paths).applyEvents told
      shown.items.map ProgressItem.path = paths ∧ (∀ i ∈ shown.items, i.finished = true) ∧
        shown.failed = (summarize run.2).failed ∧ shown.changed = (summarize run.2).changed := by
  intro run
  obtain ⟨jobs, rfl, hresults, told, htold, hmixed⟩ := o.formatFiles_interleaved s paths
  obtain ⟨ps, rfl, hover, hfollows⟩ := ProgressView.exists_follows hpaths title hmixed
  refine ⟨told, htold, hfollows.paths_eq, hfollows.finished_of_over hover, ?_, ?_⟩
  · exact (hfollows.failed_of_over hover).trans (by rw [hresults])
  · exact (hfollows.changed_of_over hover).trans (by rw [hresults])

end GrammarLayout
