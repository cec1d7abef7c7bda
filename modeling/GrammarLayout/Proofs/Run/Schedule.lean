import GrammarLayout.Proofs.Forall2
import GrammarLayout.Proofs.Run.Steps
import Mathlib.Data.List.Nodup

/-!
# Files in the order of a schedule

Results are put where their files stand among all, so it does not show in them
in which order the files were taken.  A schedule that takes every file once
leaves no place open, and what it does to the disk are the steps of its files
in its order.

What is proved here:

* `getElem?_place_of_mem` — what is put somewhere is found there;
* `RunOptions.formatScheduled_steps` — a schedule is one step after the other;
* `RunOptions.exists_map_some_of_schedule` — every file has a result, and it is
  that of its step;
* `RunOptions.formatScheduled_range` — a run is the schedule that goes through the
  files as they are given.
-/

namespace GrammarLayout

open Text

/-! ## Putting results into places -/

/-- Values put into places one after the other. -/
def place {α : Type} (places : List (Option α)) (numbered : List (Nat × α)) : List (Option α) :=
  numbered.foldl (fun places x => places.set x.1 (some x.2)) places

section Place

variable {α : Type} {places : List (Option α)} {numbered : List (Nat × α)}

theorem length_place : (place places numbered).length = places.length := by
  induction numbered generalizing places with
  | nil => rfl
  | cons x numbered ih => exact ih.trans List.length_set

theorem getElem?_place_of_notMem {i : Nat} (h : i ∉ numbered.map Prod.fst) :
    (place places numbered)[i]? = places[i]? := by
  induction numbered generalizing places with
  | nil => rfl
  | cons x numbered ih =>
    rw [List.map_cons, List.mem_cons, not_or] at h
    exact (ih h.2).trans (List.getElem?_set_ne (Ne.symm h.1))

/-- What is put into a place stays there, if nothing else is put into it. -/
theorem getElem?_place_of_mem (hnodup : (numbered.map Prod.fst).Nodup) {i : Nat} {a : α}
    (h : (i, a) ∈ numbered) (hi : i < places.length) :
    (place places numbered)[i]? = some (some a) := by
  induction numbered generalizing places with
  | nil => exact absurd h List.not_mem_nil
  | cons x numbered ih =>
    rw [List.map_cons, List.nodup_cons] at hnodup
    rcases List.mem_cons.1 h with rfl | h
    · exact (getElem?_place_of_notMem hnodup.1).trans (List.getElem?_set_self hi)
    · exact ih hnodup.2 h (by rwa [List.length_set])

/-- Where every place is filled once, the values stand in the order of the places. -/
theorem exists_place_zip_eq {R : Nat → α → Prop} {n : Nat} {schedule : List Nat} {as : List α}
    (hschedule : schedule.Perm (List.range n)) (has : List.Forall₂ R schedule as) :
    ∃ bs, place (List.replicate n none) (schedule.zip as) = bs.map some ∧
      List.Forall₂ R (List.range n) bs := by
  have hnumbers : (schedule.zip as).map Prod.fst = schedule :=
    List.map_fst_zip (Nat.le_of_eq has.length_eq)
  have hnodup : ((schedule.zip as).map Prod.fst).Nodup := by
    rw [hnumbers]
    exact hschedule.nodup_iff.2 List.nodup_range
  refine exists_map_some (List.forall₂_iff_get.2 ⟨?_, fun i hi hi' => ?_⟩)
  · rw [length_place, List.length_replicate, List.length_range]
  · have hlt : i < n := by rwa [List.length_range] at hi
    obtain ⟨⟨k, a⟩, ha, hk⟩ : ∃ x ∈ schedule.zip as, x.1 = i := by
      rw [← List.mem_map, hnumbers, hschedule.mem_iff, List.mem_range]
      exact hlt
    obtain rfl : k = i := hk
    have hplace : (place (List.replicate n none) (schedule.zip as))[k]? = some (some a) :=
      getElem?_place_of_mem hnodup ha (by rwa [List.length_replicate])
    refine ⟨a, ?_, ?_⟩
    · rw [List.get_eq_getElem, List.getElem_range]
      exact List.forall₂_zip has ha
    · rw [List.get_eq_getElem]
      exact (List.getElem?_eq_some_iff.1 hplace).2

theorem place_range_zip (as : List α) :
    place (List.replicate as.length none) ((List.range as.length).zip as) = as.map some := by
  have hrange : (List.range as.length).map (fun i => as[i]?) = as.map some :=
    List.ext_getElem (by simp) fun i hi hi' => by simp
  obtain ⟨bs, hplaces, hbs⟩ := exists_place_zip_eq (List.Perm.refl (List.range as.length))
    (map_eq_map_iff_forall₂.1 hrange)
  rw [hplaces, ← map_eq_map_iff_forall₂.2 hbs, hrange]

end Place

/-! ## Schedules -/

/-- The files of a schedule, in its order. -/
def scheduled (paths : List Text) (schedule : List Nat) : List Text :=
  schedule.map fun i => paths.getD i []

theorem scheduled_range (paths : List Text) : scheduled paths (List.range paths.length) = paths := by
  refine List.ext_getElem (by simp [scheduled]) fun i hi hi' => ?_
  simp [scheduled, hi']

/-- A schedule that takes every file once takes the files in another order. -/
theorem scheduled_perm {paths : List Text} {schedule : List Nat}
    (h : schedule.Perm (List.range paths.length)) : (scheduled paths schedule).Perm paths := by
  have hmap := h.map fun i => paths.getD i []
  rwa [← scheduled, ← scheduled, scheduled_range] at hmap

namespace RunOptions

variable {o : RunOptions} {paths : List Text} {schedule : List Nat}

/-- A schedule of files formats one after the other and puts the results into their places. -/
theorem formatAt_eq (o : RunOptions) (current : Nat) (s : RunState)
    (results : List (Option FileResult)) (h : ∀ i ∈ schedule, i < paths.length) :
    o.formatAt current paths s results schedule
      = ((o.formatEach current s (scheduled paths schedule)).1,
        place results (schedule.zip (o.formatEach current s (scheduled paths schedule)).2)) := by
  induction schedule generalizing s results with
  | nil => rfl
  | cons i schedule ih =>
    obtain ⟨hi, hrest⟩ := List.forall_mem_cons.1 h
    have hpath : paths[i]? = some (paths.getD i []) := by simp [hi]
    rw [formatAt, hpath]
    exact ih _ _ hrest

theorem lt_of_mem_schedule (h : schedule.Perm (List.range paths.length)) :
    ∀ i ∈ schedule, i < paths.length :=
  fun _ hi => List.mem_range.1 (h.mem_iff.1 hi)

/-- A run in the order of a schedule is one step after the other, and the results of the steps go to
the places of their files. -/
theorem formatScheduled_steps (o : RunOptions) (s : RunState)
    (h : schedule.Perm (List.range paths.length)) :
    ∃ rs, (o.formatScheduled s paths schedule).2
        = place (List.replicate paths.length none) (schedule.zip rs) ∧
      o.Steps s.disk (scheduled paths schedule) (o.formatScheduled s paths schedule).1.disk
        (rs.map FileResult.untimed) := by
  obtain ⟨current, begun, hdisk, hrun⟩ := o.exists_overFiles s paths
  rw [formatScheduled, (hrun _).1, (hrun _).2, ← hdisk,
    o.formatAt_eq current begun _ (lt_of_mem_schedule h)]
  exact ⟨_, rfl, o.formatEach_steps current begun (scheduled paths schedule)⟩

/-- Where the result of each step depends on its file only, the results of the run are those of its
files in the order in which they are given. -/
theorem exists_map_some_of_schedule {f : Text → FileResult} {rs : List FileResult}
    (h : schedule.Perm (List.range paths.length))
    (hrs : rs.map FileResult.untimed = (scheduled paths schedule).map f) :
    ∃ results, place (List.replicate paths.length none) (schedule.zip rs)
        = List.map some results ∧
      results.map FileResult.untimed = paths.map f := by
  have hall : List.Forall₂ (fun i r => f (paths.getD i []) = r.untimed) schedule rs := by
    rw [scheduled, List.map_map] at hrs
    exact map_eq_map_iff_forall₂.1 hrs.symm
  obtain ⟨results, hplaces, hresults⟩ := exists_place_zip_eq h hall
  refine ⟨results, hplaces, ?_⟩
  calc results.map FileResult.untimed
      = (List.range paths.length).map (fun i => f (paths.getD i [])) :=
        (map_eq_map_iff_forall₂.2 hresults).symm
    _ = (scheduled paths (List.range paths.length)).map f := List.map_map.symm
    _ = paths.map f := by rw [scheduled_range]

theorem length_formatEach (o : RunOptions) (current : Nat) (s : RunState) (paths : List Text) :
    (o.formatEach current s paths).2.length = paths.length := by
  induction paths generalizing s with
  | nil => rfl
  | cons path paths ih => exact congrArg (· + 1) (ih _)

/-- A run is the schedule that goes through its files in the order in which they are given. -/
theorem formatScheduled_range (o : RunOptions) (s : RunState) (paths : List Text) :
    o.formatScheduled s paths (List.range paths.length)
      = ((o.formatFiles s paths).1, (o.formatFiles s paths).2.map some) := by
  have hwork : ∀ current s, o.formatAt current paths s (List.replicate paths.length none)
      (List.range paths.length)
      = ((o.formatEach current s paths).1, (o.formatEach current s paths).2.map some) := by
    intro current s
    have hplaces := place_range_zip (o.formatEach current s paths).2
    rw [o.length_formatEach] at hplaces
    rw [o.formatAt_eq current s _ fun i => List.mem_range.1, scheduled_range, hplaces]
  simp only [formatScheduled, overFiles, hwork]
  rfl

end RunOptions

end GrammarLayout
