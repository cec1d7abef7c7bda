import Mathlib.Data.List.Forall2

/-!
# Lists that correspond

Two lists correspond when their elements do, one by one.  This file holds what
is used of such lists wherever a document, a rule or a run is compared with
another one.

What is proved here:

* `map_eq_map_iff_forall₂` — lists that are mapped to the same list;
* `exists_map_some` — a list whose elements are all there;
* `exists_of_forall₂_concat`, `exists_of_forall₂_append_cons` — the elements that
  correspond to one at the end, and to one in the middle.
-/

namespace GrammarLayout

variable {α β γ : Type}

theorem map_eq_map_iff_forall₂ {f : α → γ} {g : β → γ} {as : List α} {bs : List β} :
    as.map f = bs.map g ↔ List.Forall₂ (fun a b => f a = g b) as bs := by
  rw [← List.forall₂_eq_eq_eq, List.forall₂_map_left_iff, List.forall₂_map_right_iff]

/-- Where every element of a list is there, the list is one of what is there. -/
theorem exists_map_some {R : β → α → Prop} {bs : List β} {as? : List (Option α)}
    (h : List.Forall₂ (fun b a? => ∃ a, R b a ∧ a? = some a) bs as?) :
    ∃ as, as? = as.map some ∧ List.Forall₂ R bs as := by
  induction h with
  | nil => exact ⟨[], rfl, .nil⟩
  | cons hfirst _ ih =>
    obtain ⟨a, ha, rfl⟩ := hfirst
    obtain ⟨as, rfl, has⟩ := ih
    exact ⟨a :: as, rfl, .cons ha has⟩

theorem exists_of_forall₂_concat {R : α → β → Prop} {as : List α} {a : α} {cs : List β}
    (h : List.Forall₂ R (as ++ [a]) cs) :
    ∃ bs b, cs = bs ++ [b] ∧ List.Forall₂ R as bs ∧ R a b := by
  rw [← List.forall₂_reverse_iff, List.reverse_append, List.reverse_singleton,
    List.singleton_append, List.forall₂_cons_left_iff] at h
  obtain ⟨b, bs, hab, hinit, hcs⟩ := h
  refine ⟨bs.reverse, b, ?_, ?_, hab⟩
  · rw [← List.reverse_reverse cs, hcs, List.reverse_cons]
  · rwa [← List.forall₂_reverse_iff, List.reverse_reverse]

/-- Where the entries of two lists correspond, so do the parts in front of and behind an entry. -/
theorem exists_of_forall₂_append_cons {R : α → β → Prop} {as : List α} {bs cs : List β} {b : β}
    (h : List.Forall₂ R as (bs ++ b :: cs)) :
    ∃ bs' a cs', as = bs' ++ a :: cs' ∧ bs'.length = bs.length ∧ R a b := by
  have htake := List.forall₂_take_append as bs (b :: cs) h
  have hdrop := List.forall₂_drop_append as bs (b :: cs) h
  obtain ⟨a, cs', hab, -, hcons⟩ := List.forall₂_cons_right_iff.1 hdrop
  exact ⟨as.take bs.length, a, cs', by rw [← hcons, List.take_append_drop], htake.length_eq, hab⟩

end GrammarLayout
