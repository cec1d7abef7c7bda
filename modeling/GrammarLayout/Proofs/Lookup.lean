import GrammarLayout.Text.Basic

/-!
# Lists of named things

The entries of a directory, the settings of a table and the latest versions of
files are lists of names with what stands behind each.  A name is looked up by
its first entry, and setting it replaces this entry or adds one at the end.

What is proved here:

* `lookup_eq_some_iff_mem` — where each name stands once, every entry is found;
* `lookup_eq_none_iff_notMem` — the names that are not found;
* `lookup_of_setter` — setting a name leaves all others alone.
-/

namespace GrammarLayout

variable {α : Type}

theorem lookup_cons_eq_ite (key k : Text) (a : α) (l : List (Text × α)) :
    ((k, a) :: l).lookup key = if key = k then some a else l.lookup key := by
  rw [List.lookup_cons]
  by_cases h : key = k
  · simp [h]
  · rw [if_neg h, beq_false_of_ne h]

theorem mem_of_lookup {l : List (Text × α)} {name : Text} {a : α} (h : l.lookup name = some a) :
    (name, a) ∈ l := by
  obtain ⟨before, after, rfl, -⟩ := List.lookup_eq_some_iff.1 h
  exact List.mem_append_right _ List.mem_cons_self

/-- Where each name stands once, every entry is found by its name. -/
theorem lookup_eq_some_iff_mem {l : List (Text × α)} (hl : (l.map Prod.fst).Nodup) {name : Text}
    {a : α} : l.lookup name = some a ↔ (name, a) ∈ l := by
  refine ⟨mem_of_lookup, fun hmem => ?_⟩
  obtain ⟨before, after, rfl⟩ := List.append_of_mem hmem
  refine List.lookup_eq_some_iff.2 ⟨before, after, rfl, fun e he => ?_⟩
  rw [List.map_append, List.nodup_append] at hl
  rw [bne_iff_ne]
  exact (hl.2.2 e.1 (List.mem_map_of_mem he) name List.mem_cons_self).symm

theorem lookup_eq_none_iff_notMem {l : List (Text × α)} {name : Text} :
    l.lookup name = none ↔ name ∉ l.map Prod.fst := by
  rw [List.lookup_eq_none_iff, List.mem_map]
  constructor
  · rintro h ⟨e, he, rfl⟩
    exact bne_iff_ne.1 (h e he) rfl
  · intro h e he
    rw [bne_iff_ne]
    rintro rfl
    exact h ⟨e, he, rfl⟩

/-- A function that replaces the first entry of a name, or adds one at the end, leaves what stands
behind every other name alone. -/
theorem lookup_of_setter {name : Text} {a : α} {set : List (Text × α) → List (Text × α)}
    (hnil : set [] = [(name, a)])
    (hcons : ∀ k old rest, set ((k, old) :: rest)
      = if k = name then (k, a) :: rest else (k, old) :: set rest)
    (key : Text) (l : List (Text × α)) :
    (set l).lookup key = if key = name then some a else l.lookup key := by
  induction l with
  | nil => rw [hnil, lookup_cons_eq_ite]
  | cons e rest ih =>
    obtain ⟨k, old⟩ := e
    rw [hcons, lookup_cons_eq_ite]
    by_cases hk : k = name
    · rw [if_pos hk, lookup_cons_eq_ite, hk]
      split <;> rfl
    · rw [if_neg hk, lookup_cons_eq_ite, ih]
      by_cases h : key = k
      · rw [if_pos h, if_neg fun hname => hk (h.symm.trans hname), if_pos h]
      · rw [if_neg h, if_neg h]

end GrammarLayout
