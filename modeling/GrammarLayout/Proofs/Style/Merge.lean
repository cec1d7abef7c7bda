import GrammarLayout.Proofs.Lookup
import GrammarLayout.Style.Decode
import Mathlib.Data.List.Nodup

/-!
# Laying one tree of settings over another

Of a pass's key a tree of settings says nothing, gives a value, or says by a
table that is missing that there can be none.  Where a tree is laid over
another, it has the first say; what it passes over is left to the tree below.

What is proved here:

* `Table.get?_merge` — what a name holds after one table is laid over another;
* `Table.Distinct.merge` — names stay distinct;
* `Table.about_merge` — the upper tree speaks first.
-/

namespace GrammarLayout

open Text

/-! ## Names -/

namespace Table

theorem get?_cons (name key : Text) (v : Setting) (t : Table) :
    get? ((name, v) :: t) key = if key = name then some v else t.get? key :=
  lookup_cons_eq_ite key name v t

theorem get?_eq_none_iff {t : Table} {key : Text} : t.get? key = none ↔ key ∉ t.map Prod.fst :=
  lookup_eq_none_iff_notMem

theorem get?_of_mem {t : Table} (ht : (t.map Prod.fst).Nodup) {e : Text × Setting}
    (he : e ∈ t) : t.get? e.1 = some e.2 :=
  (lookup_eq_some_iff_mem ht).2 he

theorem mem_of_get? {t : Table} {name : Text} {v : Setting} (h : t.get? name = some v) :
    (name, v) ∈ t :=
  mem_of_lookup h

theorem get?_set (name key : Text) (v : Setting) (t : Table) :
    (t.set name v).get? key = if key = name then some v else t.get? key := by
  refine lookup_of_setter ?_ (fun k old rest => ?_) key t
  · rw [set]
  · rw [set]

theorem map_fst_set (name : Text) (v : Setting) (t : Table) :
    (t.set name v).map Prod.fst
      = if name ∈ t.map Prod.fst then t.map Prod.fst else t.map Prod.fst ++ [name] := by
  induction t with
  | nil => rfl
  | cons e t ih =>
    obtain ⟨k, old⟩ := e
    rw [set]
    by_cases hk : k = name
    · simp [hk]
    · simp only [if_neg hk, List.map_cons, ih, List.mem_cons, Ne.symm hk, false_or]
      split <;> rfl

/-- What a name holds after one table is laid over another. -/
theorem get?_merge (base : Table) {t : Table} (ht : (t.map Prod.fst).Nodup) (key : Text) :
    (merge base t).get? key
      = ((t.get? key).map (Setting.over (base.get? key))).or (base.get? key) := by
  induction t generalizing base with
  | nil => rw [merge]; simp [get?]
  | cons e t ih =>
    obtain ⟨name, v⟩ := e
    obtain ⟨hname, hrest⟩ := List.nodup_cons.1 ht
    rw [merge, mergeEntry, ih _ hrest, get?_set, get?_cons]
    by_cases h : key = name
    · rw [h, if_pos rfl, if_pos rfl, get?_eq_none_iff.2 hname]
      rfl
    · rw [if_neg h, if_neg h]

theorem nodup_merge (base : Table) (t : Table) (hbase : (base.map Prod.fst).Nodup) :
    ((merge base t).map Prod.fst).Nodup := by
  induction t generalizing base with
  | nil => rwa [merge]
  | cons e t ih =>
    obtain ⟨name, v⟩ := e
    rw [merge, mergeEntry]
    apply ih
    rw [map_fst_set]
    split
    · exact hbase
    · rename_i hname
      exact List.Nodup.append hbase (List.nodup_singleton name) (by simpa using hname)

/-- Each name stands once in the table, and once in every table below it. -/
inductive Distinct : Table → Prop where
  /-- The names of the table, and the tables below it. -/
  | intro {t : Table} (names : (t.map Prod.fst).Nodup)
      (subs : ∀ name sub, t.get? name = some (.table sub) → Distinct sub) : Distinct t

theorem Distinct.names {t : Table} (h : t.Distinct) : (t.map Prod.fst).Nodup := by
  cases h with
  | intro names _ => exact names

theorem Distinct.sub {t sub : Table} {name : Text} (h : t.Distinct)
    (hsub : t.get? name = some (.table sub)) : sub.Distinct := by
  cases h with
  | intro _ subs => exact subs name sub hsub

theorem distinct_of_leaves {t : Table} (names : (t.map Prod.fst).Nodup)
    (leaves : ∀ e ∈ t, e.2.table? = none) : t.Distinct := by
  refine .intro names ?_
  intro name sub hsub
  have hnone := leaves _ (mem_of_get? hsub)
  cases hnone

theorem distinct_singleton {name : Text} {t : Table} (ht : t.Distinct) :
    Distinct [(name, .table t)] := by
  refine .intro (List.nodup_singleton _) ?_
  intro key sub hsub
  have hmem := mem_of_get? hsub
  rw [List.mem_singleton, Prod.mk.injEq, Setting.table.injEq] at hmem
  rwa [hmem.2]

end Table

/-! ## Tables over tables -/

theorem Setting.table?_eq_some_iff {v : Setting} {t : Table} :
    v.table? = some t ↔ v = .table t := by
  cases v <;> simp [Setting.table?]

/-- A table is laid over a table; in every other case the upper value stays as it is. -/
theorem Setting.over_cases (old : Option Setting) (v : Setting) :
    ((old.bind Setting.table? = none ∨ v.table? = none) ∧ Setting.over old v = v) ∨
    ∃ lower upper, old = some (.table lower) ∧ v = .table upper ∧
      Setting.over old v = .table (Table.merge lower upper) := by
  cases hv : v.table? with
  | none =>
    refine Or.inl ⟨Or.inr rfl, ?_⟩
    cases v with
    | table entries => simp [Setting.table?] at hv
    | _ => rw [Setting.over]; simp
  | some upper =>
    obtain rfl := Setting.table?_eq_some_iff.1 hv
    cases hold : old.bind Setting.table? with
    | none =>
      refine Or.inl ⟨Or.inl rfl, ?_⟩
      rw [Setting.over]
      rintro lower rfl
      simp [Setting.table?] at hold
    | some lower =>
      obtain ⟨w, rfl, hw⟩ := Option.bind_eq_some_iff.1 hold
      obtain rfl := Setting.table?_eq_some_iff.1 hw
      exact Or.inr ⟨lower, upper, rfl, rfl, by rw [Setting.over]⟩

/-- A value as far as its type and, at a leaf, its content go. -/
def Setting.leaf : Setting → Setting
  | .table _ => .table []
  | v => v

theorem Setting.leaf_over (old : Option Setting) (v : Setting) :
    (Setting.over old v).leaf = v.leaf := by
  rcases Setting.over_cases old v with ⟨-, h⟩ | ⟨lower, upper, -, rfl, h⟩
  · rw [h]
  · rw [h]
    rfl

namespace Table

variable {base t : Table}

theorem Distinct.merge (hbase : base.Distinct) (ht : t.Distinct) : (merge base t).Distinct := by
  induction ht generalizing base with
  | @intro t names subs ih =>
    refine .intro (nodup_merge base t hbase.names) ?_
    intro name sub hsub
    rw [get?_merge base names] at hsub
    cases hname : t.get? name with
    | none =>
      rw [hname] at hsub
      exact hbase.sub hsub
    | some v =>
      rw [hname, Option.map_some, Option.some_or, Option.some.injEq] at hsub
      rcases Setting.over_cases (base.get? name) v with ⟨-, h⟩ | ⟨lower, upper, hlower, rfl, h⟩
      · exact subs name sub (by rw [hname, ← hsub, h])
      · rw [h, Setting.table.injEq] at hsub
        rw [← hsub]
        exact ih name upper hname (hbase.sub hlower)

/-! ## What a tree says about a key -/

/-- What is seen inside the table of a name: nothing without the name, and a fault where something
else stands in the table's place. -/
def inside (t : Table) (name : Text) (fault : SettingFault)
    (look : Table → Option (Except SettingFault Setting)) : Option (Except SettingFault Setting) :=
  match t.get? name with
  | none => none
  | some v =>
      match v.table? with
      | none => some (.error fault)
      | some sub => look sub

/-- What the settings of the passes say about a pass's key: nothing, a value, or that the pass has
no table to hold one. -/
def sectionAbout (rules : Table) (p : PassName) (key : Text) :
    Option (Except SettingFault Setting) :=
  rules.inside p.key (.sectionNotTable p) fun entries =>
    (entries.get? key).map fun v => .ok v.leaf

/-- What a tree of settings says about a pass's key. -/
def about (t : Table) (p : PassName) (key : Text) : Option (Except SettingFault Setting) :=
  t.inside (bytes "rules") .rulesNotTable fun rules => rules.sectionAbout p key

/-- Wherever a table has to stand, the tree has a table or nothing. -/
def Nested (t : Table) : Prop := ∀ p key fault, t.about p key ≠ some (.error fault)

section Inside

variable {name : Text} {fault : SettingFault}
  {look : Table → Option (Except SettingFault Setting)}

theorem inside_of_none (h : t.get? name = none) : t.inside name fault look = none := by
  rw [inside, h]

theorem inside_of_table {sub : Table} (h : t.get? name = some (.table sub)) :
    t.inside name fault look = look sub := by
  rw [inside, h]
  rfl

theorem inside_of_fault {v : Setting} (h : t.get? name = some v) (hv : v.table? = none) :
    t.inside name fault look = some (.error fault) := by
  simp only [inside, h, hv]

/-- Inside a name, the upper table speaks first if it does so inside the tables of that name. -/
theorem inside_merge (ht : (t.map Prod.fst).Nodup)
    (hbase : base.inside name fault look ≠ some (.error fault))
    (hlook : ∀ lower upper, base.get? name = some (.table lower) →
      t.get? name = some (.table upper) →
      look (merge lower upper) = (look upper).or (look lower)) :
    (merge base t).inside name fault look
      = (t.inside name fault look).or (base.inside name fault look) := by
  have hget := get?_merge base ht name
  cases hname : t.get? name with
  | none =>
    rw [hname] at hget
    rw [inside_of_none hname, Option.none_or, inside, inside, hget]
    rfl
  | some v =>
    rw [hname, Option.map_some, Option.some_or] at hget
    rcases Setting.over_cases (base.get? name) v with ⟨hnot, h⟩ | ⟨lower, upper, hlower, rfl, h⟩
    · rw [h] at hget
      cases hv : v.table? with
      | none => rw [inside_of_fault hget hv, inside_of_fault hname hv, Option.some_or]
      | some sub =>
        -- Below there is nothing of that name: something else would be at fault there.
        have hnone : base.get? name = none := by
          cases hb : base.get? name with
          | none => rfl
          | some w =>
            have hw : w.table? = none := by simpa [hb, hv] using hnot
            exact absurd (inside_of_fault hb hw) hbase
        rw [inside_of_none hnone, Option.or_none, inside, inside, hget, hname]
    · rw [h] at hget
      rw [inside_of_table hget, inside_of_table hname, inside_of_table hlower,
        hlook lower upper hlower hname]

end Inside

variable {p : PassName} {key : Text}

theorem sectionAbout_merge (ht : t.Distinct)
    (hbase : ∀ fault, base.sectionAbout p key ≠ some (.error fault)) :
    (merge base t).sectionAbout p key
      = (t.sectionAbout p key).or (base.sectionAbout p key) := by
  refine inside_merge ht.names (hbase _) ?_
  intro lower upper hlower hupper
  rw [get?_merge lower (ht.sub hupper).names]
  cases Table.get? upper key with
  | none => rfl
  | some v => simp [Setting.leaf_over]

/-- The upper tree speaks first. -/
theorem about_merge (ht : t.Distinct) (hbase : base.Nested) :
    (merge base t).about p key = (t.about p key).or (base.about p key) := by
  refine inside_merge ht.names (hbase p key _) ?_
  intro lower upper hlower hupper
  refine sectionAbout_merge (ht.sub hupper) fun fault hfault => ?_
  exact hbase p key fault ((inside_of_table hlower).trans hfault)

end Table

end GrammarLayout
