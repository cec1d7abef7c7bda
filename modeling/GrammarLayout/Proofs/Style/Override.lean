import GrammarLayout.Proofs.Style.Decode
import GrammarLayout.Proofs.Style.Encode

/-!
# Successive overrides

A style's own settings, laid over the defaults, hide every one of them; so an
override is read off what it says itself and, where it is silent, off the
style.  Overriding twice therefore comes to the same as overriding once with the
second override laid over the first, although laying trees over each other is
not associative: a first override that could hide a table of the second is
rejected on its own.

What is proved here:

* `Style.about_override` — whose word about a key is heard;
* `Style.nested_of_override` — an accepted override has tables where tables
  belong;
* `Style.override_merge` — successive overrides compose.
-/

namespace GrammarLayout

open Text

/-! ## A style's own settings -/

/-- The tree that holds a table for each pass. -/
def Table.ofSections (sections : PassName → Table) : Table :=
  [(bytes "rules", .table (PassName.all.map fun p => (p.key, .table (sections p))))]

theorem Table.about_ofSections (sections : PassName → Table) (p : PassName) (key : Text) :
    (ofSections sections).about p key = ((sections p).get? key).map fun v => .ok v.leaf := by
  cases p <;> rfl

theorem Table.distinct_ofSections {sections : PassName → Table} (h : ∀ p, (sections p).Distinct) :
    (ofSections sections).Distinct := by
  refine distinct_singleton (.intro ?_ ?_)
  · show (PassName.all.map PassName.key).Nodup
    decide
  · intro name sub hsub
    obtain ⟨p, -, hp⟩ := List.mem_map.1 (mem_of_get? hsub)
    rw [Prod.mk.injEq, Setting.table.injEq] at hp
    rw [← hp.2]
    exact h p

/-- A table that is missing for one key is missing for all. -/
theorem Table.about_error {t : Table} {p : PassName} {key : Text} {fault : SettingFault}
    (h : t.about p key = some (.error fault)) (key' : Text) :
    t.about p key' = some (.error fault) := by
  simp only [Table.about, Table.sectionAbout, Table.inside] at h ⊢
  split at h
  · cases h
  · split at h
    · exact h
    · split at h
      · cases h
      · split at h
        · exact h
        · simp at h

namespace Style

variable {s : Style} {p : PassName} {e : Text × Setting}

theorem nodup_section (s : Style) (p : PassName) : ((s.section p).map Prod.fst).Nodup := by
  rw [section_keys s {} p]
  cases p <;> decide

theorem leaf_of_mem_section (he : e ∈ s.section p) : e.2.leaf = e.2 ∧ e.2.table? = none :=
  forall_section (P := fun v => v.leaf = v ∧ v.table? = none) (fun _ => ⟨rfl, rfl⟩) ⟨rfl, rfl⟩
    ⟨rfl, rfl⟩ ⟨rfl, rfl⟩ he

theorem about_settings (s : Style) (p : PassName) (key : Text) :
    s.settings.about p key = (Table.get? (s.section p) key).map fun v => .ok v.leaf :=
  Table.about_ofSections s.section p key

theorem about_settings_of_mem (he : e ∈ s.section p) :
    s.settings.about p e.1 = some (.ok e.2) := by
  rw [about_settings, Table.get?_of_mem (nodup_section s p) he, Option.map_some,
    (leaf_of_mem_section he).1]

theorem nested_settings (s : Style) : s.settings.Nested := by
  intro p key fault h
  rw [about_settings] at h
  obtain ⟨v, -, hv⟩ := Option.map_eq_some_iff.1 h
  cases hv

theorem distinct_section (s : Style) (p : PassName) : (s.section p).Distinct :=
  Table.distinct_of_leaves (nodup_section s p) fun _ he => (leaf_of_mem_section he).2

theorem distinct_settings (s : Style) : s.settings.Distinct :=
  Table.distinct_ofSections (distinct_section s)

/-! ## Whose word is heard -/

variable {m : Table}

/-- Every style has the same keys. -/
theorem exists_entry (s : Style) {s' : Style} (he : e ∈ s'.section p) :
    ∃ own ∈ s.section p, own.1 = e.1 := by
  rw [← List.mem_map, section_keys s s' p]
  exact List.mem_map_of_mem he

theorem told_merge (s : Style) (hm : m.Distinct) : Told (Table.merge s.settings m) := by
  intro s' p e he
  obtain ⟨own, hown, hname⟩ := exists_entry s he
  rw [Table.about_merge hm (nested_settings s), ← hname, about_settings_of_mem hown]
  cases m.about p own.1 <;> simp

/-- An override speaks first, then the style; the defaults are never heard. -/
theorem about_override (hm : m.Distinct) (he : e ∈ s.section p) :
    (Table.merge ({} : Style).settings (Table.merge s.settings m)).about p e.1
      = (m.about p e.1).or (some (.ok e.2)) := by
  rw [Table.about_merge ((distinct_settings s).merge hm) (nested_settings _),
    Table.about_merge hm (nested_settings s), about_settings_of_mem he]
  cases m.about p e.1 <;> rfl

theorem told_override (s : Style) (hm : m.Distinct) :
    Told (Table.merge ({} : Style).settings (Table.merge s.settings m)) :=
  told_merge {} ((distinct_settings s).merge hm)

theorem override_eq (s : Style) (m : Table) :
    s.override m = ofTree (Table.merge ({} : Style).settings (Table.merge s.settings m)) := rfl

/-- An override is accepted when its word, or else the style's, reads well about every key. -/
theorem override_eq_ok_iff (hm : m.Distinct) {s₁ : Style} : s.override m = .ok s₁ ↔
    1 ≤ s₁.indent.size ∧ ∀ p, ∀ e ∈ s₁.section p,
      (Table.merge ({} : Style).settings (Table.merge s.settings m)).reading p e.1 e.2
        = some (.ok e.2) :=
  ofTree_eq_ok_iff (told_override s hm)

/-- An accepted override has tables where tables belong. -/
theorem nested_of_override (hm : m.Distinct) {s₁ : Style} (h : s.override m = .ok s₁) :
    m.Nested := by
  intro p key fault hfault
  obtain ⟨e, he⟩ : ∃ e, e ∈ s₁.section p := by
    cases p <;> exact ⟨_, List.mem_cons_self⟩
  have hread := ((override_eq_ok_iff hm).1 h).2 p e he
  have habout : (Table.merge ({} : Style).settings (Table.merge s.settings m)).about p e.1
      = some (.error fault) := by
    have hsettings := (distinct_settings s).merge hm
    rw [Table.about_merge hsettings (nested_settings _), Table.about_merge hm (nested_settings s),
      Table.about_error hfault e.1]
    rfl
  rw [Table.reading, habout] at hread
  cases hread

/-! ## Own settings read back -/

theorem fitsWord_of_number? {v : Setting} {n : Int} (h : v.number? = some (some n)) :
    fitsWord n = true := by
  cases v with
  | int width k =>
    rw [Setting.number?, Option.some.injEq] at h
    split at h
    · rename_i hfits
      rwa [← Option.some.inj h]
    · cases h
  | float x =>
    rw [Setting.number?, Option.some.injEq] at h
    exact (Option.filter_eq_some_iff.1 h).2
  | _ => cases h

theorem fitsWord_size_iff {n : Nat} : fitsWord n = true ↔ n < twoTo 63 := by
  simp only [fitsWord, Bool.and_eq_true, decide_eq_true_eq]
  omega

/-- The settings of a valid style read as themselves. -/
theorem asLike_self (hs : s.Valid) (he : e ∈ s.section p) : e.2.asLike p e.1 e.2 = .ok e.2 := by
  have hsize : (Setting.int .native s.indent.size).number?
      = some (some (s.indent.size : Int)) := by
    rw [Setting.number?, if_pos (fitsWord_size_iff.2 hs.2)]
  exact forall_section (P := fun v => v.asLike p e.1 v = .ok v)
    (fun b => Setting.asLike_flag b b) (Setting.asLike_int hsize _ _) (Setting.asLike_text _ _)
    (Setting.asLike_text _ _) he

/-- Only valid styles are read. -/
theorem valid_of_ofTree {t : Table} (ht : Told t) (h : ofTree t = .ok s) : s.Valid := by
  obtain ⟨hsize, hread⟩ := (ofTree_eq_ok_iff ht).1 h
  refine ⟨hsize, ?_⟩
  have hint : t.reading .indent (bytes "size") (.int .native s.indent.size)
      = some (.ok (.int .native s.indent.size)) :=
    hread .indent _ (List.mem_cons_of_mem _ List.mem_cons_self)
  obtain ⟨x, -, hx⟩ := Option.map_eq_some_iff.1 hint
  obtain ⟨v, -, hv⟩ := exists_of_bind_eq_ok (show x >>= _ = _ from hx)
  rw [← fitsWord_size_iff]
  rw [Setting.asLike] at hv
  split at hv
  · cases hv
  · cases hv
  · rename_i n hn
    obtain rfl : n = s.indent.size := by simpa using hv
    exact fitsWord_of_number? hn

/-- Successive overrides compose. -/
theorem override_merge {s : Style} (hs : s.Valid) {m₁ m₂ : Table} (h₁ : m₁.Distinct)
    (h₂ : m₂.Distinct) :
    s.override [] = .ok s ∧ ofSettings s.settings = .ok s ∧
      ∀ s₁, s.override m₁ = .ok s₁ → s₁.override m₂ = s.override (Table.merge m₁ m₂) := by
  have hnil : Table.Distinct [] := Table.distinct_of_leaves List.nodup_nil (by simp)
  have hself : s.override [] = .ok s := by
    refine (override_eq_ok_iff hnil).2 ⟨hs.1, ?_⟩
    intro p e he
    rw [Table.reading, about_override hnil he]
    exact congrArg some (asLike_self hs he)
  refine ⟨hself, ?_, ?_⟩
  · rw [override, Table.merge] at hself
    exact hself
  · intro s₁ hs₁
    have hread₁ := ((override_eq_ok_iff h₁).1 hs₁).2
    have hvalid₁ : s₁.Valid := valid_of_ofTree (told_override s h₁) hs₁
    have hboth := h₁.merge h₂
    rw [override_eq, override_eq]
    refine ofTree_congr (told_override s₁ h₂) (told_override s hboth) s₁ ?_
    intro p e he
    -- The style `s` has its own entry for the key.
    obtain ⟨own, hown, hname⟩ := exists_entry s he
    rw [Table.reading, Table.reading, about_override h₂ he, ← hname, about_override hboth hown,
      Table.about_merge h₂ (nested_of_override h₁ hs₁)]
    cases hsecond : m₂.about p own.1 with
    | some x => rfl
    | none =>
      -- The second override is silent: what is left is `s₁` read back, and the first override.
      have hfirst := hread₁ p e he
      rw [Table.reading, ← hname, about_override h₁ hown] at hfirst
      rw [Option.none_or, Option.none_or, hfirst, hname]
      exact congrArg some (asLike_self hvalid₁ he)

/-- A step of four, written as a floating-point number beside a name that means nothing, and after
it a pass whose section is no table: the second override is rejected, whichever way it is laid. -/
theorem override_merge_rejected :
    let wide : Table := [(bytes "rules", .table [(bytes "indent", .table
      [(bytes "size", .float (.ofRatio false 4 1)), (bytes "colour", .null)])])]
    let faulty : Table := [(bytes "rules", .table [(bytes "spacing", .flag false)])]
    let widened : Style := { indent := { size := 4 } }
    ({} : Style).override wide = .ok widened ∧
      widened.override faulty = ({} : Style).override (Table.merge wide faulty) ∧
      widened.override faulty = .error (.sectionNotTable .spacing) := by
  intro wide faulty widened
  have hwide : ({} : Style).override wide = .ok widened := rfl
  have hdistinct : wide.Distinct := Table.distinct_singleton (Table.distinct_singleton
    (Table.distinct_of_leaves (by decide) (by simp [Setting.table?])))
  have hfaulty : faulty.Distinct :=
    Table.distinct_singleton (Table.distinct_of_leaves (by decide) (by simp [Setting.table?]))
  have hvalid : ({} : Style).Valid := ⟨by decide, by decide⟩
  exact ⟨hwide, (override_merge hvalid hdistinct hfaulty).2.2 widened hwide, by decide⟩

end Style

end GrammarLayout
