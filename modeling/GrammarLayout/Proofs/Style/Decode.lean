import GrammarLayout.Proofs.Except
import GrammarLayout.Proofs.Style.Merge

/-!
# Reading a style key by key

A style is read off seventeen keys, each with a type of its own.  What is read
of a key depends only on what the tree of settings says about it, and where all
keys are there, these readings settle the style or the fault.

What is proved here:

* `Style.ofRules_eq_ok_iff` — a style is read when every key reads as the
  style's own setting;
* `readLike_of_sectionAbout` — a key reads as what the tree says about it;
* `Style.ofTree_congr`, `Style.ofTree_eq_ok_iff` — the same over whole trees.
-/

namespace GrammarLayout

open Text

/-- A pass's key read as the type of a setting. -/
def readLike (rules : Table) (p : PassName) (key : Text) : Setting → Except SettingFault Setting
  | .flag _ => (readFlag rules p key).map .flag
  | .text _ => (readText rules p key).map .text
  | .int _ _ => (readInt rules p key).map (.int .native)
  | v => (readSetting rules p key).map fun _ => v

theorem flag_injective : Function.Injective Setting.flag := fun _ _ => Setting.flag.inj
theorem text_injective : Function.Injective Setting.text := fun _ _ => Setting.text.inj
theorem int_injective : Function.Injective (Setting.int .native) :=
  fun _ _ h => (Setting.int.inj h).2

theorem readLike_flag {rules : Table} {p : PassName} {key : Text} {b : Bool} :
    readLike rules p key (.flag b) = .ok (.flag b) ↔ readFlag rules p key = .ok b := by
  simp [readLike, map_eq_ok_iff]

theorem readLike_text {rules : Table} {p : PassName} {key t : Text} :
    readLike rules p key (.text t) = .ok (.text t) ↔ readText rules p key = .ok t := by
  simp [readLike, map_eq_ok_iff]

theorem readLike_int {rules : Table} {p : PassName} {key : Text} {n : Int} :
    readLike rules p key (.int .native n) = .ok (.int .native n) ↔ readInt rules p key = .ok n := by
  simp [readLike, map_eq_ok_iff]

theorem IndentKind.ofKey?_key (k : IndentKind) : ofKey? k.key = some k := by
  cases k <;> decide

theorem IndentKind.key_of_ofKey? {t : Text} {k : IndentKind} (h : ofKey? t = some k) :
    k.key = t := by
  simpa using List.find?_some h

theorem BracePlacement.ofKey?_key (k : BracePlacement) : ofKey? k.key = some k := by
  cases k <;> decide

theorem BracePlacement.key_of_ofKey? {t : Text} {k : BracePlacement} (h : ofKey? t = some k) :
    k.key = t := by
  simpa using List.find?_some h

namespace Style

/-- What holds of every truth value, of the step and of the two names holds of all settings of a
style. -/
theorem forall_section {P : Setting → Prop} {s : Style} (flag : ∀ b, P (.flag b))
    (size : P (.int .native s.indent.size)) (kind : P (.text s.indent.kind.key))
    (placement : P (.text s.brace.placement.key)) {p : PassName} {e : Text × Setting}
    (he : e ∈ s.section p) : P e.2 := by
  have hall : ∀ e ∈ s.section p, P e.2 := by
    cases p <;> simp [Style.section, flag, size, kind, placement]
  exact hall e he

/-- What is read of every key, settles what style is read. -/
theorem ofRules_eq_ok_iff {rules : Table} {s : Style} : ofRules rules = .ok s ↔
    1 ≤ s.indent.size ∧ ∀ p, ∀ e ∈ s.section p, readLike rules p e.1 e.2 = .ok e.2 := by
  constructor
  · intro h
    unfold ofRules at h
    obtain ⟨_, h1, h⟩ := exists_of_bind_eq_ok h
    obtain ⟨size, h2, h⟩ := exists_of_bind_eq_ok h
    obtain ⟨kindName, h3, h⟩ := exists_of_bind_eq_ok h
    obtain ⟨_, h4, h⟩ := exists_of_bind_eq_ok h
    obtain ⟨placementName, h5, h⟩ := exists_of_bind_eq_ok h
    obtain ⟨_, h6, h⟩ := exists_of_bind_eq_ok h
    obtain ⟨_, h7, h⟩ := exists_of_bind_eq_ok h
    obtain ⟨_, h8, h⟩ := exists_of_bind_eq_ok h
    obtain ⟨_, h9, h⟩ := exists_of_bind_eq_ok h
    obtain ⟨_, h10, h⟩ := exists_of_bind_eq_ok h
    obtain ⟨_, h11, h⟩ := exists_of_bind_eq_ok h
    obtain ⟨_, h12, h⟩ := exists_of_bind_eq_ok h
    obtain ⟨_, h13, h⟩ := exists_of_bind_eq_ok h
    obtain ⟨_, h14, h⟩ := exists_of_bind_eq_ok h
    obtain ⟨_, h15, h⟩ := exists_of_bind_eq_ok h
    obtain ⟨_, h16, h⟩ := exists_of_bind_eq_ok h
    obtain ⟨_, h17, h⟩ := exists_of_bind_eq_ok h
    have hsize : ¬ size < 1 := by
      intro hlt
      rw [if_pos hlt] at h
      cases h
    rw [if_neg hsize] at h
    cases hkind : IndentKind.ofKey? kindName with
    | none =>
      rw [hkind] at h
      cases h
    | some kind =>
      rw [hkind] at h
      cases hplacement : BracePlacement.ofKey? placementName with
      | none =>
        rw [hplacement] at h
        cases h
      | some placement =>
        rw [hplacement] at h
        obtain rfl := Except.ok.inj h
        have hnat : ((size.toNat : Nat) : Int) = size := by omega
        refine ⟨show 1 ≤ size.toNat by omega, ?_⟩
        intro p
        cases p <;> simp [Style.section, readLike_flag, readLike_text, readLike_int, *,
          IndentKind.key_of_ofKey? hkind, BracePlacement.key_of_ofKey? hplacement]
  · rintro ⟨hsize, h⟩
    have h1 := h .indent
    have h2 := h .braceNewline
    have h3 := h .spacing
    have h4 := h .alignment
    have h5 := h .emptyLine
    clear h
    simp only [Style.section, List.forall_mem_cons, readLike_flag, readLike_text,
      readLike_int] at h1 h2 h3 h4 h5
    obtain ⟨a1, a2, a3, -⟩ := h1
    obtain ⟨b1, b2, b3, -⟩ := h2
    obtain ⟨c1, c2, c3, c4, -⟩ := h3
    obtain ⟨d1, d2, d3, -⟩ := h4
    obtain ⟨e1, e2, e3, e4, -⟩ := h5
    have hnot : ¬ (s.indent.size : Int) < 1 := by omega
    simp only [ofRules, a1, a2, a3, b1, b2, b3, c1, c2, c3, c4, d1, d2, d3, e1, e2, e3, e4, bind,
      Except.bind, pure, Except.pure]
    rw [if_neg hnot, IndentKind.ofKey?_key, BracePlacement.ofKey?_key]
    rfl

/-- Where every key reads the same, the same style or the same fault is read. -/
theorem ofRules_congr {rules rules' : Table} (s : Style)
    (h : ∀ p, ∀ e ∈ s.section p, readLike rules p e.1 e.2 = readLike rules' p e.1 e.2) :
    ofRules rules = ofRules rules' := by
  have h1 := h .indent
  have h2 := h .braceNewline
  have h3 := h .spacing
  have h4 := h .alignment
  have h5 := h .emptyLine
  clear h
  simp only [Style.section, List.forall_mem_cons, readLike, map_inj flag_injective,
    map_inj text_injective, map_inj int_injective] at h1 h2 h3 h4 h5
  obtain ⟨a1, a2, a3, -⟩ := h1
  obtain ⟨b1, b2, b3, -⟩ := h2
  obtain ⟨c1, c2, c3, c4, -⟩ := h3
  obtain ⟨d1, d2, d3, -⟩ := h4
  obtain ⟨e1, e2, e3, e4, -⟩ := h5
  rw [ofRules, ofRules, a1, a2, a3, b1, b2, b3, c1, c2, c3, c4, d1, d2, d3, e1, e2, e3, e4]

end Style

/-! ## Readings and what the tree says -/

/-- A value read as the type of a setting. -/
def Setting.asLike (p : PassName) (key : Text) (v : Setting) : Setting → Except SettingFault Setting
  | .flag _ =>
      match v with
      | .flag b => .ok (.flag b)
      | _ => .error (.wrongType p key (bytes "a boolean") v.typeName)
  | .text _ =>
      match v with
      | .text t => .ok (.text t)
      | _ => .error (.wrongType p key (bytes "a string") v.typeName)
  | .int _ _ =>
      match v.number? with
      | none => .error (.wrongType p key (bytes "an integer") v.typeName)
      | some none => .error (.outOfRange p key)
      | some (some n) => .ok (.int .native n)
  | like => .ok like

variable {rules : Table} {p : PassName} {key : Text}

theorem Setting.asLike_flag (b like : Bool) :
    (Setting.flag b).asLike p key (.flag like) = .ok (.flag b) := rfl

theorem Setting.asLike_text (t like : Text) :
    (Setting.text t).asLike p key (.text like) = .ok (.text t) := rfl

theorem Setting.asLike_int {v : Setting} {n : Int} (h : v.number? = some (some n))
    (width : IntWidth) (like : Int) :
    v.asLike p key (.int width like) = .ok (.int .native n) := by
  rw [asLike, h]

theorem readLike_of_readSetting {v : Setting} (h : readSetting rules p key = .ok (some v))
    (like : Setting) : readLike rules p key like = v.leaf.asLike p key like := by
  cases like with
  | flag _ =>
    rw [readLike, readFlag, h]
    cases v <;> rfl
  | text _ =>
    rw [readLike, readText, h]
    cases v <;> rfl
  | int _ _ =>
    have hnumber : v.leaf.number? = v.number? := by cases v <;> rfl
    have hname : v.leaf.typeName = v.typeName := by cases v <;> rfl
    rw [readLike, readInt, h, Setting.asLike, hnumber, hname]
    show Except.map _ (match v.number? with | none => _ | some none => _ | some (some _) => _) = _
    rcases v.number? with _ | _ | n <;> rfl
  | _ => simp [readLike, h, Except.map, Setting.asLike]

theorem readLike_of_readSetting_error {fault : SettingFault}
    (h : readSetting rules p key = .error fault) (like : Setting) :
    readLike rules p key like = .error fault := by
  cases like with
  | flag _ => rw [readLike, readFlag, h]; rfl
  | text _ => rw [readLike, readText, h]; rfl
  | int _ _ => rw [readLike, readInt, h]; rfl
  | _ => simp [readLike, h, Except.map]

/-- A key reads as what is said about it. -/
theorem readLike_of_sectionAbout {x : Except SettingFault Setting}
    (h : rules.sectionAbout p key = some x) (like : Setting) :
    readLike rules p key like = x.bind fun v => v.asLike p key like := by
  cases hsection : rules.get? p.key with
  | none =>
    rw [Table.sectionAbout, Table.inside_of_none hsection] at h
    cases h
  | some section_ =>
    cases htable : section_.table? with
    | none =>
      have hread : readSetting rules p key = .error (.sectionNotTable p) := by
        rw [readSetting, hsection, Option.bind_some, htable]
      rw [Table.sectionAbout, Table.inside_of_fault hsection htable, Option.some.injEq] at h
      rw [readLike_of_readSetting_error hread, ← h]
      rfl
    | some entries =>
      obtain rfl := Setting.table?_eq_some_iff.1 htable
      rw [Table.sectionAbout, Table.inside_of_table hsection] at h
      obtain ⟨v, hv, rfl⟩ := Option.map_eq_some_iff.1 h
      have hread : readSetting rules p key = .ok (some v) := by
        rw [readSetting, hsection, Option.bind_some, htable, ← hv]
      rw [readLike_of_readSetting hread]
      rfl

theorem Setting.asLike_ne_rulesNotTable (v like : Setting) :
    v.asLike p key like ≠ .error .rulesNotTable := by
  cases like with
  | flag _ => cases v <;> simp [asLike]
  | text _ => cases v <;> simp [asLike]
  | int _ _ => rw [asLike]; rcases v.number? with _ | _ | n <;> simp
  | _ => simp [asLike]

theorem Table.sectionAbout_ne_rulesNotTable :
    rules.sectionAbout p key ≠ some (.error .rulesNotTable) := by
  rw [Table.sectionAbout, Table.inside]
  split
  · simp
  · split <;> simp

/-- What a tree's word about a key reads as. -/
def Table.reading (t : Table) (p : PassName) (key : Text) (like : Setting) :
    Option (Except SettingFault Setting) :=
  (t.about p key).map fun x => x.bind fun v => v.asLike p key like

namespace Style

/-- The style that a complete tree of settings describes. -/
def ofTree (t : Table) : Except SettingFault Style :=
  match (Table.get? t (bytes "rules")).bind Setting.table? with
  | none => .error .rulesNotTable
  | some rules => ofRules rules

theorem ofSettings_eq (raw : Table) :
    ofSettings raw = ofTree (Table.merge ({} : Style).settings raw) := rfl

/-- Nothing is left out of a tree: it says something about every key of a style. -/
def Told (t : Table) : Prop :=
  ∀ (s : Style) (p : PassName), ∀ e ∈ s.section p, t.about p e.1 ≠ none

/-- A tree that leaves nothing out is at fault altogether, or is read key by key. -/
theorem Told.cases {t : Table} (ht : Told t) :
    (ofTree t = .error .rulesNotTable ∧
      ∀ p key like, t.reading p key like = some (.error .rulesNotTable)) ∨
    ∃ rules : Table, ofTree t = ofRules rules ∧
      ∀ (s : Style) (p : PassName), ∀ e ∈ s.section p, ∀ like,
        t.reading p e.1 like = some (readLike rules p e.1 like) ∧
        readLike rules p e.1 like ≠ .error .rulesNotTable := by
  cases hrules : t.get? (bytes "rules") with
  | none => exact absurd (Table.inside_of_none hrules) (ht {} .indent _ List.mem_cons_self)
  | some v =>
    cases htable : v.table? with
    | none =>
      refine Or.inl ⟨?_, ?_⟩
      · rw [ofTree, hrules, Option.bind_some, htable]
      · intro p key like
        rw [Table.reading, Table.about, Table.inside_of_fault hrules htable]
        rfl
    | some rules =>
      obtain rfl := Setting.table?_eq_some_iff.1 htable
      refine Or.inr ⟨rules, ?_, ?_⟩
      · rw [ofTree, hrules, Option.bind_some, htable]
      · intro s p e he like
        have habout : t.about p e.1 = rules.sectionAbout p e.1 := Table.inside_of_table hrules
        obtain ⟨x, hx⟩ := Option.ne_none_iff_exists'.1 (ht s p e he)
        rw [Table.reading, hx, readLike_of_sectionAbout (habout.symm.trans hx)]
        refine ⟨rfl, ?_⟩
        cases x with
        | ok v => exact Setting.asLike_ne_rulesNotTable v like
        | error fault =>
          rintro ⟨⟩
          exact Table.sectionAbout_ne_rulesNotTable (habout.symm.trans hx)

/-- A tree describes a style when its word about every key reads as the style's own setting. -/
theorem ofTree_eq_ok_iff {t : Table} (ht : Told t) {s : Style} : ofTree t = .ok s ↔
    1 ≤ s.indent.size ∧ ∀ p, ∀ e ∈ s.section p, t.reading p e.1 e.2 = some (.ok e.2) := by
  rcases ht.cases with ⟨hfault, hall⟩ | ⟨rules, hrules, hall⟩
  · rw [hfault]
    refine ⟨nofun, fun h => ?_⟩
    have := h.2 .indent _ List.mem_cons_self
    rw [hall] at this
    cases this
  · rw [hrules, ofRules_eq_ok_iff]
    refine and_congr_right fun _ => forall_congr' fun p => forall₂_congr fun e he => ?_
    rw [(hall s p e he e.2).1, Option.some.injEq]

/-- Two trees that read the same describe the same style or have the same fault. -/
theorem ofTree_congr {t t' : Table} (ht : Told t) (ht' : Told t') (s : Style)
    (h : ∀ p, ∀ e ∈ s.section p, t.reading p e.1 e.2 = t'.reading p e.1 e.2) :
    ofTree t = ofTree t' := by
  have hfirst := h .indent _ List.mem_cons_self
  rcases ht.cases with ⟨hfault, hall⟩ | ⟨rules, hrules, hall⟩
  · rcases ht'.cases with ⟨hfault', -⟩ | ⟨rules', -, hall'⟩
    · rw [hfault, hfault']
    · obtain ⟨hread, hne⟩ := hall' s .indent _ List.mem_cons_self (.flag s.indent.enabled)
      rw [hall, hread, Option.some.injEq] at hfirst
      exact absurd hfirst.symm hne
  · rcases ht'.cases with ⟨-, hall'⟩ | ⟨rules', hrules', hall'⟩
    · obtain ⟨hread, hne⟩ := hall s .indent _ List.mem_cons_self (.flag s.indent.enabled)
      rw [hall', hread, Option.some.injEq] at hfirst
      exact absurd hfirst hne
    · rw [hrules, hrules']
      refine ofRules_congr s fun p e he => ?_
      have heq := h p e he
      rwa [(hall s p e he e.2).1, (hall' s p e he e.2).1, Option.some.injEq] at heq

end Style

end GrammarLayout
