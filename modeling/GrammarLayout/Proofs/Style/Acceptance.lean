import GrammarLayout.Proofs.Style.Override
import Mathlib.Algebra.Order.Field.Rat
import Mathlib.Tactic.Linarith
import Mathlib.Tactic.Ring

/-!
# Which settings are accepted

A tree of settings is laid over the defaults and read key by key, so a key that
it does not mention reads as its default, whatever else the tree holds.  The
first key that does not read well is reported; only when all of them do, the
values themselves are looked at.

What is proved here:

* `Double.whole?_eq_some_iff` — the whole number that a double stands for;
* `Setting.asLike_eq_ok_iff` — the values of a setting's type;
* `Style.ofRules_eq_error_iff` — the fault that is reported is the first one, in
  the order in which the keys are read;
* `Table.acceptable_iff` — a tree without faults, said of its tables and values;
* `Style.ofSettings_leaf_by_leaf` — the whole for trees laid over the defaults.
-/

namespace GrammarLayout

open Text

/-! ## Whole numbers -/

namespace Double

/-- The number that a double stands for, if it stands for one. -/
def value? : Double → Option ℚ
  | finite negative m e => some ((if negative then -1 else 1) * m * (2 : ℚ) ^ e)
  | _ => none

/-- A fraction is whole exactly when its denominator divides its numerator. -/
theorem div_eq_intCast_iff {m d : Nat} (hd : 0 < d) (k : Int) :
    (m : ℚ) / d = k ↔ m % d = 0 ∧ ((m / d : Nat) : Int) = k := by
  have hd' : (d : ℚ) ≠ 0 := by exact_mod_cast hd.ne'
  have hcast : (m : ℚ) / d = k ↔ (m : Int) = k * d := by
    rw [div_eq_iff hd']
    exact_mod_cast Iff.rfl
  rw [hcast]
  constructor
  · intro h
    have hdvd : d ∣ m := by
      rw [← Int.natCast_dvd_natCast, h]
      exact Int.dvd_mul_left k d
    obtain ⟨q, rfl⟩ := hdvd
    refine ⟨Nat.mul_mod_right d q, ?_⟩
    rw [Nat.mul_div_cancel_left q hd]
    have hd'' : (d : Int) ≠ 0 := by exact_mod_cast hd.ne'
    apply mul_right_cancel₀ hd''
    rw [← h]
    push_cast
    ring
  · rintro ⟨hmod, rfl⟩
    exact_mod_cast (Nat.div_mul_cancel (Nat.dvd_of_mod_eq_zero hmod)).symm

/-- The two parts that a double is scaled to have its size as their quotient. -/
theorem scale_div (m : Nat) (e : Int) :
    0 < (scale m 1 e).2 ∧ ((scale m 1 e).1 : ℚ) / (scale m 1 e).2 = m * (2 : ℚ) ^ e := by
  unfold scale
  split
  · rename_i he
    obtain ⟨k, rfl⟩ := Int.eq_ofNat_of_zero_le he
    simp
  · rename_i he
    obtain ⟨k, hk⟩ := Int.eq_ofNat_of_zero_le (show 0 ≤ -e by omega)
    obtain rfl : e = -(k : Int) := by omega
    simp [div_eq_mul_inv]

theorem whole?_eq_some_iff {x : Double} {n : Int} : x.whole? = some n ↔ x.value? = some (n : ℚ) := by
  cases x with
  | finite negative m e =>
    obtain ⟨hpos, hsize⟩ := scale_div m e
    have hneg : ∀ q : ℚ, (-1) * q = n ↔ q = ((-n : Int) : ℚ) := by
      intro q
      push_cast
      constructor <;> intro h <;> linarith
    rw [whole?, value?, Option.some.injEq, mul_assoc, ← hsize]
    generalize scale m 1 e = parts at hpos
    cases negative with
    | true =>
      rw [if_pos rfl, hneg, div_eq_intCast_iff hpos]
      simp only [if_true]
      split
      · rename_i hmod
        rw [Option.some.injEq, neg_eq_iff_eq_neg]
        exact (and_iff_right hmod).symm
      · rename_i hmod
        simp [hmod]
    | false =>
      rw [if_neg Bool.false_ne_true, one_mul, div_eq_intCast_iff hpos]
      simp only [Bool.false_eq_true, if_false]
      split
      · rename_i hmod
        rw [Option.some.injEq]
        exact (and_iff_right hmod).symm
      · rename_i hmod
        simp [hmod]
  | infinite negative => simp [whole?, value?]
  | nan => simp [whole?, value?]

end Double

/-! ## The values of a setting's type -/

namespace Setting

/-- What a value stands for in a style: truth values and texts for themselves, and for a number
whichever value denotes it, as long as it fits in 64 bits. -/
inductive Denotes : Setting → Setting → Prop where
  /-- A truth value. -/
  | flag (b : Bool) : Denotes (.flag b) (.flag b)
  /-- A text. -/
  | text (t : Text) : Denotes (.text t) (.text t)
  /-- A whole number of any width. -/
  | int (width : IntWidth) {n : Int} (hn : fitsWord n = true) :
      Denotes (.int width n) (.int .native n)
  /-- A floating-point number without a fraction. -/
  | float {x : Double} {n : Int} (hx : x.value? = some (n : ℚ)) (hn : fitsWord n = true) :
      Denotes (.float x) (.int .native n)

/-- Two settings of a style have the same type. -/
inductive SameType : Setting → Setting → Prop where
  /-- Truth values. -/
  | flag (b c : Bool) : SameType (.flag b) (.flag c)
  /-- Texts. -/
  | text (t u : Text) : SameType (.text t) (.text u)
  /-- Numbers. -/
  | int (n k : Int) : SameType (.int .native n) (.int .native k)

theorem number?_eq_some_iff {v : Setting} {n : Int} :
    v.number? = some (some n) ↔ v.Denotes (.int .native n) := by
  constructor
  · intro h
    have hfits := Style.fitsWord_of_number? h
    cases v with
    | int width k =>
      rw [number?, Option.some.injEq] at h
      split at h
      · rw [← Option.some.inj h] at hfits ⊢
        exact .int width hfits
      · cases h
    | float x =>
      rw [number?, Option.some.injEq, Option.filter_eq_some_iff] at h
      exact .float (Double.whole?_eq_some_iff.1 h.1) hfits
    | _ => cases h
  · intro h
    cases h with
    | int width hn => rw [number?, if_pos hn]
    | float hx hn => rw [number?, Double.whole?_eq_some_iff.2 hx, Option.filter_some, if_pos hn]

theorem sameType_of_mem_section {s : Style} {p : PassName} {e : Text × Setting}
    (he : e ∈ s.section p) : e.2.SameType e.2 :=
  Style.forall_section (P := fun v => v.SameType v) (fun b => .flag b b) (.int _ _) (.text _ _)
    (.text _ _) he

variable {p : PassName} {key : Text} {v w like : Setting}

/-- A value reads as the type of a setting when it stands for one of that type. -/
theorem asLike_eq_ok_iff (hlike : like.SameType like) :
    v.asLike p key like = .ok w ↔ v.Denotes w ∧ w.SameType like := by
  cases hlike with
  | flag b _ =>
    constructor
    · intro h
      cases v with
      | flag c => exact Except.ok.inj h ▸ ⟨.flag c, .flag c b⟩
      | _ => cases h
    · rintro ⟨hdenotes, ⟨⟩⟩
      cases hdenotes
      rfl
  | text t _ =>
    constructor
    · intro h
      cases v with
      | text u => exact Except.ok.inj h ▸ ⟨.text u, .text u t⟩
      | _ => cases h
    · rintro ⟨hdenotes, ⟨⟩⟩
      cases hdenotes
      rfl
  | int n _ =>
    constructor
    · intro h
      rw [asLike] at h
      split at h
      · cases h
      · cases h
      · rename_i k hk
        exact Except.ok.inj h ▸ ⟨number?_eq_some_iff.1 hk, .int k n⟩
    · rintro ⟨hdenotes, htype⟩
      cases htype with
      | int k _ => exact asLike_int (number?_eq_some_iff.2 hdenotes) _ _

theorem asLike_leaf : v.leaf.asLike p key like = v.asLike p key like := by
  cases v <;> cases like <;> rfl

/-- A value stands for one thing at most. -/
theorem Denotes.unique {u : Setting} (hv : v.Denotes w) (hu : v.Denotes u) : w = u := by
  cases hv with
  | flag b => cases hu; rfl
  | text t => cases hu; rfl
  | int width hn => cases hu; rfl
  | float hx hn =>
    cases hu with
    | float hx' hn' =>
      rw [hx, Option.some.injEq, Int.cast_inj] at hx'
      rw [hx']

end Setting

/-! ## The first offence -/

namespace Style

/-- The keys of a style in the order in which they are read, each with its default. -/
def keys : List (PassName × Text × Setting) :=
  PassName.all.flatMap fun p => (({} : Style).section p).map (Prod.mk p)

/-- What is wrong with a value of the right type. -/
def illegal? : PassName → Setting → Option SettingFault
  | .indent, .int _ n => if n < 1 then some (.sizeNotPositive n) else none
  | .indent, .text t => if IndentKind.ofKey? t = none then some (.unknownIndentKind t) else none
  | .braceNewline, .text t =>
      if BracePlacement.ofKey? t = none then some (.unknownPlacement t) else none
  | _, _ => none

/-- What reads of each key, where there is something to read. -/
abbrev Reader := PassName → Text → Setting → Option (Except SettingFault Setting)

/-- All that is wrong with what is read, in the order of the keys: first the keys that cannot be
read, then the values that are not allowed. -/
def offences (read : Reader) : List SettingFault :=
  keys.filterMap (fun k => (read k.1 k.2.1 k.2.2).bind error?) ++
    keys.filterMap fun k => ((read k.1 k.2.1 k.2.2).bind Except.toOption).bind (illegal? k.1)

theorem mem_keys {p : PassName} {e : Text × Setting} :
    (p, e) ∈ keys ↔ e ∈ ({} : Style).section p := by
  have hp : p ∈ PassName.all := by cases p <;> decide
  simp [keys, hp]

theorem offences_congr {read read' : Reader}
    (herror : ∀ p, ∀ e ∈ ({} : Style).section p,
      (read p e.1 e.2).bind error? = (read' p e.1 e.2).bind error?)
    (hillegal : ∀ p, ∀ e ∈ ({} : Style).section p,
      ((read p e.1 e.2).bind Except.toOption).bind (illegal? p)
        = ((read' p e.1 e.2).bind Except.toOption).bind (illegal? p)) :
    offences read = offences read' := by
  refine congrArg₂ (· ++ ·) (List.filterMap_congr ?_) (List.filterMap_congr ?_)
  · rintro ⟨p, e⟩ hk
    exact herror p e (mem_keys.1 hk)
  · rintro ⟨p, e⟩ hk
    exact hillegal p e (mem_keys.1 hk)

/-- What is read of the settings of the passes. -/
def readRules (rules : Table) : Reader := fun p key like => some (readLike rules p key like)

theorem head?_filterMap_cons {α β : Type} (f : α → Option β) (a : α) (l : List α) :
    ((a :: l).filterMap f).head? = (f a).or (l.filterMap f).head? := by
  cases h : f a <;> simp [h]

/-- The first key that cannot be read decides. -/
theorem ofRules_of_first {rules : Table} {fault : SettingFault}
    (h : (keys.filterMap fun k => error? (readLike rules k.1 k.2.1 k.2.2)).head? = some fault) :
    ofRules rules = .error fault := by
  simp only [keys, PassName.all, Style.section, List.flatMap_cons, List.flatMap_nil, List.map_cons,
    List.map_nil, List.cons_append, List.nil_append, head?_filterMap_cons, readLike,
    error?_map] at h
  unfold ofRules
  iterate 17 refine bind_eq_error_of_first h fun _ h => ?_
  cases h

theorem error_eq_iff_some_eq {α ε : Type} {e e' : ε} :
    (Except.error e : Except ε α) = .error e' ↔ some e = some e' := by
  simp

/-- Where every key can be read, the values decide. -/
theorem ofRules_of_readable {rules : Table}
    (h : ∀ p, ∀ e ∈ ({} : Style).section p, error? (readLike rules p e.1 e.2) = none)
    {fault : SettingFault} :
    ofRules rules = .error fault ↔
      (keys.filterMap fun k =>
        (readLike rules k.1 k.2.1 k.2.2).toOption.bind (illegal? k.1)).head? = some fault := by
  have h1 := h .indent
  have h2 := h .braceNewline
  have h3 := h .spacing
  have h4 := h .alignment
  have h5 := h .emptyLine
  clear h
  simp only [Style.section, List.forall_mem_cons, readLike, error?_map] at h1 h2 h3 h4 h5
  simp only [error?_eq_none_iff] at h1 h2 h3 h4 h5
  obtain ⟨⟨_, a1⟩, ⟨size, a2⟩, ⟨kindName, a3⟩, -⟩ := h1
  obtain ⟨⟨_, b1⟩, ⟨placementName, b2⟩, ⟨_, b3⟩, -⟩ := h2
  obtain ⟨⟨_, c1⟩, ⟨_, c2⟩, ⟨_, c3⟩, ⟨_, c4⟩, -⟩ := h3
  obtain ⟨⟨_, d1⟩, ⟨_, d2⟩, ⟨_, d3⟩, -⟩ := h4
  obtain ⟨⟨_, e1⟩, ⟨_, e2⟩, ⟨_, e3⟩, ⟨_, e4⟩, -⟩ := h5
  simp only [ofRules, keys, PassName.all, Style.section, List.flatMap_cons, List.flatMap_nil,
    List.map_cons, List.map_nil, List.cons_append, List.nil_append, head?_filterMap_cons,
    readLike, a1, a2, a3, b1, b2, b3, c1, c2, c3, c4, d1, d2, d3, e1, e2, e3, e4, bind,
    Except.bind, pure, Except.pure, Except.map, Except.toOption, Option.bind_some, illegal?,
    Option.none_or, List.filterMap_nil, List.head?_nil, Option.or_none]
  by_cases hsize : size < 1
  · rw [if_pos hsize, if_pos hsize, Option.some_or]
    exact error_eq_iff_some_eq
  · rw [if_neg hsize, if_neg hsize, Option.none_or]
    cases IndentKind.ofKey? kindName with
    | none => exact error_eq_iff_some_eq
    | some kind =>
      cases BracePlacement.ofKey? placementName with
      | none => exact error_eq_iff_some_eq
      | some placement => simp

/-- The fault that is reported is the first one. -/
theorem ofRules_eq_error_iff {rules : Table} {fault : SettingFault} :
    ofRules rules = .error fault ↔ (offences (readRules rules)).head? = some fault := by
  have hoffences : offences (readRules rules) =
      (keys.filterMap fun k => error? (readLike rules k.1 k.2.1 k.2.2)) ++
        keys.filterMap fun k =>
          (readLike rules k.1 k.2.1 k.2.2).toOption.bind (illegal? k.1) := rfl
  rw [hoffences, List.head?_append]
  cases hfirst : (keys.filterMap fun k => error? (readLike rules k.1 k.2.1 k.2.2)).head? with
  | some first =>
    rw [ofRules_of_first hfirst, Option.some_or]
    exact error_eq_iff_some_eq
  | none =>
    rw [Option.none_or]
    refine ofRules_of_readable fun p e he => ?_
    exact List.filterMap_eq_nil_iff.1 (List.head?_eq_none_iff.1 hfirst) (p, e) (mem_keys.2 he)

theorem ofTree_eq_error_iff {t : Table} (ht : Told t) {fault : SettingFault} :
    ofTree t = .error fault ↔ (offences t.reading).head? = some fault := by
  rcases ht.cases with ⟨hfault, hall⟩ | ⟨rules, hrules, hall⟩
  · have hhead : (offences t.reading).head? = some .rulesNotTable := by
      simp [offences, keys, PassName.all, Style.section, hall, error?]
    rw [hfault, hhead]
    exact error_eq_iff_some_eq
  · have hread : offences t.reading = offences (readRules rules) := by
      refine offences_congr ?_ ?_ <;>
      · intro p e he
        rw [(hall {} p e he e.2).1]
        rfl
    rw [hrules, hread, ofRules_eq_error_iff]

theorem valid_default : ({} : Style).Valid := ⟨by decide, by decide⟩

theorem illegal?_default {p : PassName} {e : Text × Setting} (he : e ∈ ({} : Style).section p) :
    illegal? p e.2 = none := by
  have hall : ∀ e ∈ ({} : Style).section p, illegal? p e.2 = none := by
    cases p <;> decide
  exact hall e he

/-- What the defaults add gives no offence. -/
theorem ofSettings_eq_error_iff {raw : Table} (h : raw.Distinct) {fault : SettingFault} :
    ofSettings raw = .error fault ↔ (offences raw.reading).head? = some fault := by
  have hread : ∀ p, ∀ e ∈ ({} : Style).section p,
      (Table.merge ({} : Style).settings raw).reading p e.1 e.2
        = (raw.reading p e.1 e.2).or (some (.ok e.2)) := by
    intro p e he
    rw [Table.reading, Table.about_merge h (nested_settings _), about_settings_of_mem he,
      Table.reading]
    cases raw.about p e.1 with
    | some x => rfl
    | none => exact congrArg some (asLike_self valid_default he)
  rw [ofSettings_eq, ofTree_eq_error_iff (told_merge _ h)]
  refine Eq.to_iff (congrArg (List.head? · = some fault) (offences_congr ?_ ?_))
  · intro p e he
    rw [hread p e he]
    cases raw.reading p e.1 e.2 <;> rfl
  · intro p e he
    rw [hread p e he]
    cases raw.reading p e.1 e.2 with
    | some x => rfl
    | none => exact illegal?_default he

/-- Nothing is wrong when every key that is there can be read, and as a value that is allowed. -/
theorem offences_eq_nil_iff {read : Reader} : offences read = [] ↔
    ∀ p, ∀ e ∈ ({} : Style).section p, ∀ x, read p e.1 e.2 = some x →
      ∃ w, x = .ok w ∧ illegal? p w = none := by
  rw [offences, List.append_eq_nil_iff, List.filterMap_eq_nil_iff, List.filterMap_eq_nil_iff]
  constructor
  · rintro ⟨herror, hillegal⟩ p e he x hx
    have hok := herror (p, e) (mem_keys.2 he)
    rw [hx, Option.bind_some] at hok
    obtain ⟨w, rfl⟩ := error?_eq_none_iff.1 hok
    have hlegal := hillegal (p, e) (mem_keys.2 he)
    rw [hx] at hlegal
    exact ⟨w, rfl, hlegal⟩
  · intro h
    constructor <;>
    · rintro ⟨p, e⟩ hk
      cases hx : read p e.1 e.2 with
      | none => rfl
      | some x =>
        obtain ⟨w, rfl, hw⟩ := h p e (mem_keys.1 hk) x hx
        first | rfl | exact hw

end Style

/-! ## Trees without offences -/

namespace Table

/-- The table of a name, if there is one. -/
def sub? (t : Table) (name : Text) : Option Table := (t.get? name).bind Setting.table?

/-- The value that a tree gives for a key of a pass. -/
def given? (raw : Table) (p : PassName) (key : Text) : Option Setting :=
  ((raw.sub? (bytes "rules")).bind (sub? · p.key)).bind (get? · key)

/-- The passes are configured by a table, and so is each of them, wherever they are configured. -/
structure Tabled (raw : Table) : Prop where
  /-- The table of the passes. -/
  rules : ∀ v, raw.get? (bytes "rules") = some v → ∃ rules, v = .table rules
  /-- The tables in it. -/
  sections : ∀ rules : Table, raw.get? (bytes "rules") = some (.table rules) →
    ∀ p v, rules.get? (PassName.key p) = some v → ∃ entries, v = .table entries

/-- A tree that describes a style: tables where tables belong, values of the right types, and
values that are allowed.  Nothing is asked of what has no meaning. -/
structure Acceptable (raw : Table) : Prop extends Tabled raw where
  /-- Values stand for settings of the type of the default. -/
  types : ∀ p, ∀ e ∈ ({} : Style).section p, ∀ v, raw.given? p e.1 = some v →
    ∃ w, v.Denotes w ∧ w.SameType e.2
  /-- The step is positive. -/
  size : ∀ v n, raw.given? .indent (bytes "size") = some v → v.Denotes (.int .native n) → 1 ≤ n
  /-- The kind of indentation is known. -/
  kind : ∀ t, raw.given? .indent (bytes "style") = some (.text t) →
    t = bytes "spaces" ∨ t = bytes "tabs"
  /-- The placement of braces is known. -/
  placement : ∀ t, raw.given? .braceNewline (bytes "style") = some (.text t) →
    t = bytes "same_line" ∨ t = bytes "new_line"

variable {raw : Table}

/-- Where tables stand where they belong, what is said about a key is the value given. -/
theorem Tabled.about (h : raw.Tabled) (p : PassName) (key : Text) :
    raw.about p key = (raw.given? p key).map fun v => .ok v.leaf := by
  cases hget : raw.get? (bytes "rules") with
  | none =>
    rw [Table.about, inside_of_none hget, given?, sub?, hget]
    rfl
  | some v =>
    obtain ⟨rules, rfl⟩ := h.rules v hget
    rw [Table.about, inside_of_table hget, given?, sub?, hget]
    show _ = Option.map _ ((sub? rules p.key).bind _)
    cases hsection : Table.get? rules p.key with
    | none =>
      rw [sectionAbout, inside_of_none hsection, sub?, hsection]
      rfl
    | some v =>
      obtain ⟨entries, rfl⟩ := h.sections rules hget p v hsection
      rw [sectionAbout, inside_of_table hsection, sub?, hsection]
      rfl

theorem Tabled.reading (h : raw.Tabled) (p : PassName) (key : Text) (like : Setting) :
    raw.reading p key like = (raw.given? p key).map fun v => v.asLike p key like := by
  rw [Table.reading, h.about]
  cases raw.given? p key with
  | none => rfl
  | some v => exact congrArg some Setting.asLike_leaf

/-- What can be read is in tables. -/
theorem tabled_of_readable (h : ∀ p, ∀ e ∈ ({} : Style).section p, ∀ x,
    raw.reading p e.1 e.2 = some x → ∃ w, x = .ok w) : raw.Tabled := by
  have hnot : ∀ p fault, ∀ e ∈ ({} : Style).section p, raw.about p e.1 ≠ some (.error fault) := by
    intro p fault e he habout
    obtain ⟨w, hw⟩ := h p e he (.error fault) (by rw [Table.reading, habout]; rfl)
    cases hw
  constructor
  · intro v hv
    cases htable : v.table? with
    | none => exact absurd (inside_of_fault hv htable) (hnot .indent _ _ List.mem_cons_self)
    | some rules => exact ⟨rules, Setting.table?_eq_some_iff.1 htable⟩
  · intro rules hrules p v hv
    cases htable : v.table? with
    | none =>
      obtain ⟨e, he⟩ : ∃ e, e ∈ ({} : Style).section p := by
        cases p <;> exact ⟨_, List.mem_cons_self⟩
      exact absurd ((inside_of_table hrules).trans (inside_of_fault hv htable)) (hnot p _ e he)
    | some entries => exact ⟨entries, Setting.table?_eq_some_iff.1 htable⟩

end Table

namespace Style

theorem ofKey?_kind_eq_none_iff {t : Text} :
    IndentKind.ofKey? t = none ↔ ¬ (t = bytes "spaces" ∨ t = bytes "tabs") := by
  rw [← not_iff_not, not_not]
  constructor
  · intro h
    obtain ⟨kind, hkind⟩ := Option.ne_none_iff_exists'.1 h
    rw [← IndentKind.key_of_ofKey? hkind]
    cases kind with
    | spaces => exact .inl rfl
    | tabs => exact .inr rfl
  · rintro (rfl | rfl)
    · exact (IndentKind.ofKey?_key .spaces).trans_ne nofun
    · exact (IndentKind.ofKey?_key .tabs).trans_ne nofun

theorem ofKey?_placement_eq_none_iff {t : Text} :
    BracePlacement.ofKey? t = none ↔ ¬ (t = bytes "same_line" ∨ t = bytes "new_line") := by
  rw [← not_iff_not, not_not]
  constructor
  · intro h
    obtain ⟨placement, hplacement⟩ := Option.ne_none_iff_exists'.1 h
    rw [← BracePlacement.key_of_ofKey? hplacement]
    cases placement with
    | sameLine => exact .inl rfl
    | newLine => exact .inr rfl
  · rintro (rfl | rfl)
    · exact (BracePlacement.ofKey?_key .sameLine).trans_ne nofun
    · exact (BracePlacement.ofKey?_key .newLine).trans_ne nofun

/-- All settings but three are truth values. -/
theorem default_cases {p : PassName} {e : Text × Setting} (he : e ∈ ({} : Style).section p) :
    (∃ b, e.2 = .flag b) ∨ (p = .indent ∧ e = (bytes "size", .int .native 2)) ∨
      (p = .indent ∧ e = (bytes "style", .text (bytes "spaces"))) ∨
      (p = .braceNewline ∧ e = (bytes "style", .text (bytes "same_line"))) := by
  have hall : ∀ e ∈ ({} : Style).section p, (∃ b, e.2 = .flag b) ∨
      (p = .indent ∧ e = (bytes "size", .int .native 2)) ∨
      (p = .indent ∧ e = (bytes "style", .text (bytes "spaces"))) ∨
      (p = .braceNewline ∧ e = (bytes "style", .text (bytes "same_line"))) := by
    cases p <;>
      simp only [Style.section, List.forall_mem_cons, Setting.flag.injEq, exists_eq', true_or,
        true_and, List.not_mem_nil, false_imp_iff, implies_true, and_true]
    · exact ⟨.inr (.inl rfl), .inr (.inr (.inl rfl))⟩
    · exact .inr (.inr (.inr rfl))
  exact hall e he

end Style

namespace Table

variable {raw : Table}

theorem offences_eq_nil_iff : Style.offences raw.reading = [] ↔ raw.Tabled ∧
    ∀ p, ∀ e ∈ ({} : Style).section p, ∀ v, raw.given? p e.1 = some v →
      ∃ w, (v.Denotes w ∧ w.SameType e.2) ∧ Style.illegal? p w = none := by
  rw [Style.offences_eq_nil_iff]
  constructor
  · intro h
    have htabled : raw.Tabled := by
      refine tabled_of_readable fun p e he x hx => ?_
      obtain ⟨w, hw, -⟩ := h p e he x hx
      exact ⟨w, hw⟩
    refine ⟨htabled, fun p e he v hv => ?_⟩
    obtain ⟨w, hw, hlegal⟩ := h p e he _ (by rw [htabled.reading, hv, Option.map_some])
    exact ⟨w, (Setting.asLike_eq_ok_iff (Setting.sameType_of_mem_section he)).1 hw, hlegal⟩
  · rintro ⟨htabled, h⟩ p e he x hx
    rw [htabled.reading] at hx
    obtain ⟨v, hv, rfl⟩ := Option.map_eq_some_iff.1 hx
    obtain ⟨w, hw, hlegal⟩ := h p e he v hv
    exact ⟨w, (Setting.asLike_eq_ok_iff (Setting.sameType_of_mem_section he)).2 hw, hlegal⟩

/-- The trees that are acceptable are those without offences. -/
theorem acceptable_iff : raw.Acceptable ↔ Style.offences raw.reading = [] := by
  rw [offences_eq_nil_iff]
  constructor
  · intro h
    refine ⟨h.toTabled, fun p e he v hv => ?_⟩
    obtain ⟨w, hw, htype⟩ := h.types p e he v hv
    refine ⟨w, ⟨hw, htype⟩, ?_⟩
    obtain ⟨b, hb⟩ | ⟨rfl, rfl⟩ | ⟨rfl, rfl⟩ | ⟨rfl, rfl⟩ := Style.default_cases he
    · rw [hb] at htype
      cases htype
      cases p <;> rfl
    · cases htype with
      | int n _ => exact if_neg (not_lt.2 (h.size v n hv hw))
    · cases htype with
      | text t _ =>
        cases hw
        exact if_neg fun hnone => Style.ofKey?_kind_eq_none_iff.1 hnone (h.kind t hv)
    · cases htype with
      | text t _ =>
        cases hw
        exact if_neg fun hnone => Style.ofKey?_placement_eq_none_iff.1 hnone (h.placement t hv)
  · rintro ⟨htabled, h⟩
    refine ⟨htabled, ?_, ?_, ?_, ?_⟩
    · intro p e he v hv
      obtain ⟨w, hw, -⟩ := h p e he v hv
      exact ⟨w, hw⟩
    · intro v n hv hn
      obtain ⟨w, ⟨hw, -⟩, hlegal⟩ :=
        h .indent _ (List.mem_cons_of_mem _ List.mem_cons_self) v hv
      rw [hw.unique hn] at hlegal
      by_contra hlt
      rw [Style.illegal?, if_pos (not_le.1 hlt)] at hlegal
      cases hlegal
    · intro t ht
      obtain ⟨w, ⟨hw, -⟩, hlegal⟩ :=
        h .indent _ (List.mem_cons_of_mem _ (List.mem_cons_of_mem _ List.mem_cons_self)) _ ht
      rw [hw.unique (.text t)] at hlegal
      by_contra hunknown
      rw [Style.illegal?, if_pos (Style.ofKey?_kind_eq_none_iff.2 hunknown)] at hlegal
      cases hlegal
    · intro t ht
      obtain ⟨w, ⟨hw, -⟩, hlegal⟩ :=
        h .braceNewline _ (List.mem_cons_of_mem _ List.mem_cons_self) _ ht
      rw [hw.unique (.text t)] at hlegal
      by_contra hunknown
      rw [Style.illegal?, if_pos (Style.ofKey?_placement_eq_none_iff.2 hunknown)] at hlegal
      cases hlegal

end Table

/-- Does a fault say that a value has the wrong type, rather than that it is not allowed? -/
def SettingFault.isMismatch : SettingFault → Bool
  | .rulesNotTable | .sectionNotTable _ | .wrongType _ _ _ _ => true
  | .outOfRange _ _ | .sizeNotPositive _ | .unknownIndentKind _ | .unknownPlacement _ => false

theorem SettingFault.failure_isOf (fault : SettingFault) : fault.failure.isOf .config = true := by
  cases fault <;> rfl

theorem SettingFault.failure_code (fault : SettingFault) :
    fault.failure.code = if fault.isMismatch then .invalidType else .invalidValue := by
  cases fault <;> rfl

namespace Style

/-- On success every setting is the value given for it, and the default where none is given. -/
theorem setting_of_ofSettings {raw : Table} (h : raw.Distinct) (htabled : raw.Tabled) {s : Style}
    (hs : ofSettings raw = .ok s) {p : PassName} {e : Text × Setting} (he : e ∈ s.section p) :
    match raw.given? p e.1 with
    | some v => v.Denotes e.2
    | none => e ∈ ({} : Style).section p := by
  have hread := ((ofTree_eq_ok_iff (told_merge {} h)).1 hs).2 p e he
  have hlike := Setting.sameType_of_mem_section he
  rw [Table.reading, Table.about_merge h (nested_settings _), htabled.about] at hread
  cases hv : raw.given? p e.1 with
  | some v =>
    rw [hv, Option.map_some, Option.some_or, Option.map_some, Option.some.injEq] at hread
    exact ((Setting.asLike_eq_ok_iff hlike).1 (Setting.asLike_leaf.symm.trans hread)).1
  | none =>
    obtain ⟨own, hown, hname⟩ := exists_entry {} he
    rw [hv, Option.map_none, Option.none_or, ← hname, about_settings_of_mem hown,
      Option.map_some, Option.some.injEq] at hread
    -- The default stands for what is read of it, and for itself.
    have hself := (Setting.asLike_eq_ok_iff (Setting.sameType_of_mem_section hown)).1
      (asLike_self valid_default hown)
    have hvalue := ((Setting.asLike_eq_ok_iff hlike).1 hread).1.unique hself.1
    have heq : e = own := Prod.ext hname.symm hvalue
    rw [← heq] at hown
    exact hown

/-- A tree of settings is laid over the defaults leaf by leaf: it is accepted exactly when it is
acceptable, whatever else it holds; a value given is the one in effect, and where none is given the
default is; the fault of a tree that is rejected is the first offence, reported as a failure of the
configuration under the code of its sort. -/
theorem ofSettings_leaf_by_leaf {raw : Table} (h : raw.Distinct) :
    ((∃ s, ofSettings raw = .ok s) ↔ raw.Acceptable) ∧
    (∀ s, ofSettings raw = .ok s → ∀ p, ∀ e ∈ s.section p,
      match raw.given? p e.1 with
      | some v => v.Denotes e.2
      | none => e ∈ ({} : Style).section p) ∧
    ∀ fault, ofSettings raw = .error fault →
      (offences raw.reading).head? = some fault ∧ fault.failure.isOf .config = true ∧
      fault.failure.code.id
        = if fault.isMismatch then bytes "CFG2003" else bytes "CFG2002" := by
  have haccepted : (∃ s, ofSettings raw = .ok s) ↔ raw.Acceptable := by
    rw [← error?_eq_none_iff, Table.acceptable_iff, ← List.head?_eq_none_iff,
      Option.eq_none_iff_forall_ne_some, Option.eq_none_iff_forall_ne_some]
    refine forall_congr' fun fault => not_congr ?_
    rw [← ofSettings_eq_error_iff h, error?_eq_some_iff]
  refine ⟨haccepted, ?_, ?_⟩
  · intro s hs p e he
    exact setting_of_ofSettings h (haccepted.1 ⟨s, hs⟩).toTabled hs he
  · intro fault hfault
    refine ⟨(ofSettings_eq_error_iff h).1 hfault, fault.failure_isOf, ?_⟩
    rw [fault.failure_code]
    cases fault.isMismatch <;> rfl

/-- A step of four, written as a floating-point number beside a name that means nothing, is
accepted; a step of two and a half is what is reported, and not the style behind it, which has the
wrong type. -/
theorem ofSettings_of_sizes :
    let sized (x : Double) (key : Text) (v : Setting) : Table :=
      [(bytes "rules", .table [(bytes "indent", .table [(bytes "size", .float x), (key, v)])])]
    let wide := sized (.ofRatio false 4 1) (bytes "colour") .null
    let halves := sized (.ofRatio false 5 2) (bytes "style") (.flag true)
    wide.Distinct ∧ wide.Acceptable ∧ ofSettings wide = .ok { indent := { size := 4 } } ∧
      halves.Distinct ∧ ¬ halves.Acceptable ∧
      (offences halves.reading).head? = some (.outOfRange .indent (bytes "size")) ∧
      (SettingFault.outOfRange .indent (bytes "size")).failure.code.id = bytes "CFG2002" := by
  intro sized wide halves
  have hwide : ofSettings wide = .ok { indent := { size := 4 } } := rfl
  have hhalves : ofSettings halves = .error (.outOfRange .indent (bytes "size")) := rfl
  have hdistinct : wide.Distinct := Table.distinct_singleton (Table.distinct_singleton
    (Table.distinct_of_leaves (by decide) (by simp [Setting.table?])))
  have hdistinct' : halves.Distinct := Table.distinct_singleton (Table.distinct_singleton
    (Table.distinct_of_leaves (by decide) (by simp [Setting.table?])))
  obtain ⟨hiff, -, -⟩ := ofSettings_leaf_by_leaf hdistinct
  obtain ⟨hiff', -, hfault⟩ := ofSettings_leaf_by_leaf hdistinct'
  obtain ⟨hfirst, -, hcode⟩ := hfault _ hhalves
  refine ⟨hdistinct, hiff.1 ⟨_, hwide⟩, hwide, hdistinct', ?_, hfirst, hcode⟩
  intro haccepted
  obtain ⟨s, hs⟩ := hiff'.2 haccepted
  rw [hhalves] at hs
  cases hs

end Style

end GrammarLayout
