import GrammarLayout.Pass.Pipeline
import Mathlib.Data.List.Forall2
import Mathlib.Logic.Relation

/-!
# What the passes do to the entries of a document

A pass goes over the entries of a document in order: lines that are kept stay
as they are, rules are rewritten one by one, and the empty-line pass inserts
blank lines.  The rewrites of rules are listed once; what they all preserve
carries over to every pass and to every sequence of passes.

What is proved here:

* `PassName.run_relaid`, `Document.runPasses_relaid` — passes rewrite rules and
  insert blank lines, and do nothing else;
* `Relaid.forall₂` — apart from what was inserted, the entries correspond one to
  one.
-/

namespace GrammarLayout

/-- One way in which a pass changes a rule. -/
inductive Rule.Rewrite (style : Style) : Rule → Rule → Prop where
  /-- The rule is laid out with one indentation step. -/
  | indented (r : Rule) : Rewrite style r (r.indentBy style.indent.unit)
  /-- Its opening braces are placed. -/
  | bracesPlaced (r : Rule) : Rewrite style r (r.placeBraces style.brace)
  /-- Its signs are spaced. -/
  | signsSpaced (r : Rule) : Rewrite style r (r.spaceSigns style.spacing)
  /-- Its name is padded. -/
  | padded (r : Rule) (n : Nat) : Rewrite style r { r with namePadding := n }
  /-- Its pipes are lined up. -/
  | pipesAligned (r : Rule) : Rewrite style r r.alignPipes
  /-- Its blocks are lined up. -/
  | actionsAligned (r : Rule) : Rewrite style r (r.alignActions style.indent.unit)

/-- Any number of rewrites one after the other. -/
def Rule.Rewrites (style : Style) : Rule → Rule → Prop := Relation.ReflTransGen (Rewrite style)

/-- A kept line is the same, and of two rules `R` holds. -/
inductive Entry.Relaid (R : Rule → Rule → Prop) : Entry → Entry → Prop where
  /-- A line that is kept. -/
  | verbatim (v : Verbatim) : Entry.Relaid R (.verbatim v) (.verbatim v)
  /-- A rule that is rewritten. -/
  | rule {r r' : Rule} (h : R r r') : Entry.Relaid R (.rule r) (.rule r')

/-- The entries on the right are those on the left with rules changed as `R` allows, and with
inserted blank lines between them. -/
inductive Relaid (R : Rule → Rule → Prop) : List Entry → List Entry → Prop where
  /-- No entry. -/
  | nil : Relaid R [] []
  /-- An entry that is kept or rewritten. -/
  | cons {e e' : Entry} {es es' : List Entry} (h : e.Relaid R e') (hs : Relaid R es es') :
      Relaid R (e :: es) (e' :: es')
  /-- A blank line is inserted. -/
  | blank {es es' : List Entry} (hs : Relaid R es es') : Relaid R es (.verbatim .blank :: es')

/-- Did a pass insert the entry? -/
def Entry.inserted : Entry → Bool
  | .verbatim v => v.synthetic
  | .rule _ => false

namespace Relaid

variable {R : Rule → Rule → Prop} {es es' es'' : List Entry}

theorem map_mapRule {f : Rule → Rule} (h : ∀ r, R r (f r)) (es : List Entry) :
    Relaid R es (es.map (Entry.mapRule f)) := by
  induction es with
  | nil => exact .nil
  | cons e es ih =>
    cases e with
    | verbatim v => exact .cons (.verbatim v) ih
    | rule r => exact .cons (.rule (h r)) ih

theorem refl (h : ∀ r, R r r) (es : List Entry) : Relaid R es es := by
  have hmap := map_mapRule h es
  have hid : Entry.mapRule (fun r => r) = id := by
    funext e
    cases e <;> rfl
  rwa [hid, List.map_id] at hmap

/-- Entries that correspond one by one are those of a document that nothing was inserted into. -/
theorem of_forall₂ (h : List.Forall₂ (Entry.Relaid R) es es') : Relaid R es es' := by
  induction h with
  | nil => exact .nil
  | cons he _ ih => exact .cons he ih

theorem trans (hR : ∀ {r r' r''}, R r r' → R r' r'' → R r r'') (h : Relaid R es es')
    (h' : Relaid R es' es'') : Relaid R es es'' := by
  induction h' generalizing es with
  | nil => exact h
  | blank _ ih => exact .blank (ih h)
  | @cons e e' _ _ he _ ih =>
    cases h with
    | blank h =>
      -- The inserted line is a kept one for the second change.
      cases he
      exact .blank (ih h)
    | cons he₀ h =>
      refine .cons ?_ (ih h)
      cases he₀ with
      | verbatim v =>
        cases he
        exact .verbatim v
      | rule hr₀ =>
        cases he with
        | rule hr => exact .rule (hR hr₀ hr)

theorem mono {Q : Rule → Rule → Prop} (hR : ∀ {r r'}, R r r' → Q r r') (h : Relaid R es es') :
    Relaid Q es es' := by
  induction h with
  | nil => exact .nil
  | blank _ ih => exact .blank ih
  | cons he _ ih =>
    refine .cons ?_ ih
    cases he with
    | verbatim v => exact .verbatim v
    | rule hr => exact .rule (hR hr)

/-- What holds of all entries on the left and of blank lines, and is kept by `R`, holds of all
entries on the right. -/
theorem forall_entries {P : Entry → Prop} (hR : ∀ {r r'}, R r r' → P (.rule r) → P (.rule r'))
    (hblank : P (.verbatim .blank)) (h : Relaid R es es') (hes : ∀ e ∈ es, P e) :
    ∀ e ∈ es', P e := by
  induction h with
  | nil => exact hes
  | blank _ ih => exact List.forall_mem_cons.2 ⟨hblank, ih hes⟩
  | cons he _ ih =>
    obtain ⟨hfirst, hrest⟩ := List.forall_mem_cons.1 hes
    refine List.forall_mem_cons.2 ⟨?_, ih hrest⟩
    cases he with
    | verbatim v => exact hfirst
    | rule hr => exact hR hr hfirst

/-- What holds of all rules on the left and is kept by `R` holds on the right. -/
theorem forall_rules {P : Rule → Prop} (hR : ∀ {r r'}, R r r' → P r → P r')
    (h : Relaid R es es') (hes : ∀ r, .rule r ∈ es → P r) : ∀ r, .rule r ∈ es' → P r := by
  have hall : ∀ e ∈ es', ∀ r, e = .rule r → P r := by
    refine h.forall_entries (fun hr hold r heq => ?_) (fun r heq => ?_) fun e he r heq => ?_
    · rw [← Entry.rule.inj heq]
      exact hR hr (hold _ rfl)
    · exact absurd heq (by simp)
    · exact hes r (heq ▸ he)
  exact fun r hr => hall _ hr r rfl

/-- No rule is lost. -/
theorem exists_rule (h : Relaid R es es') {r : Rule} (hr : .rule r ∈ es) :
    ∃ r', .rule r' ∈ es' ∧ R r r' := by
  induction h with
  | nil => simp at hr
  | blank _ ih =>
    obtain ⟨r', hr', hR⟩ := ih hr
    exact ⟨r', List.mem_cons_of_mem _ hr', hR⟩
  | cons he _ ih =>
    rcases List.mem_cons.1 hr with rfl | hr
    · cases he with
      | rule hR => exact ⟨_, List.mem_cons_self, hR⟩
    · obtain ⟨r', hr', hR⟩ := ih hr
      exact ⟨r', List.mem_cons_of_mem _ hr', hR⟩

/-- Apart from what was inserted, the entries correspond one to one. -/
theorem forall₂ {Q : Rule → Rule → Prop} (hR : ∀ {r r'}, .rule r ∈ es → R r r' → Q r r')
    (h : Relaid R es es') (hes : ∀ e ∈ es, e.inserted = false) :
    List.Forall₂ (Entry.Relaid Q) es (es'.filter fun e => !e.inserted) := by
  induction h with
  | nil => exact .nil
  | blank _ ih =>
    rw [List.filter_cons_of_neg (by simp [Entry.inserted, Verbatim.blank])]
    exact ih hR hes
  | @cons e e' es es' he _ ih =>
    have hrest := ih (fun hr => hR (List.mem_cons_of_mem _ hr))
      fun e he => hes e (List.mem_cons_of_mem _ he)
    have hkept : e'.inserted = e.inserted := by cases he <;> rfl
    rw [List.filter_cons_of_pos (by rw [hkept, hes e List.mem_cons_self]; rfl)]
    refine .cons ?_ hrest
    cases he with
    | verbatim v => exact .verbatim v
    | rule hr => exact .rule (hR List.mem_cons_self hr)

end Relaid

/-! ## The passes -/

/-- Lining up colons changes each rule where it stands. -/
theorem alignColonsFrom_forall₂ {R : Rule → Rule → Prop}
    (hR : ∀ (r : Rule) (n : Nat), R r { r with namePadding := n }) (width : Text → Nat)
    (widest : Nat) (es : List Entry) :
    List.Forall₂ (Entry.Relaid R) es (alignColonsFrom width widest es) := by
  induction es generalizing widest with
  | nil => exact .nil
  | cons e es ih =>
    cases e with
    | verbatim v => exact .cons (.verbatim v) (ih _)
    | rule r => exact .cons (.rule (hR r _)) (ih _)

theorem alignColonsFrom_relaid {R : Rule → Rule → Prop}
    (hR : ∀ (r : Rule) (n : Nat), R r { r with namePadding := n }) (width : Text → Nat)
    (widest : Nat) (es : List Entry) : Relaid R es (alignColonsFrom width widest es) :=
  .of_forall₂ (alignColonsFrom_forall₂ hR width widest es)

theorem EmptyLineStyle.separate_relaid {R : Rule → Rule → Prop} (hR : ∀ r, R r r)
    (style : EmptyLineStyle) (previous : Option Entry) (seenRule : Bool) (es : List Entry) :
    Relaid R es (style.separate previous seenRule es) := by
  induction es generalizing previous seenRule with
  | nil => exact .nil
  | cons e es ih =>
    have hrest : Relaid R (e :: es) (e :: style.separate (some e) (seenRule || e.isRule) es) := by
      refine .cons ?_ (ih _ _)
      cases e with
      | verbatim v => exact .verbatim v
      | rule r => exact .rule (hR r)
    rw [separate]
    split
    · exact .blank hrest
    · exact hrest

/-- A pass rewrites rules and inserts blank lines. -/
theorem PassName.run_relaid (style : Style) (p : PassName) (d : Document) :
    Relaid (Rule.Rewrites style) d.entries (p.run style d).entries := by
  have hmap : ∀ (f : Rule → Rule) (d : Document), (∀ r, Rule.Rewrite style r (f r)) →
      Relaid (Rule.Rewrites style) d.entries (d.mapRules f).entries :=
    fun f d hf => Relaid.map_mapRule (fun r => .single (hf r)) d.entries
  have hrefl : ∀ d : Document, Relaid (Rule.Rewrites style) d.entries d.entries :=
    fun d => Relaid.refl (fun _ => .refl) d.entries
  have htrans : ∀ {d d' d'' : Document}, Relaid (Rule.Rewrites style) d.entries d'.entries →
      Relaid (Rule.Rewrites style) d'.entries d''.entries →
      Relaid (Rule.Rewrites style) d.entries d''.entries := fun h h' => Relaid.trans .trans h h'
  cases p with
  | indent => exact hmap _ d .indented
  | braceNewline => exact hmap _ d .bracesPlaced
  | spacing => exact hmap _ d .signsSpaced
  | emptyLine => exact EmptyLineStyle.separate_relaid (fun _ => .refl) _ _ _ _
  | alignment =>
    have hcolons : Relaid (Rule.Rewrites style) d.entries (d.alignColons Text.width).entries :=
      alignColonsFrom_relaid (fun r n => .single (.padded r n)) Text.width 0 d.entries
    have hrules : ∀ aligned : Document,
        aligned = (if style.alignment.alignRules then
          (d.alignColons Text.width).mapRules Rule.alignPipes else d) → Relaid (Rule.Rewrites style) d.entries aligned.entries := by
      rintro aligned rfl
      split
      · exact htrans hcolons (hmap _ _ .pipesAligned)
      · exact hrefl d
    have haligned := hrules _ rfl
    simp only [run, Document.align]
    split
    · exact htrans haligned (hmap _ _ .actionsAligned)
    · exact haligned

theorem Document.runPasses_relaid (style : Style) (ps : List PassName) (d : Document) :
    Relaid (Rule.Rewrites style) d.entries (d.runPasses style ps).entries := by
  induction ps generalizing d with
  | nil => exact Relaid.refl (fun _ => .refl) d.entries
  | cons p ps ih => exact Relaid.trans .trans (p.run_relaid style d) (ih (p.run style d))

end GrammarLayout
