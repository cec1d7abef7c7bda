import GrammarLayout.Pass.Brace
import GrammarLayout.Proofs.Grammar.Trimmed
import GrammarLayout.Proofs.Idempotent.Alignment
import GrammarLayout.Proofs.Idempotent.Indent

/-!
# Laying a document out twice

Each of the layout passes leaves alone what it has written.  Documents are
arbitrary here, they need not have been read: only the actions have to be
trimmed, as all actions are that can be made.

What is proved here:

* `Action.placeBrace_placeBrace` — opening braces;
* `Document.Measured.align_align` — the alignment pass, on layout that it can measure;
* `layout_passes_idempotent` — the three passes.
-/

namespace GrammarLayout

open Ascii Text

/-! ## Opening braces -/

theorem Action.onOwnLine_of_text {a : Action} {t : Text} (h : a.text = newline :: t) :
    a.onOwnLine = true := by
  rw [onOwnLine, List.contains_iff_mem, lead, h]
  split_ifs
  · rw [List.takeWhile_cons_of_pos (by decide)]
    exact List.mem_cons_self
  · rw [List.takeWhile_cons_of_pos (by decide)]
    exact List.mem_cons_self

/-- A body behind blanks is not on a line of its own. -/
theorem Action.onOwnLine_setText_blanks (a : Action) {w : Text} (hw : ∀ c ∈ w, isBlank c = true) :
    (a.setText (w ++ a.body)).onOwnLine = false := by
  have hcut : Cut w a.body := a.cut.behind fun c hc => by simp [isLayout, hw c hc]
  rw [onOwnLine, ← Bool.not_eq_true, List.contains_iff_mem]
  by_cases hnil : a.body = []
  · rw [(hcut.setText_nil hnil a).2.1]
    simp
  · rw [(hcut.setText hnil a).2.1]
    exact newline_notMem_of_blanks hw

/-- A text behind a newline stays there when it is trimmed, unless nothing is left of it. -/
theorem trimLayout_newline_cons (s : Text) :
    trimEndWhile isLayout (newline :: s) = [] ∨
      ∃ t, trimEndWhile isLayout (newline :: s) = newline :: t := by
  obtain ⟨w, hs, -⟩ := exists_trimEndWhile isLayout (newline :: s)
  cases htrim : trimEndWhile isLayout (newline :: s) with
  | nil => exact Or.inl rfl
  | cons c t =>
    rw [htrim, List.cons_append, List.cons.injEq] at hs
    exact Or.inr ⟨t, by rw [hs.1]⟩

/-- An empty action stays empty behind layout. -/
theorem Action.setText_newline_eq_self {a : Action} {indent : Text} (ha : a.text = [])
    (hindent : ∀ c ∈ newline :: indent, isLayout c = true) :
    a.setText (newline :: indent ++ a.body) = a := by
  have hbody : a.body = [] := by
    have := a.lead_append_body
    rw [ha, List.append_eq_nil_iff] at this
    exact this.2
  refine setText_eq_self ?_
  rw [hbody, List.append_nil, ha]
  exact trimEndWhile_eq_nil_iff.2 hindent

section Brace

variable {style : BraceStyle} (indent : Text) (a : Action)

theorem Action.placeBrace_of_sameLine (h : style.placement = .sameLine) : a.placeBrace style indent =
    if a.onOwnLine then a.setText ((if style.spaceBefore then [space] else []) ++ a.body) else a := by
  rw [placeBrace, h]

theorem Action.placeBrace_of_newLine (h : style.placement = .newLine) : a.placeBrace style indent =
    if a.onOwnLine then a else a.setText (newline :: indent ++ a.body) := by
  rw [placeBrace, h]

/-- A brace put behind its production is not on a line of its own. -/
theorem Action.placeBrace_placeBrace_of_sameLine (h : style.placement = .sameLine) :
    (a.placeBrace style indent).placeBrace style indent = a.placeBrace style indent := by
  have hblank : ∀ c ∈ (if style.spaceBefore then [space] else []), isBlank c = true := by
    split_ifs
    · exact List.forall_mem_singleton.2 rfl
    · exact List.forall_mem_nil _
  rw [placeBrace_of_sameLine indent _ h, placeBrace_of_sameLine indent a h]
  cases hown : a.onOwnLine with
  | true => rw [if_pos rfl, a.onOwnLine_setText_blanks hblank, if_neg Bool.false_ne_true]
  | false => rw [if_neg Bool.false_ne_true, hown, if_neg Bool.false_ne_true]

/-- A brace put behind a newline is on a line of its own. -/
theorem Action.placeBrace_placeBrace_of_newLine (h : style.placement = .newLine) :
    (a.placeBrace style indent).placeBrace style indent = a.placeBrace style indent := by
  rw [placeBrace_of_newLine indent _ h, placeBrace_of_newLine indent a h]
  cases hown : a.onOwnLine with
  | true => rw [if_pos rfl, hown, if_pos rfl]
  | false =>
    rw [if_neg Bool.false_ne_true]
    rcases trimLayout_newline_cons (indent ++ a.body) with hnil | ⟨t, ht⟩
    · -- Nothing is left of the action, so nothing is moved either.
      have htext : (a.setText (newline :: indent ++ a.body)).text = [] := hnil
      have hlayout : ∀ c ∈ newline :: indent, isLayout c = true := fun c hc =>
        trimEndWhile_eq_nil_iff.1 hnil c (List.mem_append_left a.body hc)
      rw [setText_newline_eq_self htext hlayout, ite_self]
    · rw [if_pos (onOwnLine_of_text ht)]

/-- Placing an opening brace twice is placing it once. -/
theorem Action.placeBrace_placeBrace :
    (a.placeBrace style indent).placeBrace style indent = a.placeBrace style indent := by
  cases h : style.placement with
  | sameLine => exact a.placeBrace_placeBrace_of_sameLine indent h
  | newLine => exact a.placeBrace_placeBrace_of_newLine indent h

end Brace

theorem Rule.placeBraces_placeBraces (style : BraceStyle) (r : Rule) :
    (r.placeBraces style).placeBraces style = r.placeBraces style := by
  have hactions : (r.actions.map (Action.placeBrace style r.productionIndent)).map
      (Action.placeBrace style r.productionIndent)
      = r.actions.map (Action.placeBrace style r.productionIndent) := by
    rw [List.map_map]
    exact List.map_congr_left fun a _ => a.placeBrace_placeBrace r.productionIndent
  simp only [placeBraces, hactions]

/-! ## Alignment -/

/-- The layout of every rule can be measured. -/
def Document.Measured (d : Document) : Prop := ∀ r, .rule r ∈ d.entries → r.Measured

/-- Lining up pipes changes productions only, whatever the padding of the name. -/
theorem Rule.alignPipes_eq (r : Rule) :
    r.alignPipes = { r with productions := r.alignPipes.productions } := by
  unfold alignPipes
  split
  · rfl
  · split <;> rfl

theorem Rule.alignPipes_namePadding (r : Rule) (n : Nat) :
    { r with namePadding := n }.alignPipes = { r.alignPipes with namePadding := n } := by
  obtain ⟨_, _, productions, _, _, _, _, _⟩ := r
  cases productions with
  | nil => rfl
  | cons first later =>
    simp only [alignPipes]
    split <;> rfl

theorem Rule.productionIndent_alignPipes (r : Rule) :
    r.alignPipes.productionIndent = r.productionIndent := by rw [alignPipes_eq]

theorem Rule.actions_alignPipes (r : Rule) : r.alignPipes.actions = r.actions := by
  rw [alignPipes_eq]

theorem Rule.name_alignPipes (r : Rule) : r.alignPipes.name = r.name := by rw [alignPipes_eq]

theorem Rule.Measured.alignPipes {r : Rule} (h : r.Measured) : r.alignPipes.Measured := by
  rw [alignPipes_eq]
  exact ⟨h.productionIndent, h.leads⟩

theorem Rule.Measured.pipesAligned {r : Rule} (h : r.Measured) :
    PipesAligned r.alignPipes.productionIndent r.alignPipes.productions := by
  rw [productionIndent_alignPipes]
  exact pipesAligned_alignPipes h.productionIndent

/-- Lining up pipes and blocks twice is doing it once. -/
theorem Rule.Measured.alignActions_alignPipes {r : Rule} (h : r.Measured) {step : Text}
    (hstep : ∀ c ∈ step, isBlank c = true) (htrim : ∀ a ∈ r.actions, a.Trimmed) :
    (r.alignPipes.alignActions step).alignPipes.alignActions step = r.alignPipes.alignActions step := by
  have hpipes : (r.alignPipes.alignActions step).alignPipes = r.alignPipes.alignActions step :=
    alignPipes_eq_self (h.pipesAligned.map_alignInline h.alignPipes.productionIndent)
  have hactions : ∀ a ∈ r.alignPipes.actions, a.Trimmed := by
    rwa [actions_alignPipes]
  rw [hpipes, h.alignPipes.alignActions_alignActions hstep hactions]

namespace Document

variable {d : Document} {width : Text → Nat}

/-- Lining up colons leaves what can be measured. -/
theorem forall_alignColons {P : Rule → Prop} (hP : ∀ (r : Rule) (n : Nat), P r →
    P { r with namePadding := n }) (h : ∀ r, .rule r ∈ d.entries → P r) :
    ∀ r, .rule r ∈ (d.alignColons width).entries → P r := by
  have hrelaid := alignColonsFrom_relaid (R := fun r r' => P r → P r') (fun r n => hP r n) width 0
    d.entries
  exact hrelaid.forall_rules (fun hr => hr) h

/-- Lining up colons and changing rules is idempotent if changing rules is, and leaves their names. -/
theorem alignColons_mapRules_idem {f : Rule → Rule} (hname : ∀ r, (f r).name = r.name)
    (hpad : ∀ (r : Rule) (n : Nat), f { r with namePadding := n } = { f r with namePadding := n })
    (hf : ∀ r, .rule r ∈ (d.alignColons width).entries → f (f r) = f r) :
    (((d.alignColons width).mapRules f).alignColons width).mapRules f
      = (d.alignColons width).mapRules f := by
  rw [alignColons_mapRules width hname hpad, alignColons_alignColons, mapRules_mapRules hf]

/-- Aligning a document twice is aligning it once, if the pass can measure its layout. -/
theorem Measured.align_align (h : d.Measured) (htrim : d.Trimmed) (style : Style) :
    (d.align width style).align width style = d.align width style := by
  have hstep := style.indent.isBlank_of_mem_unit
  set step := style.indent.unit
  have hall : ∀ r, .rule r ∈ d.entries → r.Measured ∧ ∀ a ∈ r.actions, a.Trimmed :=
    fun r hr => ⟨h r hr, htrim (.rule r) hr⟩
  have hcolons : ∀ r, .rule r ∈ (d.alignColons width).entries →
      r.Measured ∧ ∀ a ∈ r.actions, a.Trimmed :=
    forall_alignColons (fun r n hr => ⟨⟨hr.1.productionIndent, hr.1.leads⟩, hr.2⟩) hall
  unfold align
  cases style.alignment.alignRules with
  | true =>
    cases style.alignment.alignActions with
    | true =>
      simp only [if_true, mapRules_comp]
      refine alignColons_mapRules_idem (fun r => ?_) (fun r n => ?_) fun r hr => ?_
      · exact r.name_alignPipes
      · rw [Function.comp_apply, Rule.alignPipes_namePadding]
        rfl
      · exact (hcolons r hr).1.alignActions_alignPipes hstep (hcolons r hr).2
    | false =>
      simp only [if_true, Bool.false_eq_true, if_false]
      refine alignColons_mapRules_idem (fun r => ?_) (fun r n => ?_) fun r hr => ?_
      · exact r.name_alignPipes
      · exact r.alignPipes_namePadding n
      · exact Rule.alignPipes_eq_self (hcolons r hr).1.pipesAligned
  | false =>
    cases style.alignment.alignActions with
    | true =>
      simp only [if_true, Bool.false_eq_true, if_false]
      exact mapRules_mapRules fun r hr => (hall r hr).1.alignActions_alignActions hstep (hall r hr).2
    | false => rfl

end Document

/-! ## The passes -/

/-- Each of the layout passes changes nothing when it is run a second time: the indentation pass and
the brace pass on every document, and the alignment pass on every document whose productions are
indented by blanks, with nothing but blanks and newlines in front of the blocks, however wide names
are.  Both ways of making an action trim it, so documents with other actions cannot be made. -/
theorem layout_passes_idempotent (style : Style) {d : Document} (htrim : d.Trimmed) :
    (d.indent style).indent style = d.indent style ∧
      (d.placeBraces style).placeBraces style = d.placeBraces style ∧
      (d.Measured → ∀ width : Text → Nat,
        (d.align width style).align width style = d.align width style) := by
  refine ⟨?_, ?_, fun h _ => h.align_align htrim style⟩
  · exact Document.mapRules_mapRules fun r hr =>
      Rule.indentBy_indentBy style.indent.isBlank_of_mem_unit (htrim (.rule r) hr)
  · exact Document.mapRules_mapRules fun r _ => r.placeBraces_placeBraces style.brace

/-- A rule with a block at the end of a production and a block on several lines. -/
theorem layout_passes_idempotent_two_blocks :
    ∃ d, Document.parse (bytes "a: b \x7bx=1\x7d\n  | c \x7b\n     y\n  \x7d\n;\n") = .ok d ∧
      d.Trimmed ∧ d.Measured ∧ (d.indent {}).indent {} = d.indent {} ∧
      (d.placeBraces {}).placeBraces {} = d.placeBraces {} ∧
      (d.align Text.width {}).align Text.width {} = d.align Text.width {} := by
  have h : Document.parse (bytes "a: b \x7bx=1\x7d\n  | c \x7b\n     y\n  \x7d\n;\n")
      = .ok ⟨[.rule
          { name := bytes "a", line := 1
            productions := [bytes "b \x7bx=1\x7d", bytes "  | c"]
            actions := [⟨bytes " \x7b\n     y\n  \x7d", 1, 2⟩] }]⟩ := by decide +kernel
  have htrim := Document.parse_trimmed h
  obtain ⟨hindent, hbraces, halign⟩ := layout_passes_idempotent {} htrim
  refine ⟨_, h, htrim, ?_, hindent, hbraces, halign ?_ Text.width⟩
  all_goals
    intro r hr
    obtain rfl := Entry.rule.inj (List.mem_singleton.1 hr)
    exact ⟨by decide +kernel, by decide +kernel⟩

end GrammarLayout
