import GrammarLayout.Proofs.Pass.WhiteSpace

/-!
# Formatting without the indentation pass

Without the indentation pass a production keeps the white space that it was read
with.  A pipe is recognised behind any white space; the spacing pass looks for
it behind blanks only.  Where it does not find the pipe it writes another one.
The other passes change white space only, as they do behind the indentation
pass.

What is proved here:

* `PassName.run_inOrder` — the passes that keep the ink of every document that
  was read;
* `Document.InOrder.spaceSigns` — what the spacing pass adds;
* `Document.InOrder.length_ink_doublePipes` — how much this is;
* `ink_format_unindented` — the ink of a text that is formatted without the
  indentation pass, and when it is that of the document.
-/

namespace GrammarLayout

open Ascii Text

/-! ## Documents whose blocks are in order -/

namespace Document

/-- The blocks of every rule are in order, and every entry but perhaps the last ends with a
newline. -/
structure InOrder (d : Document) : Prop where
  /-- The blocks of every rule are in order. -/
  rules : ∀ r, .rule r ∈ d.entries → r.Ordered
  /-- Only the last entry may lack its newline. -/
  ended : EndedEntries d.entries

theorem inOrder_of_parse {text : Text} {d : Document} (h : Document.parse text = .ok d) :
    d.InOrder := ⟨parse_ordered h, parse_endedEntries h⟩

namespace InOrder

variable {d : Document}

/-- A change that respaces every rule. -/
theorem mapRules {f : Rule → Rule} (hf : ∀ r : Rule, r.Ordered → r.Respaced (f r)) :
    Respaces InOrder (mapRules f) := by
  intro d h
  obtain ⟨hrules, hended, hink⟩ := mapRules_kept (fun _ hr => hr)
    (fun r hr => ⟨hf r hr, (hf r hr).ordered hr⟩) h.rules h.ended
  exact ⟨⟨hrules, hended⟩, hink⟩

theorem alignColons (width : Text → Nat) : Respaces InOrder (alignColons width) := by
  intro d h
  obtain ⟨hrules, hended, hink⟩ := alignColons_kept (fun _ hr => hr)
    (fun r n hr => (hr.respaced_namePadding n).ordered hr) width h.rules h.ended
  exact ⟨⟨hrules, hended⟩, hink⟩

theorem separate (style : Style) : Respaces InOrder (separate style) := by
  intro d h
  obtain ⟨hrules, hended, hink⟩ := d.separate_kept style h.rules h.ended
  exact ⟨⟨hrules, hended⟩, hink⟩

end InOrder

end Document

/-- Apart from the indentation and the spacing pass, every pass keeps the ink of a document whose
blocks are in order. -/
theorem PassName.run_inOrder (style : Style) {p : PassName} (hindent : p ≠ .indent)
    (hspacing : p ≠ .spacing) : Document.Respaces Document.InOrder (p.run style) := by
  cases p with
  | indent => exact absurd rfl hindent
  | braceNewline =>
    exact Document.InOrder.mapRules fun r hr => Rule.respaced_placeBraces style.brace hr
  | spacing => exact absurd rfl hspacing
  | alignment =>
    exact Document.Respaces.align style (Document.InOrder.alignColons Text.width)
      (Document.InOrder.mapRules fun r hr => Rule.respaced_alignPipes hr)
      (Document.InOrder.mapRules fun r hr => Rule.respaced_alignActions style.isSpaces_unit hr)
  | emptyLine => exact Document.InOrder.separate style

/-! ## The spacing pass -/

namespace Document

variable {d : Document}

/-- The spacing pass lays a document out, and it writes a second pipe where it does not find the
first. -/
theorem InOrder.spaceSigns (style : Style) (h : d.InOrder) :
    (d.spaceSigns style).Laid ∧
      ink (d.spaceSigns style).render = ink (d.mapRules Rule.doublePipes).render := by
  have hspaced : ∀ r, .rule r ∈ d.entries →
      r.doublePipes.Respaced (r.spaceSigns style.spacing) ∧ (r.spaceSigns style.spacing).Laid :=
    fun r hr => (h.rules r hr).spaceSigns style.spacing
  refine ⟨⟨fun r' hr' => ?_, h.ended.map_mapRule _⟩, ink_mapRules_congr h.ended fun r hr => ?_⟩
  · obtain ⟨r, hr, rfl⟩ := rule_mem_mapRules hr'
    exact (hspaced r hr).2
  · exact (hspaced r hr).1.ink_render (h.rules r hr).doublePipes

/-- Braces that were placed before make no difference to the pipes that are written. -/
theorem InOrder.doublePipes_placeBraces (style : Style) (h : d.InOrder) :
    ink ((d.placeBraces style).mapRules Rule.doublePipes).render
      = ink (d.mapRules Rule.doublePipes).render := by
  rw [placeBraces, mapRules_comp]
  apply ink_mapRules_congr h.ended
  intro r hr
  have hdoubled := (h.rules r hr).doublePipes
  exact (Rule.respaced_placeBraces style.brace hdoubled).ink_render hdoubled

end Document

/-! ## Pipes that are not found -/

/-- The alternatives of a rule whose pipe stands behind other white space than blanks. -/
def Rule.hiddenPipes (r : Rule) : List Text :=
  r.productions.tail.filter fun p => firstSign p ≠ some pipe

/-- The alternatives of a document whose pipe stands behind other white space than blanks. -/
def Document.hiddenPipes (d : Document) : List Text := d.rules.flatMap Rule.hiddenPipes

/-- A pipe that is written again is one byte of ink. -/
theorem length_ink_doublePipe (p : Text) : (ink (doublePipe p)).length
    = (ink p).length + if firstSign p = some pipe then 0 else 1 := by
  unfold doublePipe
  split_ifs with h
  · rfl
  · rw [ink_pipe, List.length_cons]

namespace Rule

/-- Each alternative whose pipe is not found adds one byte to the ink. -/
theorem length_flatMap_doublePipe (r : Rule) (ps : List Text) (n : Nat) :
    (((ps.map doublePipe).zipIdx n).flatMap r.productionInk).length
      = ((ps.zipIdx n).flatMap r.productionInk).length
        + (ps.filter fun p => firstSign p ≠ some pipe).length := by
  induction ps generalizing n with
  | nil => rfl
  | cons p ps ih =>
    have hfirst : (r.productionInk (doublePipe p, n)).length
        = (r.productionInk (p, n)).length + if firstSign p = some pipe then 0 else 1 := by
      simp only [productionInk, List.length_append, length_ink_doublePipe]
      omega
    rw [List.map_cons, List.zipIdx_cons, List.zipIdx_cons, List.flatMap_cons, List.flatMap_cons,
      List.length_append, List.length_append, ih, hfirst]
    by_cases hsign : firstSign p = some pipe
    · rw [if_pos hsign, List.filter_cons_of_neg (by simpa using hsign)]
      omega
    · rw [if_neg hsign, List.filter_cons_of_pos (by simpa using hsign), List.length_cons]
      omega

/-- The blocks of a rule stay where they are when its pipes are written again. -/
theorem length_bodyInk_doublePipes (r : Rule) :
    r.doublePipes.bodyInk.length = r.bodyInk.length + r.hiddenPipes.length := by
  cases hps : r.productions with
  | nil =>
    have hsame : r.doublePipes = r := doublePipes_of_forall (by simp [hps])
    rw [hsame, hiddenPipes, hps]
    rfl
  | cons first later =>
    have hproductions : r.doublePipes.productions = first :: later.map doublePipe := by
      rw [doublePipes, hps]
      rfl
    have hcut : r.doublePipes.bodyInk = blocksInk (r.blocks (-1)) ++ (r.productionInk (first, 0)
        ++ ((later.map doublePipe).zipIdx 1).flatMap r.productionInk) := by
      rw [bodyInk, hproductions]
      rfl
    rw [hcut, bodyInk, hps, hiddenPipes, hps, List.tail_cons, List.zipIdx_cons,
      List.flatMap_cons, List.length_append, List.length_append, length_flatMap_doublePipe,
      List.length_append, List.length_append, Nat.zero_add]
    omega

theorem Ordered.length_ink_doublePipes {r : Rule} (h : r.Ordered) :
    (ink r.doublePipes.render).length = (ink r.render).length + r.hiddenPipes.length := by
  have hname : r.doublePipes.name = r.name := rfl
  rw [ink_render h.doublePipes, ink_render h, hname]
  simp only [List.length_append, List.length_cons, length_bodyInk_doublePipes]
  omega

end Rule

namespace Document

variable {d : Document}

theorem length_entriesInk_doublePipes {es : List Entry}
    (hrules : ∀ r, .rule r ∈ es → r.Ordered) :
    (entriesInk (es.map (Entry.mapRule Rule.doublePipes))).length
      = (entriesInk es).length
        + ((es.filterMap Entry.rule?).flatMap Rule.hiddenPipes).length := by
  induction es with
  | nil => rfl
  | cons e es ih =>
    have hrest := ih fun r hr => hrules r (List.mem_cons_of_mem e hr)
    rw [List.map_cons, entriesInk_cons, entriesInk_cons, List.length_append, List.length_append,
      hrest]
    cases e with
    | verbatim v =>
      rw [List.filterMap_cons_none rfl]
      exact (Nat.add_assoc ..).symm
    | rule r =>
      have hr := (hrules r List.mem_cons_self).length_ink_doublePipes
      have hmap : (Entry.rule r).mapRule Rule.doublePipes = .rule r.doublePipes := rfl
      have hsome : (Entry.rule r).rule? = some r := rfl
      rw [List.filterMap_cons_some hsome, List.flatMap_cons, List.length_append, hmap,
        Entry.render, Entry.render, hr]
      omega

/-- Each alternative whose pipe is not found adds one byte to the ink of the document. -/
theorem InOrder.length_ink_doublePipes (h : d.InOrder) :
    (ink (d.mapRules Rule.doublePipes).render).length
      = (ink d.render).length + d.hiddenPipes.length := by
  rw [ink_render (d := d.mapRules Rule.doublePipes) (h.ended.map_mapRule _), ink_render h.ended]
  exact length_entriesInk_doublePipes h.rules

/-- Where every pipe is found none is written twice. -/
theorem ink_doublePipes_iff (h : d.InOrder) :
    ink (d.mapRules Rule.doublePipes).render = ink d.render ↔ d.hiddenPipes = [] := by
  constructor
  · intro hink
    have hlen := h.length_ink_doublePipes
    rw [hink] at hlen
    exact List.length_eq_zero_iff.1 (by omega)
  · intro hnone
    apply ink_mapRules h.ended
    intro r hr
    have hfound : r.hiddenPipes = [] := by
      rw [hiddenPipes, List.flatMap_eq_nil_iff] at hnone
      exact hnone r (mem_rules.2 hr)
    rw [Rule.doublePipes_of_forall]
    intro p hp
    rw [Rule.hiddenPipes, List.filter_eq_nil_iff] at hfound
    simpa using hfound p hp

end Document

/-! ## All passes -/

/-- Without the indentation and the spacing pass, laying out changes white space only. -/
theorem Document.InOrder.layOut_of_plain {style : Style} {d : Document} (h : d.InOrder)
    (hindent : style.indent.enabled = false) (hspacing : style.spacing.enabled = false) :
    ink (d.layOut style).render = ink d.render := by
  have hpasses : ∀ p ∈ style.passes, Document.Respaces Document.InOrder (p.run style) := by
    intro p hp
    have hruns : style.enabled p = true := (List.mem_filter.1 hp).2
    apply p.run_inOrder style
    · rintro rfl
      exact absurd (hruns.symm.trans hindent) (by decide)
    · rintro rfl
      exact absurd (hruns.symm.trans hspacing) (by decide)
  exact (Document.Respaces.runPasses hpasses d h).2

/-- With the spacing pass and without the indentation pass, the pipes that are not found are
written twice. -/
theorem Document.InOrder.layOut_of_spacing {style : Style} {d : Document} (h : d.InOrder)
    (hindent : style.indent.enabled = false) (hspacing : style.spacing.enabled = true) :
    ink (d.layOut style).render = ink (d.mapRules Rule.doublePipes).render := by
  have hpasses : style.passes = [PassName.braceNewline].filter style.enabled
      ++ .spacing :: [PassName.alignment, .emptyLine].filter style.enabled := by
    have hno : style.enabled .indent = false := hindent
    have hyes : style.enabled .spacing = true := hspacing
    rw [Style.passes, PassName.all, List.filter_cons_of_neg (by simp [hno]),
      show [PassName.braceNewline, .spacing, .alignment, .emptyLine]
        = [PassName.braceNewline] ++ .spacing :: [PassName.alignment, .emptyLine] from rfl,
      List.filter_append, List.filter_cons_of_pos hyes]
  -- What the brace pass leaves to the spacing pass.
  obtain ⟨hplaced, hsame⟩ :
      (d.runPasses style ([PassName.braceNewline].filter style.enabled)).InOrder ∧
        ink ((d.runPasses style ([PassName.braceNewline].filter style.enabled)).mapRules
          Rule.doublePipes).render = ink (d.mapRules Rule.doublePipes).render := by
    cases hbrace : style.enabled .braceNewline with
    | false =>
      rw [List.filter_cons_of_neg (by simp [hbrace]), List.filter_nil]
      exact ⟨h, rfl⟩
    | true =>
      rw [List.filter_cons_of_pos hbrace, List.filter_nil]
      exact ⟨(PassName.braceNewline.run_inOrder style (by decide) (by decide) d h).1,
        h.doublePipes_placeBraces style⟩
  obtain ⟨hlaid, hspaced⟩ := hplaced.spaceSigns style
  have hrest := (hlaid.runPasses style ([PassName.alignment, .emptyLine].filter style.enabled)).2
  rw [← hsame, ← hspaced, ← hrest, Document.layOut, hpasses, Document.runPasses, List.foldl_append]
  rfl

/-- Formatting without the indentation pass succeeds on every text that can be read.  It changes
white space only, except that the spacing pass writes a second pipe in front of each alternative
whose own pipe stands behind other white space than blanks. -/
theorem ink_format_unindented {style : Style} (hindent : style.indent.enabled = false) {text : Text}
    {d : Document} (h : Document.parse text = .ok d) :
    ∃ formatted, format style text = .ok formatted ∧
      ink formatted
        = ink (if style.spacing.enabled then d.mapRules Rule.doublePipes else d).render ∧
      (ink formatted = ink d.render ↔ style.spacing.enabled = false ∨ d.hiddenPipes = []) := by
  have hordered := Document.inOrder_of_parse h
  refine ⟨(d.layOut style).render, ?_, ?_⟩
  · rw [format, h]
    rfl
  · cases hspacing : style.spacing.enabled with
    | false =>
      have hink := hordered.layOut_of_plain hindent hspacing
      exact ⟨hink, by simp [hink]⟩
    | true =>
      have hink := hordered.layOut_of_spacing hindent hspacing
      refine ⟨hink, ?_⟩
      rw [hink, Document.ink_doublePipes_iff hordered]
      simp

/-- The pipe of the second alternative stands behind a form feed: it is written twice. -/
theorem ink_format_unindented_form_feed :
    ∃ d formatted, Document.parse (bytes "a: b\n\x0c| c\n") = .ok d ∧
      format { indent := { enabled := false } } (bytes "a: b\n\x0c| c\n") = .ok formatted ∧
      ink formatted = bytes "a:b||c;" ∧ ink d.render = bytes "a:b|c;" := by
  have h : Document.parse (bytes "a: b\n\x0c| c\n")
      = .ok ⟨[.rule
          { name := bytes "a", line := 1, productions := [bytes "b", bytes "\x0c| c"] }]⟩ := by
    decide +kernel
  have hindent : ({ indent := { enabled := false } } : Style).indent.enabled = false := rfl
  obtain ⟨formatted, hformat, hink, -⟩ := ink_format_unindented hindent h
  refine ⟨_, formatted, h, hformat, ?_, ?_⟩
  · rw [hink]
    decide +kernel
  · decide +kernel

end GrammarLayout
