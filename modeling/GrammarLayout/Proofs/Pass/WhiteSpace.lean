import GrammarLayout.Pass.Pipeline
import GrammarLayout.Proofs.Grammar.Conservation
import GrammarLayout.Proofs.Pass.Alignment
import GrammarLayout.Proofs.Pass.Indent

/-!
# Formatting changes white space only

Each pass keeps the ink of a document, so a formatted text has the ink of the
document that was read.  The indentation pass comes first: it takes documents
as they are read and leaves them laid out, which the others rely on.

What is proved here:

* `Document.Laid.separate` — inserting blank lines adds no ink;
* `PassName.run_laid` — every pass keeps the ink of a document that is laid out;
* `ink_format` — formatting with the indentation pass changes white space only.
-/

namespace GrammarLayout

open Ascii Text

/-! ## Empty lines -/

/-- Inserting blank lines keeps every rule and adds no ink. -/
theorem EmptyLineStyle.separate_kept {P : Rule → Prop} (style : EmptyLineStyle)
    (previous : Option Entry) (seenRule : Bool) {es : List Entry}
    (hrules : ∀ r, .rule r ∈ es → P r) (hended : EndedEntries es) :
    (∀ r, .rule r ∈ style.separate previous seenRule es → P r) ∧
      EndedEntries (style.separate previous seenRule es) ∧
      entriesInk (style.separate previous seenRule es) = entriesInk es := by
  induction es generalizing previous seenRule with
  | nil => exact ⟨by simp [separate], .nil, rfl⟩
  | cons e es ih =>
    obtain ⟨hkept, hend, hink⟩ := ih (some e) (seenRule || e.isRule)
      (fun r hr => hrules r (List.mem_cons_of_mem e hr)) hended.tail
    set rest := e :: style.separate (some e) (seenRule || e.isRule) es with hrest
    have hrestKept : ∀ r, .rule r ∈ rest → P r := by
      intro r hr
      rcases List.mem_cons.1 hr with hr | hr
      · exact hrules r (by rw [hr]; exact List.mem_cons_self)
      · exact hkept r hr
    have hrestEnded : EndedEntries rest := by
      cases es with
      | nil => exact .last _
      | cons e' es =>
        cases hended with
        | cons he _ => exact .cons he hend
    have hrestInk : entriesInk rest = entriesInk (e :: es) := by
      rw [hrest, entriesInk_cons, entriesInk_cons, hink]
    rw [separate, ← hrest]
    split
    · refine ⟨fun r hr => hrestKept r (by simpa using hr), .cons ⟨[], rfl⟩ hrestEnded, ?_⟩
      rw [entriesInk_cons, hrestInk]
      rfl
    · exact ⟨hrestKept, hrestEnded, hrestInk⟩

theorem Document.separate_kept {P : Rule → Prop} (style : Style) {d : Document}
    (hrules : ∀ r, .rule r ∈ d.entries → P r) (hended : EndedEntries d.entries) :
    (∀ r, .rule r ∈ (d.separate style).entries → P r) ∧
      EndedEntries (d.separate style).entries ∧ ink (d.separate style).render = ink d.render := by
  obtain ⟨hkept, hend, hink⟩ := style.emptyLine.separate_kept none false hrules hended
  refine ⟨hkept, hend, ?_⟩
  rw [ink_render hended, ink_render (d := d.separate style) hend]
  exact hink

theorem Document.Laid.separate (style : Style) {d : Document} (h : d.Laid) :
    (d.separate style).Laid ∧ ink (d.separate style).render = ink d.render := by
  obtain ⟨hrules, hended, hink⟩ := d.separate_kept style h.rules h.ended
  exact ⟨⟨hrules, hended⟩, hink⟩

/-! ## All passes -/

namespace Document

/-- A change of documents that keeps `Q`, and changes white space only where `Q` holds. -/
def Respaces (Q : Document → Prop) (f : Document → Document) : Prop :=
  ∀ d, Q d → Q (f d) ∧ ink (f d).render = ink d.render

namespace Respaces

variable {Q : Document → Prop} {f g : Document → Document}

theorem comp (hg : Respaces Q g) (hf : Respaces Q f) : Respaces Q (g ∘ f) := by
  intro d hd
  obtain ⟨hfirst, hink⟩ := hf d hd
  obtain ⟨hboth, hink'⟩ := hg _ hfirst
  exact ⟨hboth, hink'.trans hink⟩

/-- A change that is made only when it is asked for. -/
theorem ite (hf : Respaces Q f) (b : Bool) : Respaces Q fun d => if b then f d else d := by
  intro d hd
  split
  · exact hf d hd
  · exact ⟨hd, rfl⟩

/-- The alignment pass, by its three parts. -/
theorem align {width : Text → Nat} (style : Style) (hcolons : Respaces Q (alignColons width))
    (hpipes : Respaces Q (mapRules Rule.alignPipes))
    (hactions : Respaces Q (mapRules (Rule.alignActions style.indent.unit))) :
    Respaces Q (align width style) :=
  (hactions.ite style.alignment.alignActions).comp
    ((hpipes.comp hcolons).ite style.alignment.alignRules)

theorem runPasses {style : Style} {ps : List PassName}
    (h : ∀ p ∈ ps, Respaces Q (p.run style)) : Respaces Q (runPasses style ps) := by
  induction ps with
  | nil => exact fun d hd => ⟨hd, rfl⟩
  | cons p ps ih =>
    exact (ih fun q hq => h q (List.mem_cons_of_mem p hq)).comp (h p List.mem_cons_self)

end Respaces

end Document

/-- The indentation pass lays out a document whose blocks are in order. -/
theorem Document.indent_laid (style : Style) {d : Document}
    (hrules : ∀ r, .rule r ∈ d.entries → r.Ordered) (hended : EndedEntries d.entries) :
    (d.indent style).Laid ∧ ink (d.indent style).render = ink d.render := by
  have hunit := style.indent.isBlank_of_mem_unit
  refine ⟨⟨fun r' hr' => ?_, hended.map_mapRule _⟩,
    Document.ink_mapRules hended fun r hr => ((hrules r hr).indentBy hunit).1⟩
  obtain ⟨r, hr, rfl⟩ := Document.rule_mem_mapRules hr'
  exact ((hrules r hr).indentBy hunit).2

theorem Style.isSpaces_unit (style : Style) : isSpaces style.indent.unit = true :=
  isSpaces_of_blanks style.indent.isBlank_of_mem_unit

/-- Every pass keeps the ink of a document that is laid out, and leaves it so. -/
theorem PassName.run_laid (style : Style) (p : PassName) :
    Document.Respaces Document.Laid (p.run style) := by
  intro d h
  cases p with
  | indent => exact Document.indent_laid style (fun r hr => (h.rules r hr).toOrdered) h.ended
  | braceNewline => exact h.mapRules fun r hr => hr.placeBraces style.brace
  | spacing => exact h.mapRules fun r hr => hr.spaceSigns style.spacing
  | alignment =>
    exact Document.Respaces.align style (fun d hd => hd.alignColons Text.width)
      (fun d hd => hd.mapRules fun r hr => hr.alignPipes)
      (fun d hd => hd.mapRules fun r hr => hr.alignActions style.isSpaces_unit) d h
  | emptyLine => exact h.separate style

theorem Document.Laid.runPasses (style : Style) (ps : List PassName) {d : Document} (h : d.Laid) :
    (d.runPasses style ps).Laid ∧ ink (d.runPasses style ps).render = ink d.render :=
  Document.Respaces.runPasses (fun p _ => p.run_laid style) d h

theorem Style.passes_of_indent {style : Style} (h : style.indent.enabled = true) :
    style.passes = .indent :: PassName.all.tail.filter style.enabled := by
  have hfirst : style.enabled .indent = true := h
  rw [Style.passes, PassName.all, List.filter_cons_of_pos hfirst, List.tail_cons]

/-- Laying out a document that was read changes white space only. -/
theorem Document.layOut_laid {style : Style} (hindent : style.indent.enabled = true) {text : Text}
    {d : Document} (h : Document.parse text = .ok d) :
    (d.layOut style).Laid ∧ ink (d.layOut style).render = ink d.render := by
  obtain ⟨hlaid, hink⟩ :=
    Document.indent_laid style (Document.parse_ordered h) (Document.parse_endedEntries h)
  rw [Document.layOut, Style.passes_of_indent hindent]
  obtain ⟨hlaid', hink'⟩ := hlaid.runPasses style (PassName.all.tail.filter style.enabled)
  exact ⟨hlaid', hink'.trans hink⟩

/-- Formatting succeeds on every text that can be read, and with the indentation pass it changes
white space only. -/
theorem ink_format {style : Style} (hindent : style.indent.enabled = true) {text : Text}
    {d : Document} (h : Document.parse text = .ok d) :
    ∃ formatted, format style text = .ok formatted ∧ ink formatted = ink d.render := by
  refine ⟨(d.layOut style).render, ?_, (Document.layOut_laid hindent h).2⟩
  rw [format, h]
  rfl

/-- A block is taken out of its production, and its operator is spaced. -/
theorem ink_format_inline_block :
    ∃ d formatted, Document.parse (bytes "a: b \x7bx=1\x7d\n|c\n") = .ok d ∧
      format {} (bytes "a: b \x7bx=1\x7d\n|c\n") = .ok formatted ∧ ink formatted = ink d.render := by
  have h : Document.parse (bytes "a: b \x7bx=1\x7d\n|c\n")
      = .ok ⟨[.rule
          { name := bytes "a", line := 1
            productions := [bytes "b \x7bx=1\x7d", bytes "|c"] }]⟩ := by decide +kernel
  obtain ⟨formatted, hformat, hink⟩ := ink_format (rfl : ({} : Style).indent.enabled = true) h
  exact ⟨_, formatted, h, hformat, hink⟩

end GrammarLayout
