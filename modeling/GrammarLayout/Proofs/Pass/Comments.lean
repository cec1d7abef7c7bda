import GrammarLayout.Proofs.Grammar.Comments
import GrammarLayout.Proofs.Pass.Shape
import GrammarLayout.Proofs.Pass.WhiteSpace

/-!
# Formatting and comments

In a text without braces and quotes the rules have no blocks, and every
production is written on a line of its own, its comment at the end.  So the
passes keep the code of every rule, and the code of the formatted text is that
of the document that was read.  Code is lost where the reader lost it: where a
line goes on with a production that ends in a comment.

What is proved here:

* `Document.parse_blockless` — a text without braces has rules without blocks;
* `Rule.code_render` — the code of such a rule as it is written;
* `Rule.Blockless.rewrite` — the passes keep it;
* `code_format` — formatting keeps the code of a text exactly when no line is
  swallowed by a comment.
-/

namespace GrammarLayout

open Ascii Text

/-! ## Rules without blocks -/

/-- A shaped rule that has no blocks, neither of its own nor in productions. -/
structure Rule.Blockless (r : Rule) : Prop extends r.Shaped where
  /-- It has no action. -/
  noActions : r.actions = []
  /-- No production holds a brace. -/
  noBraces : ∀ p ∈ r.productions, openBrace ∉ p

/-- A text without braces has rules without blocks. -/
theorem Document.parse_blockless {text : Text} {d : Document} (hbare : text.Bare)
    (h : Document.parse text = .ok d) : ∀ r, .rule r ∈ d.entries → r.Blockless := by
  intro r hr
  have hordered := parse_ordered h r hr
  -- Reading invents no brace.
  have hbody : openBrace ∉ r.bodyInk := by
    intro hmem
    have htext : (ink text).count openBrace = 0 :=
      List.count_eq_zero.2 fun hc => (hbare openBrace (mem_of_mem_ink hc)).1 rfl
    have hcount := (parse_kept (o := false) h (by simp)).perm.count_eq openBrace
    rw [withoutSemicolons, withoutSemicolons, List.count_filter (by decide),
      List.count_filter (by decide), htext, List.count_eq_zero] at hcount
    refine hcount ?_
    rw [Document.ink_render (parse_endedEntries h)]
    refine List.mem_flatMap.2 ⟨.rule r, hr, ?_⟩
    rw [Entry.render, Rule.ink_render hordered]
    simp [hmem]
  refine ⟨⟨hordered, parse_plain h _ hr⟩, ?_, fun p hp hmem => ?_⟩
  · rw [List.eq_nil_iff_forall_not_mem]
    intro a ha
    exact hbody (hordered.mem_bodyInk_of_action ha (List.mem_of_mem_head? (hordered.framed a ha)))
  · exact hbody (Rule.mem_bodyInk_of_production hp (mem_ink (by decide) (by decide) hmem))

namespace Rule

variable {r r' : Rule}

/-! ## Writing a rule -/

theorem newline_notMem_productionLine (hindent : ∀ c ∈ r.productionIndent, isBlank c = true)
    (i : Nat) {p : Text} (hp : newline ∉ p) : newline ∉ r.productionLine i p := by
  have hblank := over_ne.2 (newline_notMem_of_blanks hindent)
  exact newline_notMem_of_over (fun hS => over_productionLine hS hblank i) hp

/-- The code of productions without blocks and of the line that closes the rule. -/
theorem code_renderFrom (hindent : ∀ c ∈ r.productionIndent, isBlank c = true)
    (hterminator : ∀ c ∈ r.terminatorIndent, isBlank c = true) (x : Text) (i : Nat) {ps : List Text}
    (hline : ∀ p ∈ ps, newline ∉ p) (hpiped : ∀ p ∈ ps.drop (1 - i), hasPipe p = true) :
    code (x ++ (r.renderFrom i ps [] ++ r.terminator)) = code x ++ ps.flatMap lineCode := by
  induction ps generalizing x i with
  | nil =>
    have hclose : newline ∉ r.terminatorIndent ++ [semicolon] := by
      rw [List.mem_append, not_or]
      exact ⟨newline_notMem_of_blanks hterminator, by decide⟩
    have hempty : code (r.terminatorIndent ++ [semicolon, newline]) = [] := by
      rw [show r.terminatorIndent ++ [semicolon, newline]
          = r.terminatorIndent ++ [semicolon] ++ [newline] by simp,
        code_append_newline, code_nil, List.append_nil, code_of_notMem hclose, lineCode,
        ink_blanks_append hterminator]
      rfl
    rw [renderFrom, terminator, actionTexts, List.flatMap_nil, List.nil_append, List.cons_append,
      code_append_newline, hempty, List.flatMap_nil]
  | cons p ps ih =>
    have hfirst : 0 < i → hasPipe p = true := by
      intro hi
      refine hpiped p ?_
      rw [show 1 - i = 0 by omega]
      exact List.mem_cons_self
    have hrest : ∀ q ∈ ps.drop (1 - (i + 1)), hasPipe q = true := by
      intro q hq
      rw [show 1 - (i + 1) = 0 by omega, List.drop_zero] at hq
      refine hpiped q ?_
      cases i with
      | zero => exact hq
      | succ i =>
        rw [show 1 - (i + 1) = 0 by omega, List.drop_zero]
        exact List.mem_cons_of_mem p hq
    have hp := hline p List.mem_cons_self
    have hcode : code (r.productionLine i p) = lineCode p := by
      rw [code_of_notMem (newline_notMem_productionLine hindent i hp)]
      exact lineCode_of_ink (ink_productionLine hindent hfirst)
    have hrender : r.renderFrom i (p :: ps) []
        = newline :: (r.productionLine i p ++ r.renderFrom (i + 1) ps []) := by
      simp [renderFrom, actionTexts]
    rw [hrender, List.cons_append, code_append_newline, List.append_assoc,
      ih (r.productionLine i p) (i + 1) (fun q hq => hline q (List.mem_cons_of_mem p hq)) hrest,
      hcode, List.flatMap_cons]

/-- A rule without blocks is written with its code. -/
theorem code_render (h : r.Blockless) : code r.render = (Entry.rule r).code := by
  have hname : Ascii.hash ∉ ink r.name ∧ newline ∉ r.name := by
    refine ⟨fun hmem => ?_, fun hmem => ?_⟩
    · exact absurd (h.name _ (mem_of_mem_ink hmem) (by decide)) (by decide)
    · exact absurd (h.name _ hmem (by decide)) (by decide)
  have hheader : code r.header = withoutSemicolons (ink r.name) ++ [colon] := by
    have hline : newline ∉ r.header := by
      have hpad : newline ∉ List.replicate r.namePadding space := fun hmem =>
        absurd (List.eq_of_mem_replicate hmem) (by decide)
      unfold header
      split
      · simp [hname.2, hpad, show bytes " :" = [space, colon] from rfl]
        decide
      · simp [hname.2, hpad, show bytes ":" = [colon] from rfl]
        decide
    rw [code_of_notMem hline, lineCode, ink_header, uncommented_append, if_neg hname.1,
      uncommented_of_notMem hname.1]
    rfl
  rw [render, h.noActions, List.takeWhile_nil, List.dropWhile_nil, actionTexts, List.flatMap_nil,
    List.append_nil, List.append_assoc,
    code_renderFrom h.productionIndent h.terminatorIndent r.header 0 h.oneLine
      (by rw [Nat.sub_zero, List.drop_one]; exact h.piped), hheader]
  simp [Entry.code, bodyCode]

/-! ## Passes -/

/-- No block is taken out of a production without braces. -/
theorem Blockless.liftActions_eq (h : r.Blockless) : r.liftActions = r := by
  have hnone : ∀ p ∈ r.productions, liftable? p = none := by
    intro p hp
    cases hl : liftable? p with
    | none => rfl
    | some parts =>
      obtain ⟨b, rest, hblock, -⟩ := splitInline?_eq (splitInline?_of_liftable? hl)
      refine absurd ?_ (h.noBraces p hp)
      rw [firstBlock?_eq hblock]
      simp
  have hproductions : r.productions.map unlifted = r.productions := by
    rw [List.map_congr_left (g := id) fun p hp => by rw [unlifted, hnone p hp]; rfl, List.map_id]
  have hlifted : ∀ (ps : List Text) (i : Nat), (∀ p ∈ ps, liftable? p = none) →
      liftedActions i ps = [] := by
    intro ps
    induction ps with
    | nil => intros; rfl
    | cons p ps ih =>
      intro i hps
      rw [liftedActions, hps p List.mem_cons_self]
      exact ih (i + 1) fun q hq => hps q (List.mem_cons_of_mem p hq)
  rw [Rule.liftActions_eq, hproductions, liftInto, hlifted r.productions 0 hnone]
  rfl

theorem Blockless.of_respaced (h : r.Blockless) (hr : r.Respaced r') (hs : r'.Shaped) :
    r'.Blockless ∧ (Entry.rule r').code = (Entry.rule r).code := by
  have hbody : ∀ r : Rule, r.bodyCode = (r.productions.map ink).flatMap uncommented := by
    intro r
    rw [bodyCode, List.flatMap_map]
    rfl
  refine ⟨⟨hs, ?_, fun p hp hmem => ?_⟩, ?_⟩
  · have hactions := hr.actions
    rw [h.noActions, List.map_nil, List.map_eq_nil_iff] at hactions
    exact hactions
  · have hink : ink p ∈ r.productions.map ink := by
      rw [← hr.productions]
      exact List.mem_map_of_mem hp
    obtain ⟨q, hq, heq⟩ := List.mem_map.1 hink
    refine h.noBraces q hq (mem_of_mem_ink ?_)
    rw [heq]
    exact mem_ink (by decide) (by decide) hmem
  · rw [Entry.code, Entry.code, hr.name, hbody, hbody, hr.productions]

/-- Laying out a rule without blocks keeps its code. -/
theorem Blockless.indentBy {unit : Text} (hunit : ∀ c ∈ unit, isBlank c = true)
    (h : r.Blockless) : (r.indentBy unit).Blockless ∧ (r.indentBy unit).Laid ∧
      (Entry.rule (r.indentBy unit)).code = (Entry.rule r).code := by
  have hrespaced := respaced_indentBy hunit h.toOrdered
  rw [h.liftActions_eq] at hrespaced
  obtain ⟨hblockless, hcode⟩ := h.of_respaced hrespaced (h.toShaped.indentBy hunit).1
  exact ⟨hblockless, (h.toOrdered.indentBy hunit).2, hcode⟩

/-- Each rewrite of a rule without blocks that is laid out keeps its code. -/
theorem Blockless.rewrite {style : Style} (h : r.Blockless) (hlaid : r.Laid)
    (hr : r.Rewrite style r') :
    r'.Blockless ∧ r'.Laid ∧ (Entry.rule r').code = (Entry.rule r).code := by
  have hunit := style.indent.isBlank_of_mem_unit
  have hshaped := (h.toShaped.rewrite hr).1
  have hkept : ∀ {r' : Rule}, r'.Shaped → r.Respaced r' ∧ r'.Laid →
      r'.Blockless ∧ r'.Laid ∧ (Entry.rule r').code = (Entry.rule r).code := by
    intro r' hs hr
    obtain ⟨hblockless, hcode⟩ := h.of_respaced hr.1 hs
    exact ⟨hblockless, hr.2, hcode⟩
  cases hr with
  | indented => exact h.indentBy hunit
  | bracesPlaced => exact hkept hshaped (hlaid.placeBraces style.brace)
  | signsSpaced => exact hkept hshaped (hlaid.spaceSigns style.spacing)
  | padded n => exact hkept hshaped (hlaid.namePadding n)
  | pipesAligned => exact hkept hshaped hlaid.alignPipes
  | actionsAligned => exact hkept hshaped (hlaid.alignActions (isSpaces_of_blanks hunit))

theorem Blockless.rewrites {style : Style} (h : r.Blockless) (hlaid : r.Laid)
    (hr : r.Rewrites style r') :
    r'.Blockless ∧ r'.Laid ∧ (Entry.rule r').code = (Entry.rule r).code := by
  induction hr with
  | refl => exact ⟨h, hlaid, rfl⟩
  | tail _ hlast ih =>
    obtain ⟨hblockless, hlaid', hcode⟩ := ih
    obtain ⟨hblockless', hlaid'', hcode'⟩ := hblockless.rewrite hlaid' hlast
    exact ⟨hblockless', hlaid'', hcode'.trans hcode⟩

end Rule

/-! ## Documents -/

/-- Entries with rules of the same code, and blank lines between them, have the same code. -/
theorem Relaid.entriesCode_eq {R : Rule → Rule → Prop} {es es' : List Entry} (h : Relaid R es es')
    (hR : ∀ {r r'}, .rule r ∈ es → R r r' → (Entry.rule r').code = (Entry.rule r).code) :
    entriesCode es' = entriesCode es := by
  induction h with
  | nil => rfl
  | blank _ ih =>
    rw [entriesCode_cons, ih hR]
    rfl
  | cons he _ ih =>
    rw [entriesCode_cons, entriesCode_cons, ih fun hr => hR (List.mem_cons_of_mem _ hr)]
    congr 1
    cases he with
    | verbatim v => rfl
    | rule hr => exact hR List.mem_cons_self hr

namespace Document

/-- A document whose rules have no blocks is written with its code. -/
theorem code_render {d : Document} (hrules : ∀ r, .rule r ∈ d.entries → r.Blockless)
    (hended : EndedEntries d.entries) : code d.render = entriesCode d.entries := by
  have hentry : ∀ e ∈ d.entries, code e.render = e.code := by
    intro e he
    cases e with
    | verbatim v => rfl
    | rule r => exact Rule.code_render (hrules r he)
  rw [render, List.flatMap_def, code_flatten hended, List.flatMap_map, entriesCode,
    List.flatMap_def, List.flatMap_def, List.map_congr_left hentry]

/-- Laying out a document whose rules have no blocks keeps its code. -/
theorem code_layOut {style : Style} (hindent : style.indent.enabled = true) {text : Text}
    {d : Document} (hbare : text.Bare) (h : Document.parse text = .ok d) :
    code (d.layOut style).render = entriesCode d.entries := by
  have hblockless := parse_blockless hbare h
  have hunit := style.indent.isBlank_of_mem_unit
  have hfirst : entriesCode (d.indent style).entries = entriesCode d.entries := by
    rw [indent, mapRules, entriesCode, List.flatMap_map, entriesCode, List.flatMap_def,
      List.flatMap_def]
    refine congrArg _ (List.map_congr_left fun e he => ?_)
    cases e with
    | verbatim v => rfl
    | rule r => exact ((hblockless r he).indentBy hunit).2.2
  have hindented : ∀ r, .rule r ∈ (d.indent style).entries → r.Blockless ∧ r.Laid := by
    intro r' hr'
    obtain ⟨r, hr, rfl⟩ := rule_mem_mapRules hr'
    exact ⟨((hblockless r hr).indentBy hunit).1, ((hblockless r hr).indentBy hunit).2.1⟩
  -- The passes after the first rewrite rules that are laid out.
  have hpasses : Relaid (Rule.Rewrites style) (d.indent style).entries (d.layOut style).entries := by
    rw [layOut, Style.passes_of_indent hindent]
    exact runPasses_relaid style (PassName.all.tail.filter style.enabled) (d.indent style)
  have hrules := hpasses.forall_rules (P := fun r => r.Blockless ∧ r.Laid)
    (fun hr hP => ⟨(hP.1.rewrites hP.2 hr).1, (hP.1.rewrites hP.2 hr).2.1⟩) hindented
  rw [code_render (fun r hr => (hrules r hr).1) (layOut_laid hindent h).1.ended,
    hpasses.entriesCode_eq fun hr hR => ((hindented _ hr).1.rewrites (hindented _ hr).2 hR).2.2,
    hfirst]

end Document

/-- Formatting with the indentation pass keeps the code of a text without braces and quotes exactly
when no line goes on with a production that ends in a comment. -/
theorem code_format {style : Style} (hindent : style.indent.enabled = true) {text : Text}
    {d : Document} (hbare : text.Bare) (h : Document.parse text = .ok d) :
    ∃ formatted, format style text = .ok formatted ∧
      (code formatted = code text ↔
        Scan.findLine? Scan.swallows Scan.start (lines text) = none) := by
  refine ⟨(d.layOut style).render, by rw [format, h]; rfl, ?_⟩
  obtain ⟨hsame, hlost⟩ := Document.parse_code hbare h
  rw [Document.code_layOut hindent hbare h]
  refine ⟨fun heq => ?_, hsame⟩
  by_contra hsome
  have hlt := hlost hsome
  rw [heq] at hlt
  exact Nat.lt_irrefl _ hlt

/-- The symbol on the line below the comment is written behind the hash mark. -/
theorem code_format_swallowed :
    ∃ formatted, format {} (bytes "a: b # c\n  d\n") = .ok formatted ∧
      Scan.findLine? Scan.swallows Scan.start (lines (bytes "a: b # c\n  d\n"))
        = some (bytes "  d\n") ∧
      code formatted ≠ code (bytes "a: b # c\n  d\n") := by
  have h : Document.parse (bytes "a: b # c\n  d\n")
      = .ok ⟨[.rule { name := bytes "a", line := 1, productions := [bytes "b # c d"] }]⟩ := by
    decide +kernel
  have hl : Scan.findLine? Scan.swallows Scan.start (lines (bytes "a: b # c\n  d\n"))
      = some (bytes "  d\n") := by decide +kernel
  have hbare : Text.Bare (bytes "a: b # c\n  d\n") := by
    unfold Text.Bare
    decide +kernel
  obtain ⟨formatted, hformat, hiff⟩ :=
    code_format (rfl : ({} : Style).indent.enabled = true) hbare h
  refine ⟨formatted, hformat, hl, fun heq => ?_⟩
  have hnone := hiff.1 heq
  rw [hl] at hnone
  exact absurd hnone (by simp)

end GrammarLayout
