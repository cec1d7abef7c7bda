import GrammarLayout.Proofs.Forall2
import GrammarLayout.Proofs.Grammar.ActionPlace
import GrammarLayout.Proofs.Pass.Leads

/-!
# Braces of blocks

The alignment pass measures the line that holds the opening brace of a block
before the rule is written: the layout in front of the brace when the brace is
on a line of its own, and the production it follows otherwise.  What it measures
is the indentation that this line is written with, because productions are
indented by blanks and plain white space stands in front of blocks.

What is proved here:

* `Rule.Neat.exists_opening` — the line that an opening brace is written on;
* `Rule.Measured.exists_aligned`, `BlockLines.linedUp_of_moveLines` — the lines
  of a block that is lined up;
* `action_braces_line_up` — both for the result of any passes that end with the
  alignment pass.
-/

namespace GrammarLayout

open Ascii Text

/-! ## The line of an opening brace -/

namespace Rule

variable {r : Rule}

/-- The line of a production is its indentation and what stands behind it. -/
theorem Shaped.exists_productionLine (h : r.Shaped) {i : Nat} {p : Text}
    (hp : r.productions[i]? = some p) : newline ∉ r.productionLine i p ∧ ∃ code,
      r.productionLine i p = r.lineIndent i ++ code ∧ code ≠ [] ∧
      ∀ c ∈ code.head?, isBlank c = false := by
  have hmem := List.mem_of_getElem? hp
  have hink := h.inked p hmem
  have hline := h.oneLine p hmem
  have hindent : r.lineIndent i
      = if i = 0 ∨ !hasPipe p then r.productionIndent else leadingBlanks p := by
    rw [lineIndent, if_neg (by omega), Int.toNat_natCast, hp]
    simp
  by_cases hi : i = 0
  · rw [productionLine, if_pos hi, hindent, if_pos (Or.inl hi)]
    refine ⟨?_, trim p, rfl, fun hnil => ?_, (startsVisible_trim p).head?⟩
    · rw [List.mem_append, not_or]
      exact ⟨newline_notMem_of_blanks h.productionIndent, fun hc => hline (mem_of_mem_trim hc)⟩
    · rw [trim_eq_nil_iff, hink] at hnil
      exact absurd hnil (by decide)
  · have hpipe : hasPipe p = true := by
      refine h.piped p (List.mem_of_getElem? (i := i - 1) ?_)
      rw [List.getElem?_tail, Nat.sub_add_cancel (Nat.pos_of_ne_zero hi), hp]
    rw [productionLine, if_neg hi, if_pos hpipe, hindent, if_neg (by simp [hi, hpipe])]
    exact ⟨fun hc => hline (mem_of_mem_trimEndWhile hc), lineCore p, trimBlanksEnd_eq_of_ink hink,
      lineCore_of_ink hink⟩

theorem Neat.measured (h : r.Neat) : r.Measured :=
  ⟨h.productionIndent, fun a ha => (h.actions a ha).mem_lead⟩

/-- Behind a production, or on a line of its own, the line of an opening brace has the indentation
that is measured. -/
theorem Neat.exists_opening (h : r.Neat) {a : Action} (ha : a.Neat) {i : Nat} {p : Text}
    (hi : a.owner = i) (hp : r.productions[i]? = some p) {between : Text}
    (hplace : a.onOwnLine = true ∨ between = []) (front : Text) : ∃ x opening,
      front ++ newline :: (r.productionLine i p ++ between) ++ a.lead = x ++ newline :: opening ∧
      newline ∉ opening ∧ ∀ s, leadingBlanks (opening ++ openBrace :: s) = r.braceIndent a := by
  have hblank := h.measured.isBlank_of_mem_braceIndent ha.mem_lead
  cases hlast : afterLastNewline? a.lead with
  | some indent =>
    obtain ⟨x, hlead, hnone⟩ := exists_of_afterLastNewline? hlast
    have hindent : r.braceIndent a = indent := by rw [braceIndent, hlast]
    refine ⟨front ++ newline :: (r.productionLine i p ++ between) ++ x, indent, ?_, hnone,
      fun s => ?_⟩
    · rw [hlead, List.append_assoc _ x]
    · rw [← hindent]
      exact leadingBlanks_append hblank (by simp; decide)
  | none =>
    have hnone : newline ∉ a.lead := by
      intro hmem
      rw [afterLastNewline?, if_pos (List.contains_iff_mem.2 hmem)] at hlast
      cases hlast
    obtain rfl : between = [] :=
      hplace.resolve_left fun hown => hnone (List.contains_iff_mem.1 hown)
    have hindent : r.braceIndent a = r.lineIndent i := by
      rw [braceIndent, hlast, hi]
      exact if_neg (by omega)
    obtain ⟨hline, code, hcode, hne, hhead⟩ := h.toShaped.exists_productionLine hp
    refine ⟨front, r.productionLine i p ++ a.lead, by simp, ?_, fun s => ?_⟩
    · rw [List.mem_append, not_or]
      exact ⟨hline, hnone⟩
    · obtain ⟨c, t, rfl⟩ := List.exists_cons_of_ne_nil hne
      rw [hcode, ← hindent, List.append_assoc, List.append_assoc]
      exact leadingBlanks_append hblank hhead

end Rule

/-! ## The lines of a block -/

/-- The line `l'` stands for `l`; it is the same if one of them is blank. -/
def SameIfBlank (l l' : Text) : Prop :=
  isSpaces l' = isSpaces l ∧ (isSpaces l = true → l' = l)

namespace BlockLines

/-- The closing brace stands below the line of the opening one, and the code between them is one
step deeper. -/
structure LinedUp (step : Text) (ls : BlockLines) : Prop where
  /-- The last line starts with the brace, at the indentation of the opening one. -/
  closing : ∃ rest, ls.last = ls.indent ++ closeBrace :: rest
  /-- Lines of code are at least one step deeper. -/
  deeper : ∀ l ∈ ls.between, isSpaces l = false → ∃ rest, l = ls.indent ++ step ++ rest
  /-- One of them is one step deeper. -/
  least : (∃ l ∈ ls.between, isSpaces l = false) →
    ∃ l ∈ ls.between, isSpaces l = false ∧ leadingBlanks l = ls.indent ++ step

/-- Lines that are moved to one step behind the indentation of the opening brace are lined up. -/
theorem linedUp_of_moveLines {ls : BlockLines} {step rest : Text} {old : List Text}
    (hblank : ∀ c ∈ ls.indent ++ step, isBlank c = true)
    (hlast : ls.last = ls.indent ++ closeBrace :: rest)
    (hbetween : ls.between = moveLines id (ls.indent ++ step) old) :
    ls.LinedUp step ∧ List.Forall₂ SameIfBlank old ls.between := by
  have hspaces := isSpaces_moveLine hblank (leastIndent old)
  rw [hbetween]
  refine ⟨⟨⟨rest, hlast⟩, ?_, ?_⟩, ?_⟩
  · rw [hbetween]
    refine List.forall_mem_map.2 fun l _ hl => ?_
    rw [hspaces] at hl
    rw [moveLine_of_ink hl, rebaseLine_of_ink hl, List.append_assoc]
    exact ⟨_, rfl⟩
  · rw [hbetween]
    rintro ⟨_, hmem, hink⟩
    obtain ⟨k, hk, rfl⟩ := List.mem_map.1 hmem
    rw [hspaces] at hink
    -- The least indented line keeps nothing of its indentation.
    obtain ⟨l, hl, hlink, hleast⟩ := (leastIndent_spec ⟨k, hk, hink⟩).1
    refine ⟨_, List.mem_map_of_mem hl, (hspaces l).trans hlink, ?_⟩
    rw [moveLine_of_ink hlink, (parts_rebaseLine hblank _ hlink).1, ← hleast, List.drop_length,
      List.append_nil]
  · refine List.forall₂_map_right_iff.2 (List.forall₂_same.2 fun l _ => ⟨hspaces l, fun hl => ?_⟩)
    exact moveLine_of_isSpaces hl id _ _

end BlockLines

/-- Does the last line of a block start with a closing brace? -/
def Action.closesOnLastLine (a : Action) : Bool :=
  (splitLines a.body).getLast?.any fun l => startsWith [closeBrace] (trim l)

theorem Rule.owner_alignBlock (r : Rule) (step : Text) (a : Action) :
    (r.alignBlock step a).owner = a.owner := by
  unfold alignBlock
  split
  · split <;> rfl
  · rfl

/-- Lining up a block on one line leaves it there. -/
theorem Rule.multiline_of_alignBlock {r : Rule} {step : Text} {a : Action}
    (h : (r.alignBlock step a).multiline = true) : a.multiline = true := by
  by_contra hone
  rw [Bool.not_eq_true] at hone
  rw [alignBlock_of_not_multiline hone, hone] at h
  cases h

/-- A block that starts its last line with a closing brace when it is lined up has done so before;
this brace goes to the indentation of the opening one, and the code one step deeper. -/
theorem Rule.Measured.exists_aligned {r : Rule} (h : r.Measured) {step : Text}
    (hstep : ∀ c ∈ step, isBlank c = true) {a : Action} (ha : a.Neat) (hmulti : a.multiline = true)
    (hcloses : (r.alignBlock step a).closesOnLastLine = true) :
    (r.alignBlock step a).lead = a.lead ∧ ∃ first between last rest,
      splitLines a.body = first :: (between ++ [last]) ∧ trim last = closeBrace :: rest ∧
      splitLines (r.alignBlock step a).body
        = first :: (moveLines id (r.braceIndent a ++ step) between
            ++ [r.braceIndent a ++ closeBrace :: rest]) := by
  have hbase := h.isBlank_of_mem_braceIndent ha.mem_lead
  have hnewline : newline ∈ a.body := List.contains_iff_mem.1 hmulti
  have halign := alignBlock_of_multiline hmulti step r
  set base := r.braceIndent a
  obtain ⟨hlines, hkept⟩ := trimLayout_alignedBody base step hnewline ha.trimmed.body
  obtain ⟨-, hlead, hbody⟩ :=
    (a.cut.alignedBody hbase hstep).setText (List.ne_nil_of_mem hlines) a
  obtain ⟨first, between, last, hsplit⟩ := exists_splitLines_of_newline_mem hnewline
  have haligned : splitLines (r.alignBlock step a).body
      = first :: alignBelow base step (between ++ [last]) := by
    rw [halign, hbody, hkept, splitLines_alignedBody hbase hstep hsplit]
  rw [alignBelow_concat] at haligned
  have hclosing : startsWith [closeBrace] (trim last) = true := by
    by_contra hnone
    rw [Bool.not_eq_true] at hnone
    rw [hnone, if_neg Bool.false_ne_true, alignContent_eq, moveLines, List.map_append] at haligned
    rw [Action.closesOnLastLine, haligned, List.map_singleton, ← List.cons_append,
      List.getLast?_concat, Option.any_some,
      startsWith_closeBrace_moveLine (isBlank_of_mem_append hbase hstep), hnone] at hcloses
    exact absurd hcloses (by decide)
  obtain ⟨rest, hrest⟩ := List.head?_eq_some_iff.1 (startsWith_singleton_iff.1 hclosing)
  rw [hclosing, if_pos rfl, hrest, alignContent_eq] at haligned
  rw [← halign] at hlead
  exact ⟨hlead, first, between, last, rest, hsplit, hrest, haligned⟩

/-- An action that stands behind its production, or on a line of its own, has lines around it, and
the line of its opening brace has the indentation that is measured. -/
theorem Document.ActionPlace.exists_lines {d : Document} (q : d.ActionPlace) (h : q.rule.Neat)
    (howner : 0 ≤ q.action.owner) (hplace : q.action.onOwnLine = true ∨ q.IsFirst)
    {first last : Text} {between : List Text}
    (hbody : splitLines q.action.body = first :: (between ++ [last])) :
    ∃ ls, q.HasLines ls ∧ ls.first = first ∧ ls.between = between ∧ ls.last = last ∧
      ls.indent = q.rule.braceIndent q.action := by
  have haction := h.actions q.action q.mem_actions
  obtain ⟨i, hi⟩ := Int.eq_ofNat_of_zero_le howner
  obtain ⟨p, front, back, hp, hwritten⟩ := q.exists_writtenBetween h.toOrdered hi
  set others := Rule.actionTexts (q.earlier.filter fun a => a.owner = (i : Int)) with hothers
  have hnone : q.action.onOwnLine = true ∨ others = [] := by
    refine hplace.imp_right fun hfirst => ?_
    rw [hothers, List.filter_eq_nil_iff.2 fun a ha => by simpa [hi] using hfirst a ha]
    rfl
  obtain ⟨x, opening, hx, hopening, hindent⟩ := h.exists_opening haction hi hp hnone front
  obtain ⟨tail, below, htail⟩ := List.exists_cons_of_ne_nil (splitLines_ne_nil back)
  refine ⟨⟨splitLines x, opening, first, between, last, tail, below⟩,
    ⟨_, _, hwritten, ?_, hbody, htail⟩, rfl, rfl, rfl, ?_⟩
  · rw [hx, splitLines_append_newline, splitLines_of_notMem hopening]
  · obtain ⟨rest, hrest⟩ := haction.exists_body
    obtain ⟨l, ms, hls⟩ := List.exists_cons_of_ne_nil (splitLines_ne_nil rest)
    rw [hrest, splitLines_cons (by decide) hls] at hbody
    obtain rfl := List.head_eq_of_cons_eq hbody
    exact hindent l

/-! ## The pass -/

/-- How the alignment pass changes a rule when it lines up blocks. -/
def Rule.AlignedAs (style : Style) (r r' : Rule) : Prop :=
  ∃ s, r.Rewrites style s ∧ s.actions = r.actions ∧ r' = s.alignActions style.indent.unit

/-- Lining up blocks changes each rule where it stands, and nothing else. -/
theorem Document.align_forall₂ (width : Text → Nat) {style : Style}
    (h : style.alignment.alignActions = true) (d : Document) :
    List.Forall₂ (Entry.Relaid (Rule.AlignedAs style)) d.entries (d.align width style).entries := by
  have hstep : ∀ {r s : Rule}, r.Rewrites style s → s.actions = r.actions →
      r.AlignedAs style (s.alignActions style.indent.unit) := fun hr ha => ⟨_, hr, ha, rfl⟩
  unfold align
  rw [if_pos h]
  split
  · simp only [mapRules, alignColons, List.map_map, List.forall₂_map_right_iff]
    have hcolons := alignColonsFrom_forall₂ (R := fun r s => ∃ n, s = { r with namePadding := n })
      (fun r n => ⟨n, rfl⟩) width 0 d.entries
    refine hcolons.imp fun e e' he => ?_
    cases he with
    | verbatim v => exact .verbatim v
    | @rule r s hs =>
      obtain ⟨n, rfl⟩ := hs
      refine .rule (hstep (.tail (.single (.padded r n)) (.pipesAligned _)) ?_)
      exact Rule.actions_alignPipes _
  · simp only [mapRules, List.forall₂_map_right_iff]
    refine List.forall₂_same.2 fun e _ => ?_
    cases e with
    | verbatim v => exact .verbatim v
    | rule r => exact .rule (hstep .refl rfl)

/-- An action of a document whose blocks were lined up stands where it stood before. -/
theorem Document.ActionPlace.exists_before_align {width : Text → Nat} {style : Style}
    (h : style.alignment.alignActions = true) {d : Document} (q : (d.align width style).ActionPlace) :
    ∃ (q₀ : d.ActionPlace) (s : Rule), q₀.before.length = q.before.length ∧
      q₀.rule.Rewrites style s ∧ q.rule = s.alignActions style.indent.unit ∧
      q.earlier = q₀.earlier.map (s.inlined.alignBlock style.indent.unit) ∧
      q.action = s.inlined.alignBlock style.indent.unit q₀.action := by
  have hentries := d.align_forall₂ width h
  rw [q.entries_eq] at hentries
  obtain ⟨before, e, after, heq, hlen, he⟩ := exists_of_forall₂_append_cons hentries
  cases he with
  | @rule r _ hr =>
    obtain ⟨s, hs, hactions, hrule⟩ := hr
    have hmap : s.actions.map (s.inlined.alignBlock style.indent.unit)
        = q.earlier ++ q.action :: q.later := by
      rw [← q.actions_eq, hrule]
      rfl
    obtain ⟨earlier, rest, hsplit, hearlier, hrest⟩ := List.map_eq_append_iff.1 hmap
    obtain ⟨a, later, rfl, haction, -⟩ := List.map_eq_cons_iff.1 hrest
    exact ⟨⟨before, r, after, earlier, a, later, heq, hactions ▸ hsplit⟩, s, hlen, hs, hrule,
      hearlier.symm, haction.symm⟩

/-- What the alignment pass makes of the lines of a block. -/
theorem Document.ActionPlace.linedUp_align {width : Text → Nat} {style : Style}
    (hstyle : style.alignment.alignActions = true) {d : Document}
    (hneat : ∀ r, .rule r ∈ d.entries → r.Neat) (q : (d.align width style).ActionPlace)
    (howner : 0 ≤ q.action.owner) (hmulti : q.action.multiline = true)
    (hcloses : q.action.closesOnLastLine = true)
    (hplace : q.action.onOwnLine = true ∨ q.IsFirst) :
    ∃ (q₀ : d.ActionPlace) (ls₀ ls : BlockLines), q₀.before.length = q.before.length ∧
      q₀.earlier.length = q.earlier.length ∧ q₀.HasLines ls₀ ∧ q.HasLines ls ∧
      ls.LinedUp style.indent.unit ∧ List.Forall₂ SameIfBlank ls₀.between ls.between := by
  have hunit := style.indent.isBlank_of_mem_unit
  obtain ⟨q₀, s, hbefore, hs, hrule, hearlier, haction⟩ := q.exists_before_align hstyle
  have hneat₀ : q₀.rule.Neat := hneat _ q₀.mem_entries
  have hneat₁ : s.Neat := hneat₀.rewrites hs
  have hneat₂ : q.rule.Neat := by
    rw [hrule]
    exact hneat₁.rewrite (.actionsAligned s)
  have ha₀ : q₀.action.Neat := hneat₀.actions _ q₀.mem_actions
  have howner₀ : q.action.owner = q₀.action.owner := by rw [haction, Rule.owner_alignBlock]
  have hmulti₀ : q₀.action.multiline = true := by
    rw [haction] at hmulti
    exact Rule.multiline_of_alignBlock hmulti
  rw [haction] at hcloses
  obtain ⟨hlead, first, between, last, rest, hbody₀, -, hbody⟩ :=
    hneat₁.measured.inlined.exists_aligned hunit ha₀ hmulti₀ hcloses
  rw [← haction] at hlead hbody
  have hplace₀ : q₀.action.onOwnLine = true ∨ q₀.IsFirst := by
    refine hplace.imp (fun hown => ?_) fun hfirst => ?_
    · rwa [Action.onOwnLine, ← hlead]
    · exact hfirst.of_map (s.inlined.owner_alignBlock _) hearlier haction
  obtain ⟨ls₀, hlines₀, -, hbetween₀, -, -⟩ :=
    q₀.exists_lines hneat₀ (howner₀ ▸ howner) hplace₀ hbody₀
  obtain ⟨ls, hlines, -, hbetween, hlast, hindent⟩ := q.exists_lines hneat₂ howner hplace hbody
  -- The pass measures the rule that it leaves, up to the blocks.
  have hbase : ls.indent = s.inlined.braceIndent q₀.action := by
    rw [hindent, Rule.braceIndent, Rule.braceIndent, hlead, howner₀, hrule]
    rfl
  have hblank : ∀ c ∈ ls.indent ++ style.indent.unit, isBlank c = true := by
    refine isBlank_of_mem_append ?_ hunit
    rw [hbase]
    exact hneat₁.measured.inlined.isBlank_of_mem_braceIndent ha₀.mem_lead
  rw [← hbase] at hbetween hlast
  obtain ⟨hlined, hsame⟩ := BlockLines.linedUp_of_moveLines hblank hlast hbetween
  rw [← hbetween₀] at hsame
  exact ⟨q₀, ls₀, ls, hbefore, by rw [hearlier, List.length_map], hlines₀, hlines, hlined, hsame⟩

/-- Whatever passes are run on a document that was read from a text without other white space than
spaces, tabs and newlines, when the last of them lines up blocks, the closing brace that starts the
last line of a block stands at the indentation of the line that holds the opening brace, if this
brace is on a line of its own or belongs to the first block of its production.  The code between
them is one step deeper, and blank lines stay as the pass found them. -/
theorem action_braces_line_up {text : Text} {d : Document} (h : Document.parse text = .ok d)
    (htext : PlainSpaces text) {style : Style} (hstyle : style.alignment.alignActions = true)
    (ps : List PassName) (q : (d.runPasses style (ps ++ [.alignment])).ActionPlace)
    (howner : 0 ≤ q.action.owner) (hmulti : q.action.multiline = true)
    (hcloses : q.action.closesOnLastLine = true)
    (hplace : q.action.onOwnLine = true ∨ q.IsFirst) :
    ∃ (q₀ : (d.runPasses style ps).ActionPlace) (ls₀ ls : BlockLines),
      q₀.before.length = q.before.length ∧ q₀.earlier.length = q.earlier.length ∧
      q₀.HasLines ls₀ ∧ q.HasLines ls ∧
      splitLines (d.runPasses style (ps ++ [.alignment])).render = ls.written ∧
      ls.LinedUp style.indent.unit ∧ List.Forall₂ SameIfBlank ls₀.between ls.between := by
  have hruns : d.runPasses style (ps ++ [.alignment]) = (d.runPasses style ps).align Text.width style := by
    rw [Document.runPasses, List.foldl_append]
    rfl
  revert q
  rw [hruns]
  intro q howner hmulti hcloses hplace
  obtain ⟨q₀, ls₀, ls, hbefore, hearlier, hlines₀, hlines, hlined, hsame⟩ :=
    q.linedUp_align hstyle (Document.runPasses_neat h htext style ps) howner hmulti hcloses hplace
  exact ⟨q₀, ls₀, ls, hbefore, hearlier, hlines₀, hlines, q.splitLines_render hlines, hlined, hsame⟩

/-- A block behind the second production, with lines of two depths and a blank line in it. -/
theorem action_braces_line_up_blank_line :
    ∃ (d : Document) (q : (d.runPasses {} ([.spacing] ++ [.alignment])).ActionPlace)
      (ls : BlockLines),
      Document.parse (bytes "a: b\n  | c \x7b\n    x\n\n  y\n\x7d\n;\n") = .ok d ∧
      q.action = ⟨bytes " \x7b\n      x\n\n    y\n  \x7d", 1, 2⟩ ∧ q.IsFirst ∧ q.HasLines ls ∧
      splitLines (d.runPasses {} ([.spacing] ++ [.alignment])).render = ls.written ∧
      ls.LinedUp [space, space] := by
  have h : Document.parse (bytes "a: b\n  | c \x7b\n    x\n\n  y\n\x7d\n;\n")
      = .ok ⟨[.rule ⟨bytes "a", 1, [bytes "b", bytes "  | c"],
        [⟨bytes " \x7b\n    x\n\n  y\n\x7d", 1, 2⟩], true, 0, [space, space], [space, space]⟩]⟩ := by
    decide +kernel
  have htext : PlainSpaces (bytes "a: b\n  | c \x7b\n    x\n\n  y\n\x7d\n;\n") := by
    unfold PlainSpaces
    decide +kernel
  obtain ⟨q, haction, hearlier⟩ : ∃ q : (Document.runPasses {} ([.spacing] ++ [.alignment])
      ⟨[.rule ⟨bytes "a", 1, [bytes "b", bytes "  | c"],
        [⟨bytes " \x7b\n    x\n\n  y\n\x7d", 1, 2⟩], true, 0, [space, space],
        [space, space]⟩]⟩).ActionPlace,
      q.action = ⟨bytes " \x7b\n      x\n\n    y\n  \x7d", 1, 2⟩ ∧ q.earlier = [] :=
    ⟨⟨[], ⟨bytes "a", 1, [bytes "b", bytes "  | c"],
      [⟨bytes " \x7b\n      x\n\n    y\n  \x7d", 1, 2⟩], true, 0, [space, space], [space, space]⟩,
      [], [], _, [], by decide +kernel, rfl⟩, rfl, rfl⟩
  have hfirst : q.IsFirst := by simp [Document.ActionPlace.IsFirst, hearlier]
  obtain ⟨-, -, ls, -, -, -, hlines, hwritten, hlined, -⟩ := action_braces_line_up h htext rfl
    [.spacing] q (by rw [haction]; decide) (by rw [haction]; decide +kernel)
    (by rw [haction]; decide +kernel) (Or.inr hfirst)
  exact ⟨_, q, ls, h, haction, hfirst, hlines, hwritten, hlined⟩

end GrammarLayout
