import GrammarLayout.Proofs.Grammar.Shape
import GrammarLayout.Proofs.Pass.Alphabet

/-!
# The shape of a document through all passes

A rule that was read is shaped: its productions are single lines with something
on them, all but the first behind a pipe, and its blocks are balanced and in
the order of the productions they follow.  Every pass keeps this, whatever it
is run on, and carries every rule over: its name, its line, its number of
productions and each of its blocks.

What is proved here:

* `newline_notMem_of_over` — a production that a pass rewrites stays one line;
* `Rule.Shaped.rewrite` — each rewrite of a rule keeps its shape and carries it
  over;
* `Document.parse_shaped` — the same for any passes, run in any order with any
  styles on a document that was read.
-/

namespace GrammarLayout

open Ascii Text

/-! ## Productions stay on one line -/

/-- What keeps a text in every alphabet with the signs of a line keeps it on one line. -/
theorem newline_notMem_of_over {f : Text → Text} {p : Text}
    (hf : LineSigns (· ≠ newline) → Over (· ≠ newline) p → Over (· ≠ newline) (f p))
    (hp : newline ∉ p) : newline ∉ f p :=
  over_ne.1 (hf lineSigns_ne_newline (over_ne.2 hp))

/-! ## Shaped rules -/

theorem hasPipe_of_firstSign {p : Text} (h : firstSign p = some pipe) : hasPipe p = true := by
  obtain ⟨w, rest, rfl, hw, -⟩ := firstSign_eq_some h
  rw [Rule.hasPipe_iff, ink_blanks_append hw, ink_pipe]
  rfl

theorem isSpaces_eq_false_of_hasPipe {p : Text} (h : hasPipe p = true) : isSpaces p = false := by
  rw [Rule.hasPipe_iff] at h
  rw [← Bool.not_eq_true, ← ink_eq_nil_iff]
  intro hnil
  simp [hnil] at h

namespace Rule

/-- The productions of the rule are single lines with something on them, all but the first behind a
pipe; its blocks are balanced and in the order of the productions they follow. -/
structure Shaped (r : Rule) : Prop extends r.Ordered, r.Plain

/-- The rule `r'` has the name, the line and as many productions as `r`, and every block of `r`, up
to white space. -/
structure Carries (r r' : Rule) : Prop where
  /-- The name is the same. -/
  name : r'.name = r.name
  /-- The line is the same. -/
  line : r'.line = r.line
  /-- No production is added or removed. -/
  productions : r'.productions.length = r.productions.length
  /-- No block is removed, and those of `r` keep their order. -/
  actions : (r.actions.map Action.imprint).Sublist (r'.actions.map Action.imprint)

theorem Carries.refl (r : Rule) : r.Carries r := ⟨rfl, rfl, rfl, List.Sublist.refl _⟩

theorem Carries.trans {r r' r'' : Rule} (h : r.Carries r') (h' : r'.Carries r'') :
    r.Carries r'' :=
  ⟨h'.name.trans h.name, h'.line.trans h.line, h'.productions.trans h.productions,
    h.actions.trans h'.actions⟩

namespace Shaped

variable {r r' : Rule}

/-- A rule with the same blocks, up to white space, is shaped when its productions are. -/
theorem of_imprints (h : r.Shaped) (hname : r'.name = r.name)
    (hlen : r'.productions.length = r.productions.length)
    (hfirst : ∀ p ∈ r'.productions.head?, isSpaces p = false)
    (hpiped : ∀ p ∈ r'.productions.tail, hasPipe p = true)
    (hline : ∀ p ∈ r'.productions, newline ∉ p)
    (hactions : r'.actions.map Action.imprint = r.actions.map Action.imprint)
    (hproduction : ∀ c ∈ r'.productionIndent, isBlank c = true)
    (hterminator : ∀ c ∈ r'.terminatorIndent, isBlank c = true) : r'.Shaped := by
  refine ⟨h.toOrdered.of_imprints hactions hlen hpiped hproduction hterminator,
    by rw [hname]; exact h.name, ?_, hline, ?_⟩
  · cases hps : r'.productions with
    | nil => simp
    | cons p ps =>
      rw [hps] at hfirst hpiped
      intro q hq
      rcases List.mem_cons.1 hq with rfl | hq
      · exact hfirst q rfl
      · exact isSpaces_eq_false_of_hasPipe (hpiped q hq)
  · intro a ha
    obtain ⟨b, hb, -, hink⟩ := exists_imprint hactions a ha
    rw [← braceBalance_of_ink hink]
    exact h.balanced b hb

/-- A respaced rule is shaped when its productions stay on one line. -/
theorem of_respaced (h : r.Shaped) (hr : r.Respaced r')
    (hline : ∀ p ∈ r'.productions, newline ∉ p) : r'.Shaped := by
  have hlen : r'.productions.length = r.productions.length := by
    simpa using congrArg List.length hr.productions
  refine h.of_imprints hr.name hlen (fun p hp => ?_) (hr.ordered h.toOrdered).piped hline hr.actions
    hr.productionIndent hr.terminatorIndent
  have hmem : ink p ∈ r.productions.map ink := by
    rw [← hr.productions]
    exact List.mem_map_of_mem (List.mem_of_mem_head? hp)
  obtain ⟨q, hq, hink⟩ := List.mem_map.1 hmem
  exact isSpaces_eq_false_of_ink hink.symm (h.inked q hq)

/-! ### Blocks at the end of productions -/

theorem unlifted_cases (p : Text) : unlifted p = p ∨
    ∃ inner, splitInline? p = some (unlifted p, inner) ∧ isSpaces (unlifted p) = false := by
  unfold unlifted
  cases hl : liftable? p with
  | none => exact Or.inl rfl
  | some parts =>
    refine Or.inr ⟨parts.2, splitInline?_of_liftable? hl, ?_⟩
    rw [liftable?, Option.filter_eq_some_iff] at hl
    -- What is left beyond a pipe is not blank.
    by_contra hblank
    rw [Bool.not_eq_false, Option.map_some, Option.getD_some] at hblank
    rw [trim_eq_nil_iff.2 hblank] at hl
    simp [dropStart, startsWith, isSpaces] at hl

theorem balanced_lifted? {i : Nat} {p : Text} {a : Action} (h : lifted? i p = some a) :
    braceBalance a.text = 0 := by
  obtain ⟨parts, hparts, rfl⟩ := Option.map_eq_some_iff.1 h
  obtain ⟨b, rest, hblock, -, -, hinner⟩ := splitInline?_eq (splitInline?_of_liftable? hparts)
  have hbalance := firstBlock?_balance hblock
  rw [Action.ofText, braceBalance_of_ink (ink_trimLayoutEnd _),
    show bytes " \x7b" = [space, openBrace] from rfl, hinner]
  simp [hbalance]

theorem sublist_insertOwned (a : Action) (as : List Action) : as.Sublist (insertOwned a as) := by
  have has : (as.takeWhile (·.owner < a.owner) ++ as.dropWhile (·.owner < a.owner)).Sublist
      (insertOwned a as) :=
    (List.Sublist.refl _).append (List.sublist_cons_self a _)
  rwa [List.takeWhile_append_dropWhile] at has

theorem sublist_liftInto (as : List Action) (i : Nat) (ps : List Text) :
    as.Sublist (liftInto as i ps) := by
  unfold liftInto
  generalize liftedActions i ps = ls
  induction ls generalizing as with
  | nil => exact List.Sublist.refl _
  | cons a ls ih => exact (sublist_insertOwned a as).trans (ih _)

theorem liftActions (h : r.Shaped) : r.liftActions.Shaped ∧ r.Carries r.liftActions := by
  have hname : r.liftActions.name = r.name := rfl
  refine ⟨⟨h.toOrdered.liftActions, by rw [hname]; exact h.name, ?_, ?_, ?_⟩, rfl, rfl, ?_, ?_⟩
  · rw [liftActions_eq]
    intro q hq
    obtain ⟨p, hp, rfl⟩ := List.mem_map.1 hq
    rcases unlifted_cases p with heq | ⟨-, -, hink⟩
    · rw [heq]
      exact h.inked p hp
    · exact hink
  · rw [liftActions_eq]
    intro q hq
    obtain ⟨p, hp, rfl⟩ := List.mem_map.1 hq
    exact newline_notMem_of_over (fun _ => over_unlifted) (h.oneLine p hp)
  · intro a ha
    rcases mem_liftInto ha with ha | ⟨j, -, p, -, hp⟩
    · exact h.balanced a ha
    · exact balanced_lifted? hp
  · rw [liftActions_eq, List.length_map]
  · exact (sublist_liftInto r.actions 0 r.productions).map _

/-! ### Rewrites -/

theorem indentBy {unit : Text} (hunit : ∀ c ∈ unit, isBlank c = true) (h : r.Shaped) :
    (r.indentBy unit).Shaped ∧ r.Carries (r.indentBy unit) := by
  obtain ⟨hlifted, hcarries⟩ := h.liftActions
  have hrespaced := respaced_indentBy hunit h.toOrdered
  refine ⟨hlifted.of_respaced hrespaced fun q hq => ?_, hcarries.trans ⟨rfl, rfl, ?_, ?_⟩⟩
  · obtain ⟨i, hi, rfl⟩ := List.mem_mapIdx.1 hq
    refine newline_notMem_of_over (fun hS => over_indentProduction hS ?_ i)
      (hlifted.oneLine _ (List.getElem_mem hi))
    exact over_ne.2 (newline_notMem_of_blanks hunit)
  · simp [Rule.indentBy]
  · rw [hrespaced.actions]

theorem placeBraces (style : BraceStyle) (h : r.Shaped) :
    (r.placeBraces style).Shaped ∧ r.Carries (r.placeBraces style) := by
  have hrespaced := respaced_placeBraces style h.toOrdered
  exact ⟨h.of_respaced hrespaced h.oneLine, rfl, rfl, rfl, by rw [hrespaced.actions]⟩

/-- Spacing may write more than was there when a pipe stands behind white space that is no blank;
the shape is kept all the same. -/
theorem spaceSigns (style : SpacingStyle) (h : r.Shaped) :
    (r.spaceSigns style).Shaped ∧ r.Carries (r.spaceSigns style) := by
  have hactions : (r.spaceSigns style).actions.map Action.imprint
      = r.actions.map Action.imprint := by
    simp only [Rule.spaceSigns]
    split
    · exact map_imprint fun a ha => Action.imprint_spaceLines (h.framed a ha)
    · rfl
  have hlen : (r.spaceSigns style).productions.length = r.productions.length := by
    simp [Rule.spaceSigns]
  refine ⟨h.of_imprints rfl hlen ?_ ?_ ?_ hactions h.productionIndent h.terminatorIndent, rfl, rfl,
    hlen, by rw [hactions]⟩
  · intro q hq
    rw [Rule.spaceSigns] at hq
    cases hps : r.productions with
    | nil => simp [hps] at hq
    | cons p ps =>
      obtain rfl : spaceProduction style 0 p = q := by simpa [hps, List.mapIdx_cons] using hq
      exact isSpaces_eq_false_of_ink (ink_spaceProduction_zero style p)
        (h.inked p (by rw [hps]; exact List.mem_cons_self))
  · intro q hq
    obtain ⟨i, p, hp, rfl⟩ := exists_of_mem_tail_mapIdx hq
    simp only [spaceProduction, Nat.zero_lt_succ, decide_true, Bool.true_and,
      if_pos (h.piped p hp)]
    have hsign := firstSign_spacePipe style.aroundPipe p
    split
    · exact hasPipe_of_firstSign (firstSign_spaceBlocks hsign)
    · exact hasPipe_of_firstSign hsign
  · intro q hq
    obtain ⟨i, hi, rfl⟩ := List.mem_mapIdx.1 hq
    exact newline_notMem_of_over (over_spaceProduction · style i) (h.oneLine _ (List.getElem_mem hi))

theorem alignPipes (h : r.Shaped) : r.alignPipes.Shaped ∧ r.Carries r.alignPipes := by
  have hrespaced := respaced_alignPipes h.toOrdered
  rcases alignPipes_cases h.toOrdered with hsame | ⟨first, later, hps, -, heq⟩
  · rw [hsame]
    exact ⟨h, Carries.refl r⟩
  · rw [heq] at hrespaced ⊢
    refine ⟨h.of_respaced hrespaced fun q hq => ?_, rfl, rfl, by simp [hps], by
      rw [hrespaced.actions]⟩
    have hold : ∀ p ∈ first :: later, newline ∉ p := fun p hp => h.oneLine p (by rwa [hps])
    rcases List.mem_cons.1 hq with rfl | hq
    · exact hold q List.mem_cons_self
    · obtain ⟨p, hp, rfl⟩ := List.mem_map.1 hq
      rw [List.mem_append, not_or]
      exact ⟨newline_notMem_of_blanks h.productionIndent,
        fun hmem => hold p (List.mem_cons_of_mem _ hp) (mem_of_mem_trim hmem)⟩

theorem alignActions {step : Text} (hstep : ∀ c ∈ step, isBlank c = true) (h : r.Shaped) :
    (r.alignActions step).Shaped ∧ r.Carries (r.alignActions step) := by
  have hrespaced := respaced_alignActions (isSpaces_of_blanks hstep) h.toOrdered
  refine ⟨h.of_respaced hrespaced fun q hq => ?_, rfl, rfl, by simp [Rule.alignActions], by
    rw [hrespaced.actions]⟩
  obtain ⟨p, hp, rfl⟩ := List.mem_map.1 hq
  exact newline_notMem_of_over (over_alignInline ·) (h.oneLine p hp)

/-- Each rewrite of a rule keeps its shape and carries the rule over. -/
theorem rewrite {style : Style} (h : r.Shaped) (hr : r.Rewrite style r') :
    r'.Shaped ∧ r.Carries r' := by
  have hunit := style.indent.isBlank_of_mem_unit
  cases hr with
  | indented => exact h.indentBy hunit
  | bracesPlaced => exact h.placeBraces style.brace
  | signsSpaced => exact h.spaceSigns style.spacing
  | padded n =>
    have hpadded : Ordered { r with namePadding := n } := { h.toOrdered with }
    exact ⟨⟨hpadded, { h.toPlain with }⟩, rfl, rfl, rfl, List.Sublist.refl _⟩
  | pipesAligned => exact h.alignPipes
  | actionsAligned => exact h.alignActions hunit

theorem rewrites {style : Style} (h : r.Shaped) (hr : r.Rewrites style r') :
    r'.Shaped ∧ r.Carries r' := by
  induction hr with
  | refl => exact ⟨h, Carries.refl r⟩
  | tail _ hlast ih =>
    obtain ⟨hshaped, hcarries⟩ := ih.1.rewrite hlast
    exact ⟨hshaped, ih.2.trans hcarries⟩

end Shaped

end Rule

/-! ## Documents -/

theorem Action.Framed.openBrace_mem {a : Action} (h : a.Framed) :
    openBrace ∈ a.text ∧ isSpaces (a.text.takeWhile (· != openBrace)) = true := by
  have hmem : openBrace ∈ a.text := mem_of_mem_ink (List.mem_of_mem_head? h)
  have hlead := h.isSpaces_lead
  rw [Action.lead, if_pos (List.contains_iff_mem.2 hmem)] at hlead
  exact ⟨hmem, hlead⟩

namespace Document

/-- Runs passes one after the other, each with a style of its own. -/
def runEach (runs : List (PassName × Style)) (d : Document) : Document :=
  runs.foldl (fun d run => run.1.run run.2 d) d

/-- Passes keep the shape of every rule and carry it over. -/
theorem runEach_relaid (runs : List (PassName × Style)) (d : Document) :
    Relaid (fun r r' => r.Shaped → r'.Shaped ∧ r.Carries r') d.entries (d.runEach runs).entries := by
  induction runs generalizing d with
  | nil => exact Relaid.refl (fun r h => ⟨h, Rule.Carries.refl r⟩) d.entries
  | cons run runs ih =>
    have hfirst : Relaid (fun r r' => r.Shaped → r'.Shaped ∧ r.Carries r') d.entries
        (run.1.run run.2 d).entries :=
      (run.1.run_relaid run.2 d).mono fun hr h => h.rewrites hr
    refine Relaid.trans (fun h h' hshaped => ?_) hfirst (ih (run.1.run run.2 d))
    obtain ⟨hnext, hcarries⟩ := h hshaped
    exact ⟨(h' hnext).1, hcarries.trans (h' hnext).2⟩

/-- Whatever passes are run on a document that was read, in any order and with any styles, every
rule is shaped, and apart from inserted blank lines the entries are those that were read, each rule
carried over. -/
theorem parse_shaped {text : Text} {d : Document} (h : Document.parse text = .ok d)
    (runs : List (PassName × Style)) :
    (∀ r ∈ (d.runEach runs).rules, r.Shaped ∧ ∀ a ∈ r.actions,
      openBrace ∈ a.text ∧ isSpaces (a.text.takeWhile (· != openBrace)) = true) ∧
    List.Forall₂ (Entry.Relaid Rule.Carries) d.entries
      ((d.runEach runs).entries.filter fun e => !e.inserted) := by
  have hplain := parse_plain h
  have hshaped : ∀ r, .rule r ∈ d.entries → r.Shaped :=
    fun r hr => ⟨parse_ordered h r hr, hplain _ hr⟩
  have hrun := d.runEach_relaid runs
  constructor
  · intro r hr
    have hr' := hrun.forall_rules (P := Rule.Shaped) (fun hR h => (hR h).1) hshaped r
      (mem_rules.1 hr)
    exact ⟨hr', fun a ha => (hr'.framed a ha).openBrace_mem⟩
  · refine hrun.forall₂ (fun hr hR => (hR (hshaped _ hr)).2) fun e he => ?_
    cases e with
    | verbatim v => exact hplain _ he
    | rule r => rfl

/-- A comment, a block behind a symbol and a block on several lines, with four passes out of
order. -/
theorem parse_shaped_out_of_order :
    ∃ d, Document.parse (bytes "# c\na: b \x7bx=1\x7d\n|c \x7b\n y\n\x7d\n") = .ok d ∧
      (∀ r ∈ (d.runEach [(.emptyLine, {}), (.spacing, {}), (.indent, { indent := { size := 4 } }),
          (.alignment, {})]).rules, r.Shaped ∧ ∀ a ∈ r.actions,
        openBrace ∈ a.text ∧ isSpaces (a.text.takeWhile (· != openBrace)) = true) ∧
      List.Forall₂ (Entry.Relaid Rule.Carries) d.entries
        ((d.runEach [(.emptyLine, {}), (.spacing, {}), (.indent, { indent := { size := 4 } }),
          (.alignment, {})]).entries.filter fun e => !e.inserted) := by
  have h : Document.parse (bytes "# c\na: b \x7bx=1\x7d\n|c \x7b\n y\n\x7d\n")
      = .ok ⟨[.verbatim ⟨bytes "# c\n", false⟩, .rule
          { name := bytes "a", line := 2
            productions := [bytes "b \x7bx=1\x7d", bytes "|c"]
            actions := [⟨bytes " \x7b\n y\n\x7d", 1, 3⟩] }]⟩ := by decide +kernel
  exact ⟨_, h, parse_shaped h _⟩

end Document

end GrammarLayout
