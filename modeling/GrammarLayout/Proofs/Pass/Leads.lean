import GrammarLayout.Proofs.Grammar.Leads
import GrammarLayout.Proofs.Idempotent.Layout
import GrammarLayout.Proofs.Idempotent.Spacing
import GrammarLayout.Proofs.Pass.Shape

/-!
# What the passes leave in front of blocks

A pass makes an action anew from a lead and a body.  The lead is one it had
before or one that the pass writes, spaces, tabs and a newline; the body starts
with the brace that it started with.

What is proved here:

* `Action.neat_setText` — actions that are made in this way;
* `Rule.Neat.rewrite` — each rewrite of a rule leaves its actions so;
* `Document.runPasses_neat` — the same for any passes on a document that was
  read.
-/

namespace GrammarLayout

open Ascii Text

/-! ## Actions -/

/-- In front of the brace of the action there is plain white space, and behind its text no
layout. -/
structure Action.Neat (a : Action) : Prop where
  /-- Plain white space stands in front of the brace. -/
  led : Text.Led a.text
  /-- No layout stands at the end. -/
  trimmed : a.Trimmed

namespace Action

theorem neat_setText (a : Action) {lead rest : Text}
    (hlead : ∀ c ∈ lead, c = space ∨ c = tab ∨ c = newline) :
    (a.setText (lead ++ openBrace :: rest)).Neat :=
  ⟨Text.Led.trimLayout ⟨lead, rest, rfl, hlead⟩, a.trimmed_setText _⟩

theorem plain_of_blanks {w : Text} (hw : ∀ c ∈ w, isBlank c = true) :
    ∀ c ∈ w, c = space ∨ c = tab ∨ c = newline := by
  intro c hc
  have hblank := hw c hc
  rw [isBlank, Bool.or_eq_true, beq_iff_eq, beq_iff_eq] at hblank
  exact hblank.imp_right Or.inl

theorem plain_newline_cons {w : Text} (hw : ∀ c ∈ w, isBlank c = true) :
    ∀ c ∈ newline :: w, c = space ∨ c = tab ∨ c = newline :=
  List.forall_mem_cons.2 ⟨Or.inr (Or.inr rfl), plain_of_blanks hw⟩

namespace Neat

variable {a : Action} (h : a.Neat)
include h

theorem mem_lead : ∀ c ∈ a.lead, c = space ∨ c = tab ∨ c = newline := (parts_of_led h.led).2

theorem exists_body : ∃ rest, a.body = openBrace :: rest := (parts_of_led h.led).1

theorem indented {unit : Text} (hunit : ∀ c ∈ unit, isBlank c = true) :
    (a.indented unit).Neat := by
  obtain ⟨rest, hbody⟩ := h.exists_body
  obtain ⟨rest', hreflow⟩ : ∃ rest', reflowBlock unit a.body = openBrace :: rest' := by
    rcases reflowBlock_cases unit a.body with ⟨inner, -, hreflow⟩ | ⟨-, hreflow⟩
    · exact ⟨_, hreflow⟩
    · exact ⟨rest, hreflow.trans hbody⟩
  rw [Action.indented, hreflow]
  exact a.neat_setText (plain_newline_cons hunit)

theorem placeBrace (style : BraceStyle) {indent : Text} (hindent : ∀ c ∈ indent, isBlank c = true) :
    (a.placeBrace style indent).Neat := by
  obtain ⟨rest, hbody⟩ := h.exists_body
  unfold Action.placeBrace
  rw [hbody]
  split
  · split
    · refine a.neat_setText (plain_of_blanks ?_)
      split_ifs
      · exact List.forall_mem_singleton.2 rfl
      · exact List.forall_mem_nil _
    · exact h
  · split
    · exact h
    · exact a.neat_setText (plain_newline_cons hindent)

theorem spaceLines : a.spaceLines.Neat := by
  obtain ⟨rest, hbody⟩ := h.exists_body
  obtain ⟨rest', hspaced⟩ := head?_spacedBody (show isLayout openBrace = false from rfl) rest
  have hlines : a.spaceLines = a.setText (a.lead ++ spacedBody a.body) := rfl
  rw [hlines, hbody, hspaced]
  exact a.neat_setText h.mem_lead

theorem alignBlock (step : Text) (r : Rule) : (r.alignBlock step a).Neat := by
  cases hmulti : a.multiline with
  | false => rwa [Rule.alignBlock_of_not_multiline hmulti]
  | true =>
    obtain ⟨rest, hbody⟩ := h.exists_body
    obtain ⟨l, ls, hls⟩ := List.exists_cons_of_ne_nil (splitLines_ne_nil rest)
    obtain ⟨back, hback⟩ := exists_joinLines_cons (openBrace :: l)
      (alignBelow (r.braceIndent a) step ls)
    have haligned : alignedBody (r.braceIndent a) step a.body = openBrace :: (l ++ back) := by
      rw [hbody, alignedBody_eq _ _ (splitLines_cons (by decide) hls), hback]
      rfl
    rw [Rule.alignBlock_of_multiline hmulti, haligned]
    exact a.neat_setText h.mem_lead

end Neat

theorem neat_of_lifted? {i : Nat} {p : Text} {a : Action} (h : lifted? i p = some a) :
    a.Neat := by
  obtain ⟨parts, -, rfl⟩ := Option.map_eq_some_iff.1 h
  refine ⟨Text.Led.trimLayout ⟨[space], parts.2 ++ [closeBrace], rfl, ?_⟩, trimmed_ofText _ _ _⟩
  exact List.forall_mem_singleton.2 (Or.inl rfl)

end Action

/-! ## Rules -/

/-- The rule is shaped, and its actions stand behind plain white space. -/
structure Rule.Neat (r : Rule) : Prop extends r.Shaped where
  /-- Each action stands behind plain white space. -/
  actions : ∀ a ∈ r.actions, a.Neat

namespace Rule.Neat

variable {r r' : Rule} {style : Style}

/-- Each rewrite of a rule leaves plain white space in front of its actions. -/
theorem rewrite (h : r.Neat) (hr : r.Rewrite style r') : r'.Neat := by
  have hunit := style.indent.isBlank_of_mem_unit
  refine ⟨(h.toShaped.rewrite hr).1, ?_⟩
  cases hr with
  | indented =>
    intro b hb
    obtain ⟨a, ha, rfl⟩ := List.mem_map.1 hb
    have hneat : a.Neat := by
      rcases mem_liftInto ha with ha | ⟨j, -, p, -, hp⟩
      · exact h.actions a ha
      · exact Action.neat_of_lifted? hp
    exact hneat.indented hunit
  | bracesPlaced =>
    intro b hb
    obtain ⟨a, ha, rfl⟩ := List.mem_map.1 hb
    exact (h.actions a ha).placeBrace style.brace h.productionIndent
  | signsSpaced =>
    rw [spaceSigns]
    split
    · intro b hb
      obtain ⟨a, ha, rfl⟩ := List.mem_map.1 hb
      exact (h.actions a ha).spaceLines
    · exact h.actions
  | padded => exact h.actions
  | pipesAligned =>
    rw [actions_alignPipes]
    exact h.actions
  | actionsAligned =>
    intro b hb
    obtain ⟨a, ha, rfl⟩ := List.mem_map.1 hb
    exact (h.actions a ha).alignBlock style.indent.unit _

theorem rewrites (h : r.Neat) (hr : r.Rewrites style r') : r'.Neat := by
  induction hr with
  | refl => exact h
  | tail _ hlast ih => exact ih.rewrite hlast

end Rule.Neat

/-! ## Documents -/

/-- Whatever passes are run on a document that was read from a text without other white space than
spaces, tabs and newlines, nothing else stands in front of its blocks. -/
theorem Document.runPasses_neat {text : Text} {d : Document} (h : Document.parse text = .ok d)
    (htext : PlainSpaces text) (style : Style) (ps : List PassName) :
    ∀ r, .rule r ∈ (d.runPasses style ps).entries → r.Neat := by
  refine (d.runPasses_relaid style ps).forall_rules (fun hr hneat => hneat.rewrites hr) ?_
  intro r hr
  refine ⟨⟨parse_ordered h r hr, parse_plain h _ hr⟩, fun a ha => ⟨?_, ?_⟩⟩
  · exact parse_led h htext _ hr a ha
  · exact parse_trimmed h _ hr a ha

end GrammarLayout
