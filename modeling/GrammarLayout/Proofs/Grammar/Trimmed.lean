import GrammarLayout.Proofs.Grammar.Cut
import GrammarLayout.Proofs.Grammar.SingleBlock

/-!
# Trimmed actions

An action is made and given another text in one way each, and both leave out the
layout at the end of the text.  So every action of a document that was read is
trimmed.

What is proved here:

* `Scan.Step.trimmed` — a step of the reader keeps the actions trimmed;
* `Document.parse_trimmed` — the actions of a document that was read are
  trimmed.
-/

namespace GrammarLayout

open Ascii Text

/-- All actions of an entry are trimmed. -/
def Entry.Trimmed (e : Entry) : Prop := ∀ a ∈ e.actions, a.Trimmed

/-- All actions of a document are trimmed. -/
def Document.Trimmed (d : Document) : Prop := ∀ e ∈ d.entries, e.Trimmed

namespace Scan

/-- All actions read so far are trimmed. -/
abbrev Trimmed (s : Scan) : Prop := s.Holds Entry.Trimmed fun _ => True

variable {s s' : Scan} {r : OpenRule} {line : Text} {t : Option Text}

theorem trimmed_verbatim (v : Verbatim) : (Entry.verbatim v).Trimmed := by
  simp [Entry.Trimmed, Entry.actions]

/-- Adding productions to the open rule leaves its actions trimmed. -/
theorem Trimmed.readProductions (h : s.Trimmed) (hr : s.openRule? = some r) {rule : Rule} {text : Text}
    {header : Bool} (hread : r.rule.readProductions text header = .ok rule) :
    (Entry.rule rule).Trimmed := by
  intro a ha
  have hkept : a ∈ r.rule.actions := by
    rw [← Rule.actions_readProductions hread]
    exact ha
  exact h.rule hr a hkept

theorem BodyStep.trimmed {header : Bool} (h : s.Trimmed) (hr : s.openRule? = some r)
    (hstep : s.BodyStep r line header s' t) : s'.Trimmed := by
  cases hstep with
  | closed => exact h.leave (Or.inl rfl)
  | opened => exact h.withAction hr (h.rule hr) trivial
  | openedBehind _ _ _ _ hread => exact h.withAction hr (h.readProductions hr hread) trivial
  | productions _ _ _ hread => exact h.withRule hr (h.readProductions hr hread)
  | terminated _ _ _ hread =>
    exact (h.withRule hr (h.readProductions hr hread)).leave (Or.inl rfl)

theorem ActionStep.trimmed {a : OpenAction} (h : s.Trimmed) (hmode : s.mode = .action r a)
    (hstep : s.ActionStep r a line s') : s'.Trimmed := by
  have hr : s.openRule? = some r := by simp [openRule?, hmode]
  -- The action that is added was just made.
  have hadded : ∀ text, (s.withRule r (r.rule.addAction
      (Action.ofText text a.owner a.line))).Trimmed := by
    intro text
    refine h.withRule hr fun b hb => ?_
    rcases List.mem_append.1 hb with hb | hb
    · exact h.rule hr b hb
    · rw [List.mem_singleton.1 hb]
      exact Action.trimmed_ofText _ _ _
  cases hstep with
  | longer => exact h.withAction hr (h.rule hr) trivial
  | closed => exact hadded _
  | terminated => exact (hadded _).leave (Or.inl rfl)

/-- A step of the reader keeps the actions trimmed. -/
theorem Step.trimmed {raw : Text} (h : s.Trimmed) (hstep : s.Step raw s' t) : s'.Trimmed := by
  have hnew : ∀ name, (s.leave (.body (s.newRule name))).Trimmed := fun name =>
    h.leave_newRule (by simp [Entry.Trimmed, Entry.actions, newRule])
  cases hstep with
  | footer => exact h.keep (trimmed_verbatim _)
  | action hmode hstep => exact hstep.trimmed h hmode
  | aside => exact h.keep (trimmed_verbatim _)
  | marker => exact (h.leave (Or.inr rfl)).keep (trimmed_verbatim _)
  | header => exact hnew _
  | headerComment => exact (hnew _).keep (trimmed_verbatim _)
  | headerBody _ _ _ hstep => exact hstep.trimmed (hnew _) rfl
  | stop => exact (h.leave (Or.inl rfl)).keep (trimmed_verbatim _)
  | outside => exact h.keep (trimmed_verbatim _)
  | body hmode _ _ _ _ _ hstep => exact hstep.trimmed h (by simp [openRule?, hmode])

theorem LineSteps.trimmed {raw : Text} (h : s.Trimmed) (hsteps : LineSteps s raw s') :
    s'.Trimmed := by
  induction hsteps with
  | last hstep => exact hstep.trimmed h
  | more hstep _ ih => exact ih (hstep.trimmed h)

theorem Reads.trimmed {ls : List Text} (h : s.Trimmed) (hreads : Reads s ls s') : s'.Trimmed := by
  induction hreads with
  | nil => exact h
  | @cons s next s' l ls hline _ ih =>
    exact ih ((line_lineSteps hline).trimmed (h.withLines (s.lines + 1)))

end Scan

/-- The actions of a document that was read are trimmed. -/
theorem Document.parse_trimmed {text : Text} {d : Document} (h : Document.parse text = .ok d) :
    d.Trimmed := by
  obtain ⟨s, hreads, hentries, -⟩ := parse_cases h
  rw [Document.Trimmed, hentries]
  exact (hreads.trimmed Scan.Holds.start).entries

end GrammarLayout
