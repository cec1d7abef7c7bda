import GrammarLayout.Grammar.Action
import GrammarLayout.Proofs.Text.Split

/-!
# The lead and the body of an action

The text of an action is cut at its first brace, or behind the layout in front
when it has no brace.  A text that is put together from a lead and a body is cut
at the same place again.

What is proved here:

* `Action.cut` — how the text of an action is cut;
* `Action.Cut.lead_body` — a text made of two such parts is cut into them;
* `Action.Cut.setText` — and so it is without the layout at its end;
* `Action.trimmed_iff`, `Action.Trimmed.body` — actions as they are made.
-/

namespace GrammarLayout

open Ascii Text

namespace Action

theorem lead_append_body (a : Action) : a.lead ++ a.body = a.text := by
  unfold lead body
  split <;> exact List.takeWhile_append_dropWhile

/-- A lead and a body that the text of an action can be cut into. -/
inductive Cut : Text → Text → Prop where
  /-- The body starts with the first brace. -/
  | block {lead rest : Text} (hlead : openBrace ∉ lead) : Cut lead (openBrace :: rest)
  /-- There is no brace, and the body starts behind the layout. -/
  | plain {lead body : Text} (hlead : ∀ c ∈ lead, isLayout c = true) (hbody : openBrace ∉ body)
      (hstart : ∀ c ∈ body.head?, isLayout c = false) : Cut lead body

theorem cut (a : Action) : Cut a.lead a.body := by
  by_cases hbrace : a.text.contains openBrace = true
  · rw [lead, body, if_pos hbrace, if_pos hbrace]
    have hhead := List.head?_dropWhile_not (· != openBrace) a.text
    cases hrest : a.text.dropWhile (· != openBrace) with
    | nil =>
      have hall := List.dropWhile_eq_nil_iff.1 hrest openBrace (List.contains_iff_mem.1 hbrace)
      exact absurd hall (by simp)
    | cons c rest =>
      rw [hrest] at hhead
      obtain rfl : c = openBrace := by simpa using hhead
      refine .block fun hmem => ?_
      have := List.mem_takeWhile_imp hmem
      exact absurd this (by simp)
  · rw [lead, body, if_neg hbrace, if_neg hbrace]
    refine .plain (fun c hc => List.mem_takeWhile_imp hc) (fun hmem => hbrace ?_) fun c hc => ?_
    · exact List.contains_iff_mem.2 ((List.dropWhile_sublist _).subset hmem)
    · have hhead := List.head?_dropWhile_not isLayout a.text
      rw [Option.mem_def] at hc
      rwa [hc] at hhead

namespace Cut

variable {lead body : Text} (h : Cut lead body)
include h

/-- A text made of such parts is cut into them. -/
theorem lead_body {a : Action} (ha : a.text = lead ++ body) : a.lead = lead ∧ a.body = body := by
  cases h with
  | block hlead =>
    have hbrace : a.text.contains openBrace = true := by rw [ha]; simp
    have hne : ∀ c ∈ lead, (c != openBrace) = true := by
      intro c hc
      rw [bne_iff_ne]
      rintro rfl
      exact hlead hc
    rw [Action.lead, Action.body, if_pos hbrace, if_pos hbrace, ha,
      List.takeWhile_append_of_pos hne, List.dropWhile_append_of_pos hne]
    simp
  | plain hlead hbody hstart =>
    have hbrace : ¬a.text.contains openBrace = true := by
      rw [List.contains_iff_mem, ha, List.mem_append, not_or]
      exact ⟨fun hmem => absurd (hlead openBrace hmem) (by decide), hbody⟩
    rw [Action.lead, Action.body, if_neg hbrace, if_neg hbrace, ha,
      List.takeWhile_append_of_pos hlead, List.dropWhile_append_of_pos hlead]
    cases body with
    | nil => simp
    | cons c body => simp [hstart c rfl]

theorem start : ∀ c ∈ body.head?, isLayout c = false := by
  cases h with
  | block => simp [show isLayout openBrace = false from rfl]
  | plain _ _ hstart => exact hstart

/-- A body may be changed as long as it starts with the same byte and gets no brace. -/
theorem congr {body' : Text} (hhead : body'.head? = body.head?)
    (hbrace : openBrace ∈ body' → openBrace ∈ body) : Cut lead body' := by
  cases h with
  | block hlead =>
    obtain ⟨rest', rfl⟩ := List.head?_eq_some_iff.1 hhead
    exact .block hlead
  | plain hlead hbody hstart =>
    refine .plain hlead (fun hmem => hbody (hbrace hmem)) ?_
    rwa [hhead]

/-- A body may be put behind other layout. -/
theorem behind {lead' : Text} (hlayout : ∀ c ∈ lead', isLayout c = true) : Cut lead' body := by
  cases h with
  | block => exact .block fun hmem => absurd (hlayout openBrace hmem) (by decide)
  | plain _ hbody hstart => exact .plain hlayout hbody hstart

/-- Trimming a body leaves what it starts with. -/
theorem exists_trimLayout (hne : body ≠ []) : ∃ c t, isLayout c = false ∧ body = c :: t ∧
    trimEndWhile isLayout body = c :: trimEndWhile isLayout t := by
  obtain ⟨c, t, rfl⟩ := List.exists_cons_of_ne_nil hne
  have hc := h.start c rfl
  exact ⟨c, t, hc, rfl, trimEndWhile_append_cons hc [] t⟩

theorem trimLayout : Cut lead (trimEndWhile isLayout body) := by
  by_cases hne : body = []
  · rw [hne] at h ⊢
    exact h
  obtain ⟨c, t, hc, rfl, htrim⟩ := h.exists_trimLayout hne
  rw [htrim]
  cases h with
  | block hlead => exact .block hlead
  | plain hlead hbody hstart =>
    rw [List.mem_cons, not_or] at hbody
    refine .plain hlead ?_ hstart
    rw [List.mem_cons, not_or]
    exact ⟨hbody.1, fun hmem => hbody.2 (mem_of_mem_trimEndWhile hmem)⟩

/-- The parts of an action that is given a lead and a body. -/
theorem setText (hne : body ≠ []) (a : Action) :
    (a.setText (lead ++ body)).text = lead ++ trimEndWhile isLayout body ∧
      (a.setText (lead ++ body)).lead = lead ∧
      (a.setText (lead ++ body)).body = trimEndWhile isLayout body := by
  obtain ⟨c, t, hc, -, htrim⟩ := h.exists_trimLayout hne
  have htext : (a.setText (lead ++ body)).text = lead ++ trimEndWhile isLayout body :=
    trimEndWhile_append_of_ne_nil (by rw [htrim]; simp) lead
  exact ⟨htext, h.trimLayout.lead_body htext⟩

/-- An action without a body has no lead. -/
theorem setText_nil (hnil : body = []) (a : Action) :
    (a.setText (lead ++ body)).text = [] ∧ (a.setText (lead ++ body)).lead = [] ∧
      (a.setText (lead ++ body)).body = [] := by
  have htext : (a.setText (lead ++ body)).text = [] := by
    cases h with
    | block => exact absurd hnil (by simp)
    | plain hlead =>
      rw [hnil, List.append_nil]
      exact trimEndWhile_eq_nil_iff.2 hlead
  have hcut : Cut [] [] := .plain (by simp) (by simp) (by simp)
  exact ⟨htext, hcut.lead_body htext⟩

end Cut

/-! ## Trimmed actions -/

/-- The text of an action ends with a byte that is not layout, as both ways of making actions leave
it. -/
def Trimmed (a : Action) : Prop := trimEndWhile isLayout a.text = a.text

theorem trimmed_ofText (text : Text) (owner line : Int) : (ofText text owner line).Trimmed :=
  trimEndWhile_trimEndWhile isLayout text

theorem trimmed_setText (a : Action) (text : Text) : (a.setText text).Trimmed :=
  trimEndWhile_trimEndWhile isLayout text

/-- The trimmed actions are those that can be made. -/
theorem trimmed_iff {a : Action} :
    a.Trimmed ↔ ∃ text owner line, a = ofText text owner line := by
  constructor
  · intro h
    refine ⟨a.text, a.owner, a.line, ?_⟩
    rw [ofText, show trimEndWhile isLayout a.text = a.text from h]
  · rintro ⟨text, owner, line, rfl⟩
    exact trimmed_ofText text owner line

/-- The body of a trimmed action is trimmed. -/
theorem Trimmed.body {a : Action} (h : a.Trimmed) : trimEndWhile isLayout a.body = a.body := by
  by_cases hne : a.body = []
  · rw [hne]
    rfl
  · obtain ⟨c, t, -, -, htrim⟩ := a.cut.exists_trimLayout hne
    rw [Trimmed, ← lead_append_body, trimEndWhile_append_of_ne_nil (by simp [htrim])] at h
    exact List.append_cancel_left h

theorem setText_eq_self {a : Action} {text : Text} (h : trimEndWhile isLayout text = a.text) :
    a.setText text = a := by
  rw [setText, h]

end Action

end GrammarLayout
