import GrammarLayout.Proofs.Grammar.Ink
import GrammarLayout.Proofs.Grammar.Reading

/-!
# The lines that the reader keeps

Blank lines, comments and the sections after the grammar are kept as they are,
between the rules.  Reading on changes rules and adds entries, but it never
touches a line that was kept.

What is proved here:

* `Scan.Step.outline_eq` — a step adds at most one kept line, at the end;
* `Document.parse_endedEntries` — in a document that was read, only the last
  entry may lack its newline.
-/

namespace GrammarLayout

open Ascii Text

/-- The line of an entry that is no rule. -/
def Entry.line? : Entry → Option Text
  | .verbatim v => some v.text
  | .rule _ => none

namespace Scan

/-- For each entry, its line when it is no rule. -/
def outline (s : Scan) : List (Option Text) := s.entries.map Entry.line?

variable {s s' : Scan} {r : OpenRule} {line : Text} {t : Option Text}

theorem entries_keep (s : Scan) (raw : Text) :
    (s.keep raw).entries = s.entries ++ [.verbatim ⟨raw, false⟩] := by
  unfold keep
  cases hm : s.mode <;> simp [entries, openRule?, hm, OpenRule.entries]

/-- Finishing the open rule loses nothing. -/
theorem entries_leave (s : Scan) {m : Mode} (hm : m = .outside ∨ m = .footer) :
    (s.leave m).entries = s.entries := by
  rcases hm with rfl | rfl <;> simp [entries, leave, openRule?]

theorem mode_keep (hmode : ∀ r a, s.mode ≠ .action r a) (raw : Text) :
    ∀ r a, (s.keep raw).mode ≠ .action r a := by
  intro r a
  unfold keep
  split
  · simp
  · rename_i r' a' hm
    exact absurd hm (hmode r' a')
  · exact hmode r a

theorem outline_keep (s : Scan) (raw : Text) : (s.keep raw).outline = s.outline ++ [some raw] := by
  rw [outline, entries_keep, List.map_append]
  rfl

theorem outline_leave_outside (s : Scan) : (s.leave .outside).outline = s.outline := by
  rw [outline, outline, s.entries_leave (.inl rfl)]

theorem outline_leave_footer (s : Scan) : (s.leave .footer).outline = s.outline := by
  rw [outline, outline, s.entries_leave (.inr rfl)]

theorem outline_leave_newRule (s : Scan) (name : Text) :
    (s.leave (.body (s.newRule name))).outline = s.outline ++ [none] := by
  simp [outline, entries, leave, openRule?, newRule, OpenRule.entries, Entry.line?]

theorem outline_of_openRule (hr : s.openRule? = some r) :
    s.outline = s.closed.map Entry.line? ++ none :: r.after.map fun v => some v.text := by
  rw [outline, entries, hr, List.map_append]
  simp [OpenRule.entries, Entry.line?]

theorem outline_withRule (rule : Rule) (hr : s.openRule? = some r) :
    (s.withRule r rule).outline = s.outline := by
  rw [outline_of_openRule hr, outline_of_openRule (r := { r with rule := rule }) rfl]
  rfl

theorem outline_openAction (rule : Rule) (text : Text) (balance : Int) (hr : s.openRule? = some r) :
    (s.openAction r rule text balance).outline = s.outline := by
  rw [outline_of_openRule hr, outline_of_openRule (r := { r with rule := rule }) rfl]
  rfl

theorem BodyStep.outline_eq {header : Bool} (hstep : s.BodyStep r line header s' t)
    (hr : s.openRule? = some r) : s'.outline = s.outline := by
  cases hstep with
  | closed => exact outline_leave_outside s
  | opened => exact outline_openAction _ _ _ hr
  | openedBehind => exact outline_openAction _ _ _ hr
  | productions => exact outline_withRule _ hr
  | terminated => rw [outline_leave_outside, outline_withRule _ hr]

theorem ActionStep.outline_eq {a : OpenAction} (hstep : s.ActionStep r a line s')
    (hr : s.openRule? = some r) : s'.outline = s.outline := by
  cases hstep with
  | longer =>
    rw [outline_of_openRule hr, outline_of_openRule (r := r) rfl]
  | closed => exact outline_withRule _ hr
  | terminated => rw [outline_leave_outside, outline_withRule _ hr]

/-- A step keeps the lines kept so far.  It may add one at the end: the line it reads, or the
comment of a header, which is given a newline. -/
theorem Step.outline_eq {raw : Text} (hstep : s.Step raw s' t) :
    ∃ added, s'.outline = s.outline ++ added ∧
      ((added = [some raw] ∧ t = none) ∨ ∀ l, some l ∈ added → Ended l) := by
  cases hstep with
  | footer hmode => exact ⟨_, outline_keep s raw, Or.inl ⟨rfl, rfl⟩⟩
  | action hmode hstep =>
    exact ⟨[], by simp [hstep.outline_eq (by simp [openRule?, hmode])], Or.inr (by simp)⟩
  | aside hmode hline => exact ⟨_, outline_keep s raw, Or.inl ⟨rfl, rfl⟩⟩
  | marker hmode hline =>
    exact ⟨_, by rw [outline_keep, outline_leave_footer], Or.inl ⟨rfl, rfl⟩⟩
  | header hmode hheader hrest => exact ⟨_, outline_leave_newRule s _, Or.inr (by simp)⟩
  | headerComment hmode hheader hrest =>
    rename_i rest
    refine ⟨[none, some (trim rest ++ [newline])], ?_, Or.inr ?_⟩
    · rw [outline_keep, outline_leave_newRule, List.append_assoc]
      rfl
    · intro l hl
      obtain rfl : l = trim rest ++ [newline] := by simpa using hl
      exact ⟨_, rfl⟩
  | headerBody hmode hheader hrest hstep =>
    exact ⟨[none], by rw [hstep.outline_eq rfl, outline_leave_newRule], Or.inr (by simp)⟩
  | stop hmode hline =>
    exact ⟨_, by rw [outline_keep, outline_leave_outside], Or.inl ⟨rfl, rfl⟩⟩
  | outside hmode hheader => exact ⟨_, outline_keep s raw, Or.inl ⟨rfl, rfl⟩⟩
  | body hmode hink hcomment hmarker hheader hend hstep =>
    exact ⟨[], by simp [hstep.outline_eq (by simp [openRule?, hmode])], Or.inr (by simp)⟩

theorem LineSteps.outline_eq {raw : Text} (hsteps : LineSteps s raw s') :
    ∃ added, s'.outline = s.outline ++ added := by
  induction hsteps with
  | last hstep =>
    obtain ⟨added, hadded, -⟩ := hstep.outline_eq
    exact ⟨added, hadded⟩
  | more hstep _ ih =>
    obtain ⟨added, hadded, -⟩ := hstep.outline_eq
    obtain ⟨later, hlater⟩ := ih
    exact ⟨added ++ later, by rw [hlater, hadded, List.append_assoc]⟩

theorem Reads.outline_eq {ls : List Text} (hreads : Reads s ls s') :
    ∃ added, s'.outline = s.outline ++ added := by
  induction hreads with
  | nil s => exact ⟨[], by simp⟩
  | cons hline _ ih =>
    obtain ⟨added, hadded⟩ := (line_lineSteps hline).outline_eq
    obtain ⟨later, hlater⟩ := ih
    exact ⟨added ++ later, by rw [hlater, hadded, List.append_assoc]; rfl⟩

/-- No line was kept: there are rules only. -/
def RulesOnly (s : Scan) : Prop := ∀ l, some l ∉ s.outline

theorem RulesOnly.of_outline {added : List (Option Text)} (h : s'.RulesOnly)
    (hadded : s'.outline = s.outline ++ added) : s.RulesOnly := by
  intro l hl
  refine h l ?_
  rw [hadded]
  exact List.mem_append_left _ hl

/-- Among rules only, an open rule has no lines after it. -/
theorem RulesOnly.after_eq_nil (h : s.RulesOnly) (hr : s.openRule? = some r) : r.after = [] := by
  rw [List.eq_nil_iff_forall_not_mem]
  intro v hv
  refine h v.text ?_
  rw [outline_of_openRule hr]
  simp only [List.mem_append, List.mem_cons, List.mem_map]
  exact Or.inr (Or.inr ⟨v, hv, rfl⟩)

theorem rulesOnly_iff : s.RulesOnly ↔ ∀ e ∈ s.entries, e.isRule = true := by
  constructor
  · intro h e he
    cases e with
    | verbatim v => exact absurd (List.mem_map_of_mem he) (h v.text)
    | rule r => rfl
  · intro h l hl
    obtain ⟨e, he, hline⟩ := List.mem_map.1 hl
    cases e with
    | verbatim v => simpa [Entry.isRule] using h _ he
    | rule r => simp [Entry.line?] at hline

/-! ## Newlines -/

/-- Every line that was kept ends with a newline. -/
def Ended (s : Scan) : Prop := ∀ l, some l ∈ s.outline → Text.Ended l

theorem ended_render_of_line? {e : Entry} (h : ∀ l, e.line? = some l → Text.Ended l) :
    Text.Ended e.render := by
  cases e with
  | verbatim v => exact h v.text rfl
  | rule r => exact r.ended_render

theorem forall_ended_render {es : List Entry}
    (h : ∀ l, some l ∈ es.map Entry.line? → Text.Ended l) :
    ∀ l ∈ es.map Entry.render, Text.Ended l := by
  intro l hl
  obtain ⟨e, he, rfl⟩ := List.mem_map.1 hl
  refine ended_render_of_line? fun k hk => h k ?_
  rw [← hk]
  exact List.mem_map_of_mem he

theorem Ended.endedEntries (h : s.Ended) : EndedEntries s.entries :=
  EndedLines.of_forall (forall_ended_render h)

/-- A step that uses its line up may keep a line without a newline; no other step does. -/
theorem Step.ended {raw : Text} (h : s.Ended) (hstep : s.Step raw s' t) :
    EndedEntries s'.entries ∧ (Text.Ended raw ∨ t ≠ none → s'.Ended) := by
  obtain ⟨added, hadded, hcases⟩ := hstep.outline_eq
  have hended : (∀ l, some l ∈ added → Text.Ended l) → s'.Ended := by
    intro hall l hl
    rw [hadded, List.mem_append] at hl
    exact hl.elim (h l) (hall l)
  rcases hcases with ⟨rfl, ht⟩ | hall
  · constructor
    · obtain ⟨es, fs, hes, hold, hnew⟩ := List.map_eq_append_iff.1 hadded
      obtain ⟨e, rfl, -⟩ := List.map_eq_singleton_iff.1 hnew
      rw [EndedEntries, hes, List.map_append]
      refine EndedLines.concat (forall_ended_render fun l hl => h l ?_) _
      rwa [hold] at hl
    · rintro (hraw | hne)
      · refine hended fun l hl => ?_
        obtain rfl : l = raw := by simpa using hl
        exact hraw
      · exact absurd ht hne
  · exact ⟨(hended hall).endedEntries, fun _ => hended hall⟩

theorem LineSteps.ended {raw : Text} (h : s.Ended) (hsteps : LineSteps s raw s') :
    EndedEntries s'.entries ∧ (Text.Ended raw → s'.Ended) := by
  induction hsteps with
  | last hstep =>
    obtain ⟨hentries, hended⟩ := hstep.ended h
    exact ⟨hentries, fun hraw => hended (Or.inl hraw)⟩
  | more hstep _ ih =>
    obtain ⟨hentries, hended⟩ := ih ((hstep.ended h).2 (Or.inr (by simp)))
    exact ⟨hentries, fun _ => hended ⟨_, rfl⟩⟩

theorem Reads.endedEntries {ls : List Text} (hls : EndedLines ls) (h : s.Ended)
    (hreads : Reads s ls s') : EndedEntries s'.entries := by
  induction hreads with
  | nil s => exact h.endedEntries
  | @cons s next s' l ls hline hrest ih =>
    obtain ⟨hentries, hended⟩ :=
      (line_lineSteps hline).ended (s := { s with lines := s.lines + 1 }) h
    cases hls with
    | last =>
      cases hrest
      exact hentries
    | cons hl hls => exact ih hls (hended hl)

end Scan

/-- Only the last entry of a document that was read may lack its newline. -/
theorem Document.parse_endedEntries {text : Text} {d : Document} (h : Document.parse text = .ok d) :
    EndedEntries d.entries := by
  obtain ⟨s, hreads, hentries, -⟩ := Document.parse_cases h
  rw [hentries]
  refine hreads.endedEntries (endedLines_lines text) ?_
  intro l hl
  simp [Scan.outline, Scan.entries, Scan.start, Scan.openRule?] at hl

end GrammarLayout
