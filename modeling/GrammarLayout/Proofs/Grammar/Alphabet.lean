import GrammarLayout.Proofs.Grammar.Invariant
import GrammarLayout.Proofs.Grammar.Shape
import GrammarLayout.Proofs.Text.Alphabet

/-!
# The alphabet of what is read

Reading writes nothing of its own but signs: whatever alphabet with the signs of
a file a text is over, the names, productions and blocks of its rules and the
lines that are kept are over it too.

What is proved here:

* `Rule.Over.readProductions` — adding the productions of a line;
* `Scan.Step.over`, `Scan.Reads.over` — one step and a whole run of the reader;
* `Document.parse_over` — a document that was read is over the alphabet of its
  text.
-/

namespace GrammarLayout

open Ascii Text

variable {S : UInt8 → Prop}

/-! ## Rules -/

/-- All texts of the rule are over the alphabet, and the characters of its name are those of
names. -/
structure Rule.Over (S : UInt8 → Prop) (r : Rule) : Prop where
  /-- The name holds characters of names only. -/
  word : ∀ p ∈ pieces r.name, p.isWord = true
  /-- The name is. -/
  name : Text.Over S r.name
  /-- The productions are. -/
  productions : ∀ p ∈ r.productions, Text.Over S p
  /-- The blocks are. -/
  actions : ∀ a ∈ r.actions, Text.Over S a.text
  /-- The indentation of productions is. -/
  productionIndent : Text.Over S r.productionIndent
  /-- The indentation of the semicolon is. -/
  terminatorIndent : Text.Over S r.terminatorIndent

/-- The line or the rule is over the alphabet. -/
def Entry.Over (S : UInt8 → Prop) : Entry → Prop
  | .verbatim v => Text.Over S v.text
  | .rule r => r.Over S

namespace Rule.Over

variable {r r' : Rule} (h : r.Over S)
include h

theorem addProduction {p : Text} (hp : Text.Over S p) : (r.addProduction p).Over S := by
  refine { h with productions := fun q hq => ?_ }
  rcases List.mem_append.1 hq with hq | hq
  · exact h.productions q hq
  · rwa [List.mem_singleton.1 hq]

theorem extendProduction (hspace : S space) {t : Text} (ht : Text.Over S t) :
    (r.extendProduction t).Over S := by
  unfold Rule.extendProduction
  split
  · exact h.addProduction ht
  · rename_i last hlast
    refine { h with productions := fun q hq => ?_ }
    rcases List.mem_append.1 hq with hq | hq
    · exact h.productions q (List.dropLast_subset _ hq)
    · rw [List.mem_singleton.1 hq, over_append, over_cons]
      exact ⟨(h.productions last (List.mem_of_getLast? hlast)).trimEndWhile _, hspace, ht.trim⟩

theorem addAction {a : Action} (ha : Text.Over S a.text) : (r.addAction a).Over S := by
  refine { h with actions := fun b hb => ?_ }
  rcases List.mem_append.1 hb with hb | hb
  · exact h.actions b hb
  · rwa [List.mem_singleton.1 hb]

theorem readAlternative (hspace : S space) {text : Text} {header : Bool} (ht : Text.Over S text)
    (hr : r.readAlternative text header = .ok r') : r'.Over S := by
  rcases readAlternative_cases hr with ⟨-, rfl⟩ | ⟨-, -, p, hp, rfl⟩ | ⟨-, -, -, rfl⟩
  · exact h
  · rcases hp with rfl | rfl
    · exact h.addProduction ht.trim
    · exact h.addProduction (ht.trimEndWhile _)
  · exact h.extendProduction hspace ht.trim

theorem readProductions (hS : LineSigns S) {text : Text} {header : Bool} (ht : Text.Over S text)
    (hr : r.readProductions text header = .ok r') : r'.Over S := by
  have halts : ∀ p ∈ readyAlternatives text header, Text.Over S p := by
    intro p hp c hc
    rcases mem_of_mem_readyAlternatives hp hc with hc | rfl | rfl
    · exact ht c hc
    · exact hS.pipe
    · exact hS.space
  rw [Rule.readProductions] at hr
  generalize readyAlternatives text header = alts at halts hr
  induction alts generalizing r with
  | nil =>
    rw [← Except.ok.inj hr]
    exact h
  | cons p alts ih =>
    rw [List.foldlM_cons] at hr
    obtain ⟨next, hp, hnext⟩ := exists_of_bind_eq_ok hr
    exact ih (h.readAlternative hS.space (halts p List.mem_cons_self) hp)
      (fun q hq => halts q (List.mem_cons_of_mem p hq)) hnext

end Rule.Over

/-! ## One step -/

namespace Scan

/-- All entries and the open block are over the alphabet. -/
def Over (S : UInt8 → Prop) : Scan → Prop := Holds (Entry.Over S) fun a => Text.Over S a.text

variable {s s' : Scan} {r : OpenRule} {line : Text} {t : Option Text}

theorem over_newRule (hS : LineSigns S) {name : Text} (hword : ∀ p ∈ pieces name, p.isWord = true)
    (hname : Text.Over S name) : (s.newRule name).rule.Over S where
  word := hword
  name := hname
  productions := by simp [newRule]
  actions := by simp [newRule]
  productionIndent := over_replicate (n := 2) hS.space
  terminatorIndent := over_replicate (n := 2) hS.space

theorem BodyStep.over {header : Bool} (hS : Signs S) (h : s.Over S) (hr : s.openRule? = some r)
    (hline : Text.Over S line) (hstep : s.BodyStep r line header s' t) : s'.Over S := by
  cases hstep with
  | closed => exact h.leave (Or.inl rfl)
  | opened => exact h.withAction hr (h.rule hr) (over_cons.2 ⟨hS.newline, hline⟩)
  | openedBehind _ _ _ _ hread =>
    have hrule := (h.rule hr).readProductions hS.toLineSigns (hline.take _) hread
    exact h.withAction hr hrule (hline.drop _)
  | productions _ _ _ hread =>
    exact h.withRule hr ((h.rule hr).readProductions hS.toLineSigns hline hread)
  | terminated _ _ _ hread =>
    have hrule := (h.rule hr).readProductions hS.toLineSigns
      ((hline.trimEndWhile _).dropEnd _) hread
    exact (h.withRule hr hrule).leave (Or.inl rfl)

theorem ActionStep.over {a : OpenAction} (hS : Signs S) (h : s.Over S)
    (hmode : s.mode = .action r a) (hline : Text.Over S line)
    (hstep : s.ActionStep r a line s') : s'.Over S := by
  have hr : s.openRule? = some r := by simp [openRule?, hmode]
  have hlonger : ∀ l, Text.Over S l → Text.Over S (a.text ++ newline :: l) := fun l hl =>
    over_append.2 ⟨h.opened r a hmode, over_cons.2 ⟨hS.newline, hl⟩⟩
  have hended : ∀ last, Text.Over S last → (s.withRule r (r.rule.addAction
      (Action.ofText (a.text ++ newline :: last) a.owner a.line))).Over S := fun last hlast =>
    h.withRule hr ((h.rule hr).addAction ((hlonger last hlast).trimEndWhile _))
  cases hstep with
  | longer => exact h.withAction hr (h.rule hr) (hlonger line hline)
  | closed => exact hended _ (hline.trimEndWhile _)
  | @terminated last _ hlast =>
    have hover := hline.trimEndWhile isBlank
    rw [show trimEndWhile isBlank line = last ++ [semicolon] from hlast, over_append] at hover
    exact (hended last hover.1).leave (Or.inl rfl)

/-- A step writes nothing of its own but signs. -/
theorem Step.over {raw : Text} (hS : Signs S) (h : s.Over S) (hraw : Text.Over S raw)
    (hstep : s.Step raw s' t) : s'.Over S := by
  have hline : Text.Over S (trimTerminator raw) := hraw.trimEndWhile _
  have hheader : ∀ {name rest : Text}, header? (trimTerminator raw) = some (name, rest) →
      Text.Over S rest ∧ (s.leave (.body (s.newRule name))).Over S := by
    intro name rest hheader
    obtain ⟨w₁, w₂, heq, -⟩ := header?_eq hheader
    rw [heq, over_append, over_append, over_append, over_cons] at hline
    have hrule := over_newRule (s := s) hS.toLineSigns (isWord_of_mem_pieces_name hheader) hline.2.1
    exact ⟨hline.2.2.2.2, h.leave_newRule hrule⟩
  cases hstep with
  | footer => exact h.keep hraw
  | action hmode hstep => exact hstep.over hS h hmode hline
  | aside => exact h.keep hraw
  | marker => exact (h.leave (Or.inr rfl)).keep hraw
  | header _ hname => exact (hheader hname).2
  | headerComment _ hname =>
    obtain ⟨hrest, hopen⟩ := hheader hname
    exact hopen.keep (over_append.2 ⟨hrest.trim, by simp [hS.newline]⟩)
  | headerBody _ hname _ hstep =>
    obtain ⟨hrest, hopen⟩ := hheader hname
    exact hstep.over hS hopen rfl hrest
  | stop => exact (h.leave (Or.inl rfl)).keep hraw
  | outside => exact h.keep hraw
  | body hmode _ _ _ _ _ hstep => exact hstep.over hS h (by simp [openRule?, hmode]) hline

/-! ## Whole texts -/

theorem LineSteps.over {raw : Text} (hS : Signs S) (h : s.Over S) (hraw : Text.Over S raw)
    (hsteps : LineSteps s raw s') : s'.Over S := by
  induction hsteps with
  | last hstep => exact hstep.over hS h hraw
  | more hstep _ ih =>
    refine ih (hstep.over hS h hraw) (over_append.2 ⟨?_, by simp [hS.newline]⟩)
    exact (hraw.trimEndWhile _).of_subset hstep.mem_rest

theorem Reads.over {ls : List Text} (hS : Signs S) (h : s.Over S) (hls : ∀ l ∈ ls, Text.Over S l)
    (hreads : Reads s ls s') : s'.Over S := by
  induction hreads with
  | nil s => exact h
  | @cons s next s' l ls hline _ ih =>
    refine ih ?_ fun k hk => hls k (List.mem_cons_of_mem l hk)
    exact (line_lineSteps hline).over hS (h.withLines _) (hls l List.mem_cons_self)

end Scan

/-- A document that was read is over every alphabet with the signs of a file that its text is
over. -/
theorem Document.parse_over (hS : Signs S) {text : Text} {d : Document}
    (h : Document.parse text = .ok d) (htext : Text.Over S text) : ∀ e ∈ d.entries, e.Over S := by
  obtain ⟨s, hreads, hentries, -⟩ := parse_cases h
  rw [hentries]
  exact (hreads.over hS .start htext.lines).entries

end GrammarLayout
