import GrammarLayout.Proofs.Grammar.Growth
import GrammarLayout.Proofs.Grammar.Outline

/-!
# Reading loses and invents nothing

The reader spreads each line over the name of a rule, its productions, its
blocks and the lines that are kept.  `Scan.written` is the ink of everything it
holds at one moment; every step adds the ink of the line it reads, up to the
semicolons that end rules.  Where no line goes on with a production behind a
block of this production, the ink is added at the end.

What is proved here:

* `Scan.Step.sound_kept`, `Scan.Reads.sound_kept` — what one step and a whole
  run add to the ink that was written;
* `Document.parse_ordered` — the blocks of a rule that was read are in the order
  of its productions;
* `Document.parse_kept` — the ink of a document is that of its text, up to
  semicolons;
* `Document.parse_count_ink` — so every other byte occurs as often in both.
-/

namespace GrammarLayout

open Ascii Text

/-! ## The state of the reader -/

/-- The ink of lines kept as they are. -/
def keptInk (vs : List Verbatim) : Text := vs.flatMap fun v => ink v.text

@[simp] theorem keptInk_nil : keptInk [] = [] := rfl

@[simp] theorem keptInk_concat (vs : List Verbatim) (v : Verbatim) :
    keptInk (vs ++ [v]) = keptInk vs ++ ink v.text := by
  simp [keptInk, List.flatMap_append]

/-- The ink of an open rule, whose semicolon is still to come. -/
def OpenRule.front (r : OpenRule) : Text := ink r.rule.name ++ colon :: r.rule.bodyInk

/-- The ink of what is open. -/
def Mode.ink : Mode → Text
  | .outside => []
  | .body r => r.front ++ keptInk r.after
  | .action r a => r.front ++ (Text.ink a.text ++ keptInk r.after)
  | .footer => []

/-- The open block stands behind the last production, with only white space before its brace. -/
structure OpenAction.Follows (a : OpenAction) (r : Rule) : Prop where
  /-- It belongs to the last production. -/
  owner : a.owner = (r.productions.length : Int) - 1
  /-- Its text starts with a brace, apart from white space. -/
  opened : ∃ w rest, a.text = w ++ openBrace :: rest ∧ isSpaces w = true

/-- The open rule has its blocks in order. -/
def Mode.Sound : Mode → Prop
  | .outside => True
  | .body r => r.rule.Ordered
  | .action r a => r.rule.Ordered ∧ a.Follows r.rule
  | .footer => True

/-- Does a block open at the start of a line? -/
def opensBlock (line : Text) : Bool :=
  ((unclosedBrace? line).filter fun i => 0 < braceBalance (line.drop i)).any fun i =>
    isSpaces (line.take i)

/-- Does a line of a rule's body go on with the last production?  The other lines start with a
semicolon, a pipe or a block. -/
def goesOn (line : Text) : Bool :=
  !(startsWith [semicolon] (trim line) || hasPipe line || opensBlock line)

/-- Does a line belong to a rule's body, and neither stands on its own nor opens another rule? -/
def isBodyLine (line : Text) : Bool :=
  !(isSpaces line || startsWith [hash] (trim line) || isFooterMarker line
    || (header? line).isSome || trim line == bytes "end")

namespace Scan

/-- The ink of everything read. -/
def written (s : Scan) : Text := entriesInk s.closed ++ s.mode.ink

/-- All rules read have their blocks in order. -/
structure Sound (s : Scan) : Prop where
  /-- The closed rules do. -/
  closed : ∀ r, .rule r ∈ s.closed → r.Ordered
  /-- The open rule does. -/
  mode : s.mode.Sound

variable {s : Scan}

theorem written_keep (s : Scan) (raw : Text) : (s.keep raw).written = s.written ++ ink raw := by
  unfold keep written
  cases s.mode with
  | outside => simp [Mode.ink, Entry.render]
  | body r => simp [Mode.ink, OpenRule.front]
  | action r a => simp [Mode.ink, OpenRule.front]
  | footer => simp [Mode.ink, Entry.render]

theorem Sound.keep (h : s.Sound) (raw : Text) : (s.keep raw).Sound := by
  have hclosed : ∀ r, .rule r ∈ s.closed ++ [.verbatim ⟨raw, false⟩] → r.Ordered :=
    fun r hr => h.closed r (by simpa using hr)
  have hmode := h.mode
  unfold Scan.keep
  cases hm : s.mode with
  | outside => exact ⟨hclosed, trivial⟩
  | body r => rw [hm] at hmode; exact ⟨h.closed, hmode⟩
  | action r a => rw [hm] at hmode; exact ⟨h.closed, hmode⟩
  | footer => exact ⟨hclosed, trivial⟩

theorem written_leave (s : Scan) (m : Mode) : (s.leave m).written = entriesInk s.entries ++ m.ink :=
  rfl

/-- Finishing the open rule writes its semicolon. -/
theorem entriesInk_body {r : OpenRule} (h : s.Sound) (hmode : s.mode = .body r) :
    entriesInk s.entries = entriesInk s.closed ++ (r.front ++ semicolon :: keptInk r.after) := by
  have hordered : r.rule.Ordered := by
    have := h.mode
    rwa [hmode] at this
  have hafter : entriesInk (r.after.map .verbatim) = keptInk r.after := by
    rw [entriesInk, List.flatMap_map]
    rfl
  have hentries : s.entries = s.closed ++ .rule r.rule :: r.after.map .verbatim := by
    simp [entries, openRule?, hmode, OpenRule.entries]
  rw [hentries, entriesInk_append, entriesInk_cons, hafter, Entry.render,
    Rule.ink_render hordered, OpenRule.front]
  simp

theorem entries_of_mode_outside (hmode : s.mode = .outside) : s.entries = s.closed := by
  simp [entries, openRule?, hmode]

/-- Finishing the open rule keeps what was written; outside a rule there is nothing to finish. -/
theorem entriesInk_kept {o : Bool} (h : s.Sound) (hmode : s.mode = .outside ∨ ∃ r, s.mode = .body r) :
    Kept o (entriesInk s.entries) s.written := by
  rcases hmode with hmode | ⟨r, hmode⟩
  · refine Kept.of_eq ?_
    rw [entries_of_mode_outside hmode, written, hmode, Mode.ink, List.append_nil]
  · rw [entriesInk_body h hmode, written, hmode, Mode.ink]
    exact Kept.append_left _ (Kept.append_left _ (Kept.semicolon_append _))

theorem Sound.entries (h : s.Sound) : ∀ r, .rule r ∈ s.entries → r.Ordered := by
  have hopen : ∀ r, s.openRule? = some r → r.rule.Ordered := by
    intro r hr
    have hmode := h.mode
    cases hm : s.mode with
    | outside => simp [openRule?, hm] at hr
    | body r' =>
      obtain rfl : r' = r := by simpa [openRule?, hm] using hr
      rwa [hm] at hmode
    | action r' a =>
      obtain rfl : r' = r := by simpa [openRule?, hm] using hr
      rw [hm] at hmode
      exact hmode.1
    | footer => simp [openRule?, hm] at hr
  intro rule hrule
  rcases List.mem_append.1 hrule with hrule | hrule
  · exact h.closed rule hrule
  · cases hr : s.openRule? with
    | none => simp [hr] at hrule
    | some r =>
      obtain rfl : rule = r.rule := by simpa [hr, OpenRule.entries] using hrule
      exact hopen r hr

theorem Sound.leave {m : Mode} (h : s.Sound) (hm : m.Sound) : (s.leave m).Sound := ⟨h.entries, hm⟩

/-! ## One step -/

variable {o : Bool} {s' : Scan} {r : OpenRule} {line : Text} {t : Option Text}

/-- The open rule grows by `added`. -/
theorem written_withRule {rule : Rule} {added : Text} (hmode : s.mode = .body r)
    (hgrown : Rule.Grown o r.rule rule added) (ho : o = true → r.after = []) :
    Kept o (s.withRule r rule).written (s.written ++ ink added) := by
  rw [written, written, hmode]
  simp only [withRule, Mode.ink, OpenRule.front, hgrown.name, List.append_assoc,
    List.cons_append]
  refine Kept.append_left _ (Kept.append_left _ (Kept.append_left [colon] ?_))
  refine (hgrown.kept.append_right _).trans ?_
  rw [List.append_assoc]
  refine Kept.append_left _ (Kept.swap _ _ fun hot => Or.inr ?_)
  rw [ho hot, keptInk_nil]

theorem Sound.withRule {rule : Rule} (h : s.Sound) (hrule : rule.Ordered) :
    (s.withRule r rule).Sound := ⟨h.closed, hrule⟩

/-- The open rule grows by `added`, and a block opens behind it. -/
theorem written_openAction {rule : Rule} {added : Text} (text : Text) (balance : Int)
    (hmode : s.mode = .body r) (hgrown : Rule.Grown o r.rule rule added)
    (ho : o = true → r.after = []) :
    Kept o (s.openAction r rule text balance).written (s.written ++ (ink added ++ ink text)) := by
  rw [written, written, hmode]
  simp only [openAction, Mode.ink, OpenRule.front, hgrown.name, List.append_assoc,
    List.cons_append]
  refine Kept.append_left _ (Kept.append_left _ (Kept.append_left [colon] ?_))
  refine (hgrown.kept.append_right _).trans ?_
  rw [List.append_assoc]
  refine Kept.append_left _ ?_
  rw [← List.append_assoc, ← List.append_assoc]
  refine (Kept.swap _ _ fun hot => Or.inr ?_).trans (Kept.of_eq (List.append_assoc ..).symm)
  rw [ho hot, keptInk_nil]

theorem Sound.openAction {rule : Rule} {text : Text} {balance : Int} (h : s.Sound)
    (hrule : rule.Ordered) (htext : ∃ w rest, text = w ++ openBrace :: rest ∧ isSpaces w = true) :
    (s.openAction r rule text balance).Sound := ⟨h.closed, hrule, rfl, htext⟩

/-- Finishing the open rule keeps a semicolon that was read. -/
theorem entriesInk_kept_semicolon (h : s.Sound) (hmode : s.mode = .body r) :
    Kept o (entriesInk s.entries) (s.written ++ [semicolon]) := by
  rw [entriesInk_body h hmode, written, hmode, Mode.ink, List.append_assoc, List.append_assoc]
  exact Kept.append_left _ (Kept.append_left _ (Kept.semicolon_concat _))

/-- A production line ends with its semicolon; behind white space that is no blank the semicolon
stays in the production. -/
theorem kept_dropEnd_semicolon (line : Text) :
    Kept o (ink (dropEnd [semicolon] (trimBlanksEnd line)) ++ [semicolon]) (ink line) := by
  by_cases hend : endsWith [semicolon] (trimBlanksEnd line) = true
  · obtain ⟨u, hu⟩ := endsWith_singleton_iff.1 hend
    rw [hu, dropEnd_concat]
    refine Kept.of_eq ?_
    rw [← ink_trimBlanksEnd line, hu, ink_append_semicolon, ink_nil]
  · rw [dropEnd, if_neg hend, ink_trimBlanksEnd]
    exact Kept.concat_semicolon _

/-- The parts of a line around an unclosed brace. -/
theorem exists_unclosed {line : Text} {i : Nat} (h : unclosedBrace? line = some i) :
    ∃ w rest, line.drop (trimBlanksEnd (line.take i)).length = w ++ openBrace :: rest ∧
      isSpaces w = true ∧ ink line = ink (line.take i) ++ openBrace :: ink rest := by
  obtain ⟨rest, hrest⟩ := unclosedBrace?_eq h
  obtain ⟨w, hw, hblank⟩ := trimEndWhile_append (p := isBlank) (fun _ => isAsciiSpace_of_isBlank)
    (line.take i)
  refine ⟨w, rest, ?_, ink_eq_nil_iff.1 (ink_of_spaces hblank), ?_⟩
  · have hline : line = trimBlanksEnd (line.take i) ++ (w ++ openBrace :: rest) := by
      rw [← List.append_assoc, trimBlanksEnd, ← hw, ← hrest]
    calc line.drop (trimBlanksEnd (line.take i)).length
        = (trimBlanksEnd (line.take i) ++ (w ++ openBrace :: rest)).drop
            (trimBlanksEnd (line.take i)).length := congrArg _ hline
      _ = w ++ openBrace :: rest := List.drop_left
  · conv => lhs; rw [hrest]
    rw [ink_append_openBrace]

/-- A line that starts with something else than a semicolon still does so without the semicolon at
its end. -/
theorem head?_ink_dropEnd_semicolon {line : Text} (h : startsWith [semicolon] (trim line) = false) :
    (ink (dropEnd [semicolon] (trimBlanksEnd line))).head? = (ink line).head? := by
  by_cases hend : endsWith [semicolon] (trimBlanksEnd line) = true
  · obtain ⟨u, hu⟩ := endsWith_singleton_iff.1 hend
    have hline : ink line = ink u ++ [semicolon] := by
      rw [← ink_trimBlanksEnd line, hu, ink_append_semicolon, ink_nil]
    rw [hu, dropEnd_concat, hline]
    cases hink : ink u with
    | nil =>
      rw [← Bool.not_eq_true, startsWith_trim_iff, hline, hink] at h
      exact absurd rfl h
    | cons b t => rfl
  · rw [dropEnd, if_neg hend, ink_trimBlanksEnd]

theorem BodyStep.sound_kept {header : Bool} (h : s.Sound) (hmode : s.mode = .body r)
    (hstep : s.BodyStep r line header s' t)
    (ho : o = true → r.after = [] ∧ (r.rule.endsInBlock = true → goesOn line = false)) :
    s'.Sound ∧ Kept o (s'.written ++ ink (t.getD [])) (s.written ++ ink line) := by
  have hrule : r.rule.Ordered := by
    have := h.mode
    rwa [hmode] at this
  have hafter : o = true → r.after = [] := fun hot => (ho hot).1
  cases hstep with
  | closed hsemi =>
    rename_i tail
    refine ⟨h.leave trivial, ?_⟩
    have hline : ink line = semicolon :: ink tail := by rw [← ink_trim, hsemi, ink_semicolon]
    have hrest : ink ((if (trim tail).isEmpty then none else some (trim tail)).getD []) = ink tail := by
      split
      · rename_i hempty
        rw [← ink_trim tail, List.isEmpty_iff.1 hempty]
        rfl
      · exact ink_trim tail
    rw [written_leave, hrest, hline, Mode.ink, List.append_nil]
    exact ((entriesInk_kept_semicolon h hmode).append_right _).trans (Kept.of_eq (by simp))
  | opened hbrace hbalance hblank hheader =>
    rename_i i
    obtain ⟨rest, hrest⟩ := unclosedBrace?_eq hbrace
    refine ⟨h.openAction hrule ⟨newline :: line.take i, rest, by rw [List.cons_append, ← hrest],
      ?_⟩, ?_⟩
    · rw [← ink_eq_nil_iff, ink_newline, ink_of_isSpaces hblank]
    · have := written_openAction (newline :: line) (braceBalance (line.drop i)) hmode
        (Rule.Grown.refl (o := o) hrule) hafter
      simpa using this
  | openedBehind hsemi hbrace hbalance hplace hread =>
    rename_i i rule
    obtain ⟨w, rest, htext, hw, hink⟩ := exists_unclosed hbrace
    have hgrown : Rule.Grown o r.rule rule (line.take i) := by
      refine Rule.readProductions_grown hrule hread fun hot hblock => ?_
      have hgoes := (ho hot).2 hblock
      simp only [goesOn, opensBlock, hbrace, hsemi, Option.filter_some, hbalance, decide_true,
        if_true, Option.any_some, Bool.false_or, Bool.not_eq_eq_eq_not, Bool.not_false,
        Bool.or_eq_true] at hgoes
      exact hgoes.symm.imp_right (Rule.hasPipe_of_ink hink (by decide))
    refine ⟨h.openAction hgrown.ordered ⟨w, rest, htext, hw⟩, ?_⟩
    have := written_openAction (line.drop (trimBlanksEnd (line.take i)).length)
      (braceBalance (line.drop i)) hmode hgrown hafter
    rw [hink]
    refine (this.append_right _).trans (Kept.of_eq ?_)
    rw [htext, ink_append_openBrace, ink_of_isSpaces hw]
    simp
  | productions hsemi hopen hend hread =>
    rename_i rule
    have hgrown : Rule.Grown o r.rule rule line := by
      refine Rule.readProductions_grown hrule hread fun hot hblock => Or.inr ?_
      simpa [goesOn, opensBlock, hopen, hsemi] using (ho hot).2 hblock
    refine ⟨h.withRule hgrown.ordered, ?_⟩
    simpa using written_withRule hmode hgrown hafter
  | terminated hsemi hopen hend hread =>
    rename_i rule
    have hgrown : Rule.Grown o r.rule rule (dropEnd [semicolon] (trimBlanksEnd line)) := by
      refine Rule.readProductions_grown hrule hread fun hot hblock => Or.inr ?_
      have hpipe : hasPipe line = true := by
        simpa [goesOn, opensBlock, hopen, hsemi] using (ho hot).2 hblock
      rwa [Rule.hasPipe_iff, head?_ink_dropEnd_semicolon hsemi, ← Rule.hasPipe_iff]
    have hsound : (s.withRule r rule).Sound := h.withRule hgrown.ordered
    refine ⟨hsound.leave trivial, ?_⟩
    rw [written_leave, Mode.ink, Option.getD_none, ink_nil, List.append_nil, List.append_nil]
    refine (entriesInk_kept_semicolon hsound rfl).trans ?_
    refine ((written_withRule hmode hgrown hafter).append_right _).trans ?_
    rw [List.append_assoc]
    exact Kept.append_left _ (kept_dropEnd_semicolon line)

/-- A block that its last line closes is added behind everything the rule has. -/
theorem grown_addAction {a : OpenAction} (last : Text) (hrule : r.rule.Ordered)
    (ha : a.Follows r.rule) :
    Rule.Grown o r.rule
      (r.rule.addAction (Action.ofText (a.text ++ newline :: last) a.owner a.line))
      (a.text ++ newline :: last) := by
  obtain ⟨howner, w, rest, htext, hw⟩ := ha
  refine ⟨hrule.addAction howner ?_, rfl, ?_⟩
  · rw [htext, List.append_assoc, List.cons_append]
    exact Action.framed_ofText hw a.owner a.line
  · rw [Rule.bodyInk_addAction _ howner, Action.ofText, ink_trimLayoutEnd]
    exact Kept.refl _

/-- The text of an open block is written before the lines kept since the header. -/
theorem written_action (s : Scan) (a : OpenAction) (ho : o = true → r.after = []) :
    Kept o { s with mode := .action r a }.written
      ({ s with mode := .body r }.written ++ ink a.text) := by
  simp only [written, Mode.ink, List.append_assoc]
  refine Kept.append_left _ (Kept.append_left _ (Kept.swap _ _ fun hot => Or.inr ?_))
  rw [ho hot, keptInk_nil]

theorem written_body (s : Scan) (a : OpenAction) (ho : o = true → r.after = []) :
    Kept o ({ s with mode := .body r }.written ++ ink a.text)
      { s with mode := .action r a }.written := by
  simp only [written, Mode.ink, List.append_assoc]
  refine Kept.append_left _ (Kept.append_left _ (Kept.swap _ _ fun hot => Or.inl ?_))
  rw [ho hot, keptInk_nil]

theorem ActionStep.sound_kept {a : OpenAction} (h : s.Sound) (hmode : s.mode = .action r a)
    (hstep : s.ActionStep r a line s') (ho : o = true → r.after = []) :
    s'.Sound ∧ Kept o s'.written (s.written ++ ink line) := by
  obtain ⟨hrule, ha⟩ : r.rule.Ordered ∧ a.Follows r.rule := by
    have := h.mode
    rwa [hmode] at this
  have hself : { s with mode := .action r a } = s := by rw [← hmode]
  have hopen := written_body s a ho
  rw [hself] at hopen
  have hbody : { s with mode := .body r }.Sound := ⟨h.closed, hrule⟩
  -- The block ends with the text `last`.
  have hclosed : ∀ last : Text,
      Kept o (s.withRule r (r.rule.addAction
        (Action.ofText (a.text ++ newline :: last) a.owner a.line))).written
        (s.written ++ ink last) := by
    intro last
    have hgrown := grown_addAction (o := o) last hrule ha
    refine (written_withRule (s := { s with mode := .body r }) rfl hgrown ho).trans ?_
    rw [ink_append_newline, ← List.append_assoc]
    exact hopen.append_right _
  cases hstep with
  | longer hbalance =>
    refine ⟨⟨h.closed, hrule, ha.owner, ?_⟩, ?_⟩
    · obtain ⟨w, rest, htext, hw⟩ := ha.opened
      exact ⟨w, rest ++ newline :: line, by simp [htext], hw⟩
    · refine (written_action s _ ho).trans ?_
      rw [ink_append_newline, ← List.append_assoc]
      exact hopen.append_right _
  | closed hbalance =>
    refine ⟨hbody.withRule (grown_addAction (o := o) _ hrule ha).ordered, ?_⟩
    simpa using hclosed (trimBlanksEnd line)
  | terminated hbalance hlast hbrace =>
    rename_i last
    have hsound : (s.withRule r (r.rule.addAction
        (Action.ofText (a.text ++ newline :: last) a.owner a.line))).Sound :=
      hbody.withRule (grown_addAction (o := o) _ hrule ha).ordered
    refine ⟨hsound.leave trivial, ?_⟩
    rw [written_leave, Mode.ink, List.append_nil]
    refine (entriesInk_kept_semicolon hsound rfl).trans ?_
    refine ((hclosed last).append_right _).trans (Kept.of_eq ?_)
    rw [← ink_trimBlanksEnd line, hlast, ink_append_semicolon, ink_nil, List.append_assoc]

/-- Does a line go on with a production behind a block of this production? -/
def interrupts (s : Scan) (raw : Text) : Bool :=
  match s.mode with
  | .body r => r.rule.endsInBlock && isBodyLine (trimTerminator raw) && goesOn (trimTerminator raw)
  | _ => false

theorem ink_header? {line name rest : Text} (h : header? line = some (name, rest)) :
    ink line = ink name ++ colon :: ink rest := by
  obtain ⟨w₁, w₂, hline, h₁, h₂, -⟩ := header?_eq h
  rw [hline, ink_spaces_append h₁, ← List.append_assoc, ink_append_colon, ink_append_spaces h₂]

theorem newRule_ordered (s : Scan) (name : Text) : (s.newRule name).rule.Ordered := by
  refine ⟨List.Pairwise.nil, by simp [newRule], by simp [newRule], by simp [newRule],
    by simp [newRule], ?_, ?_⟩
  all_goals
    intro c hc
    obtain rfl : c = space := by simpa [newRule] using hc
    decide

theorem Sound.leave_newRule (h : s.Sound) (name : Text) :
    (s.leave (.body (s.newRule name))).Sound := h.leave (newRule_ordered s name)

/-- A header finishes the open rule and opens the next one. -/
theorem written_leave_newRule {name : Text} (h : s.Sound)
    (hmode : s.mode = .outside ∨ ∃ r, s.mode = .body r) :
    Kept o (s.leave (.body (s.newRule name))).written (s.written ++ (ink name ++ [colon])) := by
  rw [written_leave]
  refine ((entriesInk_kept h hmode).append_right _).trans (Kept.of_eq ?_)
  simp [Mode.ink, OpenRule.front, newRule, Rule.bodyInk, Rule.blocks]

/-- One step of the reader keeps what was written and adds what was read. -/
theorem Step.sound_kept {raw : Text} (h : s.Sound) (hstep : s.Step raw s' t)
    (ho : o = true → s.RulesOnly ∧ s.interrupts raw = false) :
    s'.Sound ∧ Kept o (s'.written ++ ink (t.getD [])) (s.written ++ ink raw) := by
  cases hstep with
  | footer hmode =>
    exact ⟨h.keep raw, Kept.of_eq (by simp [written_keep])⟩
  | action hmode hstep =>
    obtain ⟨hsound, hkept⟩ := hstep.sound_kept h hmode fun hot =>
      (ho hot).1.after_eq_nil (by simp [openRule?, hmode])
    exact ⟨hsound, by simpa using hkept⟩
  | aside hmode hline =>
    exact ⟨h.keep raw, Kept.of_eq (by simp [written_keep])⟩
  | marker hmode hline =>
    refine ⟨(h.leave (m := .footer) trivial).keep raw, ?_⟩
    rw [written_keep, written_leave, Mode.ink, List.append_nil, Option.getD_none, ink_nil,
      List.append_nil]
    exact (entriesInk_kept h hmode).append_right _
  | header hmode hheader hrest =>
    refine ⟨h.leave_newRule _, ?_⟩
    have hraw := ink_header? hheader
    rw [ink_trimTerminator, ink_of_isSpaces hrest] at hraw
    rw [hraw]
    simpa using written_leave_newRule (o := o) h hmode
  | headerComment hmode hheader hrest =>
    refine ⟨(h.leave_newRule _).keep _, ?_⟩
    have hraw := ink_header? hheader
    rw [ink_trimTerminator] at hraw
    rw [hraw, written_keep]
    refine (((written_leave_newRule h hmode).append_right _).append_right _).trans (Kept.of_eq ?_)
    simp
  | headerBody hmode hheader hrest hstep =>
    have hraw := ink_header? hheader
    rw [ink_trimTerminator] at hraw
    obtain ⟨hsound, hkept⟩ := hstep.sound_kept (o := o) (h.leave_newRule _) rfl
      fun _ => ⟨rfl, fun hblock => by simp [Rule.endsInBlock, newRule] at hblock⟩
    refine ⟨hsound, hkept.trans ?_⟩
    rw [hraw]
    refine ((written_leave_newRule h hmode).append_right _).trans (Kept.of_eq ?_)
    simp
  | stop hmode hline =>
    refine ⟨(h.leave (m := .outside) trivial).keep raw, ?_⟩
    rw [written_keep, written_leave, Mode.ink, List.append_nil, Option.getD_none, ink_nil,
      List.append_nil]
    exact (entriesInk_kept h (Or.inr ⟨_, hmode⟩)).append_right _
  | outside hmode hheader =>
    exact ⟨h.keep raw, Kept.of_eq (by simp [written_keep])⟩
  | body hmode hink hcomment hmarker hheader hend hstep =>
    rw [← ink_trimTerminator raw]
    refine hstep.sound_kept h hmode fun hot => ?_
    obtain ⟨hrules, hinterrupts⟩ := ho hot
    refine ⟨hrules.after_eq_nil (by simp [openRule?, hmode]), fun hblock => ?_⟩
    simpa [interrupts, hmode, hblock, isBodyLine, hink, hcomment, hmarker, hheader, hend]
      using hinterrupts

/-! ## Whole texts -/

/-- Text that is left to be read stands outside every rule. -/
theorem Step.mode_of_some {raw rest : Text} (hstep : s.Step raw s' (some rest)) :
    s'.mode = .outside := by
  have hbody : ∀ {s r line header}, BodyStep s r line header s' (some rest) →
      s'.mode = .outside := by
    intro s r line header hbody
    generalize ht : some rest = t at hbody
    cases hbody with
    | closed => rfl
    | _ => exact absurd ht (by simp)
  cases hstep with
  | headerBody _ _ _ hstep => exact hbody hstep
  | body _ _ _ _ _ _ hstep => exact hbody hstep

theorem LineSteps.sound_kept {raw : Text} (h : s.Sound) (hsteps : LineSteps s raw s')
    (ho : o = true → s'.RulesOnly ∧ s.interrupts raw = false) :
    s'.Sound ∧ Kept o s'.written (s.written ++ ink raw) := by
  induction hsteps with
  | last hstep =>
    obtain ⟨added, hadded, -⟩ := hstep.outline_eq
    obtain ⟨hsound, hkept⟩ := hstep.sound_kept h fun hot =>
      ⟨(ho hot).1.of_outline hadded, (ho hot).2⟩
    exact ⟨hsound, by simpa using hkept⟩
  | more hstep hsteps ih =>
    obtain ⟨added, hadded, -⟩ := hstep.outline_eq
    obtain ⟨later, hlater⟩ := hsteps.outline_eq
    obtain ⟨hsound, hkept⟩ := hstep.sound_kept h fun hot =>
      ⟨((ho hot).1.of_outline hlater).of_outline hadded, (ho hot).2⟩
    obtain ⟨hsound', hkept'⟩ := ih hsound fun hot =>
      ⟨(ho hot).1, by simp [interrupts, hstep.mode_of_some]⟩
    refine ⟨hsound', hkept'.trans ?_⟩
    simpa using hkept

/-- The first line that goes on with a production behind a block of this production. -/
def interruption? (s : Scan) : List Text → Option Text
  | [] => none
  | l :: ls =>
      if s.interrupts l then some l
      else
        match s.line l with
        | .ok next => interruption? next ls
        | .error _ => none

/-- Reading lines keeps what was written and adds the lines. -/
theorem Reads.sound_kept {ls : List Text} (h : s.Sound) (hreads : Reads s ls s')
    (ho : o = true → s'.RulesOnly ∧ interruption? s ls = none) :
    s'.Sound ∧ Kept o s'.written (s.written ++ ls.flatMap ink) := by
  induction hreads with
  | nil s => exact ⟨h, Kept.of_eq (by simp)⟩
  | @cons s next s' l ls hline hrest ih =>
    obtain ⟨later, hlater⟩ := hrest.outline_eq
    have hfirst : o = true → s.interrupts l = false ∧ interruption? next ls = none := by
      intro hot
      have hnone := (ho hot).2
      rw [interruption?, hline] at hnone
      split at hnone
      · exact absurd hnone (by simp)
      · rename_i hl
        exact ⟨by simpa using hl, hnone⟩
    obtain ⟨hsound, hkept⟩ :=
      (line_lineSteps hline).sound_kept (s := { s with lines := s.lines + 1 }) ⟨h.closed, h.mode⟩
        fun hot => ⟨(ho hot).1.of_outline hlater, (hfirst hot).1⟩
    obtain ⟨hsound', hkept'⟩ := ih hsound fun hot => ⟨(ho hot).1, (hfirst hot).2⟩
    refine ⟨hsound', hkept'.trans ?_⟩
    rw [List.flatMap_cons, ← List.append_assoc]
    exact hkept.append_right _

end Scan

namespace Document

variable {o : Bool} {text : Text} {d : Document}

/-- Every rule of a document that was read has its blocks in order. -/
theorem parse_ordered (h : Document.parse text = .ok d) : ∀ r, .rule r ∈ d.entries → r.Ordered := by
  obtain ⟨s, hreads, hentries, -⟩ := parse_cases h
  have hstart : Scan.start.Sound := ⟨by simp [Scan.start], trivial⟩
  rw [hentries]
  exact (hreads.sound_kept (o := false) hstart (by simp)).1.entries

/-- The ink of a document is that of the text it was read from, up to semicolons, and in the same
order when nothing but rules was read and no production goes on behind a block. -/
theorem parse_kept (h : Document.parse text = .ok d)
    (ho : o = true → (∀ e ∈ d.entries, e.isRule = true) ∧
      Scan.start.interruption? (lines text) = none) :
    Kept o (ink d.render) (ink text) := by
  obtain ⟨s, hreads, hentries, hmode⟩ := parse_cases h
  have hstart : Scan.start.Sound := ⟨by simp [Scan.start], trivial⟩
  obtain ⟨hsound, hkept⟩ := hreads.sound_kept (o := o) hstart fun hot => by
    rw [Scan.rulesOnly_iff, ← hentries]
    exact ho hot
  have htext : ink text = Scan.start.written ++ (lines text).flatMap ink := by
    rw [← ink_flatten (endedLines_lines text), flatten_lines]
    rfl
  rw [Document.ink_render (parse_endedEntries h), hentries, htext]
  refine Kept.trans ?_ hkept
  cases hm : s.mode with
  | outside => exact Scan.entriesInk_kept hsound (Or.inl hm)
  | body r => exact Scan.entriesInk_kept hsound (Or.inr ⟨r, hm⟩)
  | action r a => exact absurd hm (hmode r a)
  | footer => exact Kept.of_eq (by simp [Scan.entries, Scan.openRule?, hm, Scan.written, Mode.ink])

/-- Reading loses and invents nothing: every byte but the semicolon is written as often as it was
read, and no semicolon is lost. -/
theorem parse_count_ink (h : Document.parse text = .ok d) :
    (∀ c, c ≠ semicolon → (ink d.render).count c = (ink text).count c) ∧
      (ink text).count semicolon ≤ (ink d.render).count semicolon := by
  have hkept := parse_kept (o := false) h (by simp)
  refine ⟨fun c hc => ?_, hkept.semicolons⟩
  have hcount := hkept.perm.count_eq c
  simpa only [withoutSemicolons, List.count_filter, bne_iff_ne.2 hc] using hcount

/-- One semicolon is read, and the two rules are written with one each. -/
theorem parse_count_ink_two_rules :
    ∃ d, Document.parse (bytes "a: b | 'c;' \x7b\n x\n\x7d;\nd:\n") = .ok d ∧
      (∀ c, c ≠ semicolon → (ink d.render).count c
        = (ink (bytes "a: b | 'c;' \x7b\n x\n\x7d;\nd:\n")).count c) ∧
      (ink (bytes "a: b | 'c;' \x7b\n x\n\x7d;\nd:\n")).count semicolon
        ≤ (ink d.render).count semicolon := by
  have h : Document.parse (bytes "a: b | 'c;' \x7b\n x\n\x7d;\nd:\n")
      = .ok ⟨[.rule
          { name := bytes "a", line := 1, productions := [bytes "b", bytes "| 'c;'"]
            actions := [⟨bytes " \x7b\n x\n\x7d", 1, 1⟩] },
        .rule { name := bytes "d", line := 4 }]⟩ := by decide +kernel
  exact ⟨_, h, parse_count_ink h⟩

end Document

end GrammarLayout
