import GrammarLayout.Proofs.Stable.Written

/-!
# What the reader leaves behind

A document that was read is one that can be written and read again, as far as its
blocks and the lines between its rules go: a block closes on its last line, unless
a semicolon stands behind its last brace, every name is a word, and the lines that
are kept outside the sections after the grammar are told for what they are.

What is proved here:

* `Scan.Step.readSource`, `Scan.Reads.readSource` — blocks, names and lines, after
  one step and after a whole run of the reader;
* `Scan.Step.divided`, `Scan.Reads.divided` — where the sections after the grammar
  begin;
* `Document.parse_readSource`, `Document.parse_divided` — the same of a document.
-/

namespace GrammarLayout

open Ascii Text

/-! ## Open blocks -/

/-- The text of a block of which `depth` braces are open at its end. -/
structure IsOpenBlock (text : Text) (depth : Int) : Prop where
  /-- A brace is open. -/
  opened : 0 < depth
  /-- The block opens on its first line, and lines that close the open braces close the block. -/
  parts : ∃ lead l₀ below, text = lead ++ joinLines (l₀ :: below) ∧ openBrace ∉ lead ∧
    l₀.head? = some openBrace ∧ closingBraceFrom 0 l₀ = none ∧ (∀ l ∈ l₀ :: below, newline ∉ l) ∧
      ∀ rest, Closes depth rest → Closes (braceBalance l₀) (below ++ rest)

/-- A line opens a block at its first brace that is not closed. -/
theorem isOpenBlock_of_unclosedBrace? {line : Text} {i : Nat} (h : unclosedBrace? line = some i)
    (hbalance : 0 < braceBalance (line.drop i)) (hline : newline ∉ line) {lead : Text}
    (hlead : openBrace ∉ lead) : IsOpenBlock (lead ++ line.drop i) (braceBalance (line.drop i)) := by
  obtain ⟨rest, hrest⟩ := exists_drop_unclosedBrace? h
  refine ⟨hbalance, lead, line.drop i, [], rfl, hlead, by rw [hrest]; rfl, unclosedBrace?_drop h, ?_,
    fun rest hrest => hrest⟩
  exact List.forall_mem_singleton.2 fun hmem => hline (List.mem_of_mem_drop hmem)

namespace IsOpenBlock

variable {text : Text} {depth : Int} (h : IsOpenBlock text depth) {l : Text} (hl : newline ∉ l)
include h hl

/-- A block goes on with a line that leaves braces open. -/
theorem append_newline (hdepth : 0 < depth + braceBalance l) :
    IsOpenBlock (text ++ newline :: l) (depth + braceBalance l) := by
  obtain ⟨lead, l₀, below, rfl, hlead, hopened, hunclosed, hlines, hcloses⟩ := h.parts
  refine ⟨hdepth, lead, l₀, below ++ [l], ?_, hlead, hopened, hunclosed, ?_, fun rest hrest => ?_⟩
  · rw [List.append_assoc, ← joinLines_concat (List.cons_ne_nil l₀ below), List.cons_append]
  · rw [← List.cons_append]
    exact List.forall_mem_append.2 ⟨hlines, List.forall_mem_singleton.2 hl⟩
  · obtain ⟨next, ls, rfl⟩ := List.exists_cons_of_ne_nil hrest.ne_nil
    rw [List.append_assoc, List.singleton_append]
    exact hcloses _ ⟨hdepth, hrest⟩

/-- A block is closed by a line with as many closing braces as are open, unless a semicolon stands
behind the last of them. -/
theorem blockCloses (hbalance : depth + braceBalance l = 0) (owner : Int) (k : Nat)
    (hsemicolon : ¬ bytes "\x7d;" <:+ ink (Action.ofText (text ++ newline :: l) owner k).body) :
    BlockCloses (splitLines (Action.ofText (text ++ newline :: l) owner k).body) := by
  obtain ⟨lead, l₀, below, rfl, hlead, hopened, hunclosed, hlines, hcloses⟩ := h.parts
  have hink : ink (trimEndWhile isLayout l) = ink l := ink_trimLayoutEnd l
  have hbraces : braceBalance (trimEndWhile isLayout l) = braceBalance l := braceBalance_of_ink hink
  have hne : trimEndWhile isLayout l ≠ [] := by
    intro hnil
    have hpositive := h.opened
    rw [hnil, braceBalance_nil] at hbraces
    omega
  have htext : (Action.ofText (lead ++ joinLines (l₀ :: below) ++ newline :: l) owner k).text
      = lead ++ joinLines (l₀ :: (below ++ [trimEndWhile isLayout l])) := by
    have hkept := trimEndWhile_append_of_ne_nil hne (lead ++ joinLines (l₀ :: below) ++ [newline])
    rw [List.append_assoc _ [newline], List.append_assoc _ [newline], List.singleton_append,
      List.singleton_append] at hkept
    rw [← List.cons_append, joinLines_concat (List.cons_ne_nil l₀ below), ← List.append_assoc]
    exact hkept
  obtain ⟨t, ht⟩ : ∃ t, joinLines (l₀ :: (below ++ [trimEndWhile isLayout l])) = openBrace :: t := by
    obtain ⟨t, rfl⟩ := List.head?_eq_some_iff.1 hopened
    exact ⟨_, by rw [joinLines_cons (by simp)]; rfl⟩
  have hbody : (Action.ofText (lead ++ joinLines (l₀ :: below) ++ newline :: l) owner k).body
      = joinLines (l₀ :: (below ++ [trimEndWhile isLayout l])) := by
    rw [ht] at htext ⊢
    exact ((Action.Cut.block hlead).lead_body htext).2
  rw [hbody] at hsemicolon ⊢
  rw [splitLines_joinLines (by simp)]
  · refine ⟨hunclosed, hcloses _ ⟨by rw [hbraces]; exact hbalance, fun hsuffix => hsemicolon ?_⟩⟩
    rw [← List.cons_append, joinLines_concat (List.cons_ne_nil l₀ below), ink_append_newline]
    exact hsuffix.trans (List.suffix_append _ _)
  · rw [← List.cons_append]
    refine List.forall_mem_append.2 ⟨hlines, List.forall_mem_singleton.2 fun hmem => hl ?_⟩
    exact mem_of_mem_trimEndWhile hmem

end IsOpenBlock

/-! ## Rules and lines as they are read -/

/-- A rule that was read: its name is a word, its settings are those of every rule, and a block
closes on its last line unless a semicolon stands behind its last brace. -/
structure Rule.ReadSource (r : Rule) : Prop where
  /-- There is a name. -/
  named : r.name ≠ []
  /-- The name is a word. -/
  name : ∀ p ∈ pieces r.name, p.isWord = true
  /-- All settings are the ones that a rule starts with. -/
  settings : r = { name := r.name, line := r.line, productions := r.productions, actions := r.actions }
  /-- The blocks close. -/
  closes : ∀ a ∈ r.actions, ¬ bytes "\x7d;" <:+ ink a.body → BlockCloses (splitLines a.body)

/-- A rule or a line that was read. -/
def Entry.ReadSource : Entry → Prop
  | .verbatim v => lines v.text = [v.text]
  | .rule r => r.ReadSource

/-- Reading productions changes productions only. -/
theorem Rule.readProductions_eq {r r' : Rule} {text : Text} {header : Bool}
    (h : r.readProductions text header = .ok r') : r' = { r with productions := r'.productions } := by
  have hextend : ∀ (r : Rule) t, r.extendProduction t
      = { r with productions := (r.extendProduction t).productions } := by
    intro r t
    unfold extendProduction
    split <;> rfl
  rw [readProductions] at h
  generalize readyAlternatives text header = alts at h
  induction alts generalizing r with
  | nil =>
    rw [← Except.ok.inj h]
  | cons p alts ih =>
    rw [List.foldlM_cons] at h
    obtain ⟨next, hp, hnext⟩ := exists_of_bind_eq_ok h
    have hnext := ih hnext
    rcases readAlternative_cases hp with ⟨-, rfl⟩ | ⟨-, -, q, -, rfl⟩ | ⟨-, -, -, rfl⟩
    · exact hnext
    · exact hnext
    · rw [hextend] at hnext
      exact hnext

namespace Rule.ReadSource

variable {r r' : Rule} (h : r.ReadSource)
include h

theorem readProductions {text : Text} {header : Bool} (hr : r.readProductions text header = .ok r') :
    r'.ReadSource := by
  have hsettings := h.settings
  rw [readProductions_eq hr]
  exact ⟨h.named, h.name, by rw [hsettings], h.closes⟩

theorem addAction {a : Action} (ha : ¬ bytes "\x7d;" <:+ ink a.body → BlockCloses (splitLines a.body)) :
    (r.addAction a).ReadSource := by
  have hsettings := h.settings
  refine ⟨h.named, h.name, ?_, List.forall_mem_append.2 ⟨h.closes, List.forall_mem_singleton.2 ha⟩⟩
  rw [hsettings]
  rfl

end Rule.ReadSource

theorem lines_concat_newline {a : Text} (ha : newline ∉ a) : lines (a ++ [newline]) = [a ++ [newline]] := by
  rw [lines_append_newline ha, show lines [] = [] by rw [lines]]

namespace Scan

/-- The entries and the open block are as the reader leaves them. -/
abbrev ReadSource (s : Scan) : Prop :=
  s.Holds Entry.ReadSource fun a => IsOpenBlock a.text a.balance

variable {s s' : Scan} {r : OpenRule} {line : Text} {t : Option Text}

theorem BodyStep.readSource {header : Bool} (h : s.ReadSource) (hr : s.openRule? = some r)
    (hline : newline ∉ line) (hstep : s.BodyStep r line header s' t) : s'.ReadSource := by
  have hrule : r.rule.ReadSource := h.rule hr
  cases hstep with
  | closed => exact h.leave (Or.inl rfl)
  | @opened i hbrace hbalance hblank =>
    have hlead : openBrace ∉ newline :: line.take i :=
      List.not_mem_cons_of_ne_of_not_mem (by decide) (Action.openBrace_notMem_of_isSpaces hblank)
    have hopen := isOpenBlock_of_unclosedBrace? hbrace hbalance hline hlead
    rw [List.cons_append, List.take_append_drop] at hopen
    exact h.withAction hr (h.rule hr) hopen
  | @openedBehind i _ _ hbrace hbalance _ hread =>
    obtain ⟨w, hw, htext⟩ := exists_drop_trimBlanksEnd line i
    have hopen := isOpenBlock_of_unclosedBrace? hbrace hbalance hline (Action.openBrace_notMem_of_isSpaces hw)
    rw [← htext] at hopen
    exact h.withAction hr (hrule.readProductions hread) hopen
  | productions _ _ _ hread => exact h.withRule hr (hrule.readProductions hread)
  | terminated _ _ _ hread =>
    exact (h.withRule hr (hrule.readProductions hread)).leave (Or.inl rfl)

theorem ActionStep.readSource {a : OpenAction} (h : s.ReadSource) (hmode : s.mode = .action r a)
    (hline : newline ∉ line) (hstep : s.ActionStep r a line s') : s'.ReadSource := by
  have hr : s.openRule? = some r := by simp [openRule?, hmode]
  have hrule : r.rule.ReadSource := h.rule hr
  have hopen : IsOpenBlock a.text a.balance := h.opened r a hmode
  have hbraces : braceBalance (trimBlanksEnd line) = braceBalance line :=
    braceBalance_of_ink (ink_trimBlanksEnd line)
  have hnewline : newline ∉ trimBlanksEnd line := fun hmem => hline (mem_of_mem_trimEndWhile hmem)
  cases hstep with
  | longer hbalance => exact h.withAction hr (h.rule hr) (hopen.append_newline hline hbalance)
  | closed hbalance =>
    rw [← hbraces] at hbalance
    exact h.withRule hr (hrule.addAction (hopen.blockCloses hnewline hbalance _ _))
  | @terminated last hbalance hlast =>
    have hsemicolon : braceBalance (last ++ [semicolon]) = braceBalance last := by
      rw [braceBalance_append, show braceBalance [semicolon] = 0 by decide, add_zero]
    rw [← hbraces, hlast, hsemicolon] at hbalance
    rw [hlast] at hnewline
    refine (h.withRule hr (hrule.addAction ?_)).leave (Or.inl rfl)
    exact hopen.blockCloses (fun hmem => hnewline (List.mem_append_left _ hmem)) hbalance _ _

/-- A step of the reader leaves blocks that close and names that are words. -/
theorem Step.readSource {raw : Text} (h : s.ReadSource) (hraw : Text.lines raw = [raw])
    (hline : newline ∉ trimTerminator raw) (hstep : s.Step raw s' t) : s'.ReadSource := by
  have hnew : ∀ {name rest : Text}, header? (trimTerminator raw) = some (name, rest) →
      (s.leave (.body (s.newRule name))).ReadSource := by
    intro name rest hheader
    obtain ⟨-, -, -, -, -, hne⟩ := header?_eq hheader
    exact h.leave_newRule ⟨hne, isWord_of_mem_pieces_name hheader, rfl, by simp [newRule]⟩
  have hnewline : ∀ {name rest : Text}, header? (trimTerminator raw) = some (name, rest) →
      newline ∉ rest := by
    intro name rest hheader hmem
    obtain ⟨w₁, w₂, heq, -⟩ := header?_eq hheader
    exact hline (by rw [heq]; simp [hmem])
  cases hstep with
  | footer => exact h.keep hraw
  | action hmode hstep => exact hstep.readSource h hmode hline
  | aside => exact h.keep hraw
  | marker => exact (h.leave (Or.inr rfl)).keep hraw
  | header _ hheader => exact hnew hheader
  | headerComment _ hheader =>
    exact (hnew hheader).keep (lines_concat_newline fun hmem => hnewline hheader (mem_of_mem_trim hmem))
  | headerBody _ hheader _ hstep => exact hstep.readSource (hnew hheader) rfl (hnewline hheader)
  | stop => exact (h.leave (Or.inl rfl)).keep hraw
  | outside => exact h.keep hraw
  | body hmode _ _ _ _ _ hstep => exact hstep.readSource h (by simp [openRule?, hmode]) hline

theorem LineSteps.readSource {raw : Text} (h : s.ReadSource) (hraw : Text.lines raw = [raw])
    (hline : newline ∉ trimTerminator raw) (hsteps : LineSteps s raw s') : s'.ReadSource := by
  induction hsteps with
  | last hstep => exact hstep.readSource h hraw hline
  | @more s next s' raw rest hstep _ ih =>
    have hrest : newline ∉ rest := fun hmem => hline (hstep.mem_rest newline hmem)
    exact ih (hstep.readSource h hraw hline) (lines_concat_newline hrest) (hstep.newline_notMem_rest hline)

theorem Reads.readSource {ls : List Text} (h : s.ReadSource) (hls : ∀ l ∈ ls, Text.lines l = [l])
    (hnewline : ∀ l ∈ ls, newline ∉ trimTerminator l) (hreads : Reads s ls s') : s'.ReadSource := by
  induction hreads with
  | nil => exact h
  | @cons s next s' l ls hline _ ih =>
    rw [List.forall_mem_cons] at hls hnewline
    exact ih ((line_lineSteps hline).readSource (h.withLines (s.lines + 1)) hls.1 hnewline.1)
      hls.2 hnewline.2

end Scan

/-! ## Sections after the grammar -/

namespace Scan

variable {s s' : Scan} {r : OpenRule} {line : Text} {t : Option Text}

/-- Outside the sections after the grammar every line that was kept can be told for what it is, and
from the first line of these sections on there are lines only. -/
def Divided (s : Scan) : Prop :=
  ∃ (front : List (Option Text)) (back : List Text), s.outline = front ++ back.map some ∧
    (∀ l, some l ∈ front → Verbatim.Legible ⟨l, false⟩) ∧ (∀ l ∈ back.head?, isFooterMarker l = true) ∧
      (s.mode = .footer ↔ back ≠ [])

theorem BodyStep.mode_ne_footer {header : Bool} (hstep : s.BodyStep r line header s' t) :
    s'.mode ≠ .footer := by
  cases hstep <;> simp [leave, openAction, withRule]

theorem ActionStep.mode_ne_footer {a : OpenAction} (hstep : s.ActionStep r a line s') :
    s'.mode ≠ .footer := by
  cases hstep <;> simp [leave, withRule]

theorem mode_keep_eq_footer (s : Scan) (raw : Text) : (s.keep raw).mode = .footer ↔ s.mode = .footer := by
  unfold keep
  split <;> simp_all

/-- What a step does to the lines that were kept: a line in the sections after the grammar, the line
that begins them, or lines in front of them. -/
theorem Step.outline_cases {raw : Text} (hstep : s.Step raw s' t) :
    (s.mode = .footer ∧ s'.mode = .footer ∧ s'.outline = s.outline ++ [some raw]) ∨
      (s.mode ≠ .footer ∧ s'.mode = .footer ∧ isFooterMarker raw = true ∧
        s'.outline = s.outline ++ [some raw]) ∨
      (s.mode ≠ .footer ∧ s'.mode ≠ .footer ∧ ∃ added, s'.outline = s.outline ++ added ∧
        ∀ l, some l ∈ added → Verbatim.Legible ⟨l, false⟩) := by
  have hgrammar : (s.mode = .outside ∨ ∃ r, s.mode = .body r) → s.mode ≠ .footer := by
    rintro (hmode | ⟨r, hmode⟩) <;> simp [hmode]
  have hkept : ∀ (front : Scan) (added : List (Option Text)) (l : Text), front.mode ≠ .footer →
      front.outline = s.outline ++ added → (∀ l, some l ∉ added) → Verbatim.Legible ⟨l, false⟩ →
      (front.keep l).mode ≠ .footer ∧ ∃ added, (front.keep l).outline = s.outline ++ added ∧
        ∀ l, some l ∈ added → Verbatim.Legible ⟨l, false⟩ := by
    intro front added l hmode houtline hadded hl
    refine ⟨fun h => hmode ((mode_keep_eq_footer front l).1 h), added ++ [some l], ?_, fun k hk => ?_⟩
    · rw [outline_keep, houtline, List.append_assoc]
    · rcases List.mem_append.1 hk with hk | hk
      · exact absurd hk (hadded k)
      · obtain rfl : k = l := by simpa using hk
        exact hl
  cases hstep with
  | footer hmode => exact .inl ⟨hmode, (mode_keep_eq_footer s raw).2 hmode, outline_keep s raw⟩
  | action hmode hstep =>
    refine .inr (.inr ⟨by simp [hmode], hstep.mode_ne_footer, [], ?_, by simp⟩)
    rw [hstep.outline_eq (by simp [openRule?, hmode]), List.append_nil]
  | aside hmode hline =>
    refine .inr (.inr ⟨hgrammar hmode, hkept s [] raw (hgrammar hmode) (List.append_nil _).symm (by simp) ?_⟩)
    rw [← isSpaces_trim, trim_trimTerminator, isSpaces_trim] at hline
    exact hline.imp_right Or.inl
  | marker hmode hline =>
    rw [isFooterMarker_trimTerminator] at hline
    refine .inr (.inl ⟨hgrammar hmode, (mode_keep_eq_footer _ raw).2 rfl, hline, ?_⟩)
    rw [outline_keep, outline_leave_footer]
  | header hmode =>
    exact .inr (.inr ⟨hgrammar hmode, by simp [leave], [none], outline_leave_newRule s _, by simp⟩)
  | headerComment hmode _ hrest =>
    refine .inr (.inr ⟨hgrammar hmode, hkept _ [none] _ (by simp [leave]) (outline_leave_newRule s _)
      (by simp) (.inr (.inl ?_))⟩)
    rwa [Verbatim.isComment, trim_append_of_isSpaces (by decide), trim_trim]
  | headerBody hmode _ _ hstep =>
    refine .inr (.inr ⟨hgrammar hmode, hstep.mode_ne_footer, [none], ?_, by simp⟩)
    rw [hstep.outline_eq rfl, outline_leave_newRule]
  | stop hmode hline =>
    refine .inr (.inr ⟨by simp [hmode], hkept _ [] raw (by simp [leave])
      (by rw [outline_leave_outside, List.append_nil]) (by simp) (.inr (.inr ⟨?_, ?_⟩))⟩)
    · refine header?_eq_none_of_ink ?_
      rw [← ink_trim, hline]
      decide
    · rw [← isFooterMarker_trimTerminator, isFooterMarker, hline]
      decide
  | outside hmode hheader hmarker =>
    rw [isFooterMarker_trimTerminator] at hmarker
    exact .inr (.inr ⟨by simp [hmode], hkept s [] raw (by simp [hmode]) (List.append_nil _).symm (by simp)
      (.inr (.inr ⟨hheader, hmarker⟩))⟩)
  | body hmode _ _ _ _ _ hstep =>
    refine .inr (.inr ⟨by simp [hmode], hstep.mode_ne_footer, [], ?_, by simp⟩)
    rw [hstep.outline_eq (by simp [openRule?, hmode]), List.append_nil]

/-- A step keeps the lines in front of the sections after the grammar apart from those in them. -/
theorem Step.divided {raw : Text} (h : s.Divided) (hstep : s.Step raw s' t) : s'.Divided := by
  obtain ⟨front, back, houtline, hfront, hback, hmode⟩ := h
  rcases hstep.outline_cases with ⟨hfooter, hnext, hadded⟩ | ⟨hgrammar, hnext, hmarker, hadded⟩ |
      ⟨hgrammar, hnext, added, hadded, hlegible⟩
  · refine ⟨front, back ++ [raw], by rw [hadded, houtline]; simp, hfront, ?_, by simp [hnext]⟩
    rw [List.head?_append_of_ne_nil _ (hmode.1 hfooter)]
    exact hback
  · obtain rfl : back = [] := by
      by_contra hne
      exact hgrammar (hmode.2 hne)
    refine ⟨front, [raw], by rw [hadded, houtline]; simp, hfront, ?_, by simp [hnext]⟩
    rintro l ⟨⟩
    exact hmarker
  · obtain rfl : back = [] := by
      by_contra hne
      exact hgrammar (hmode.2 hne)
    refine ⟨front ++ added, [], by rw [hadded, houtline]; simp, fun l hl => ?_, by simp, by simp [hnext]⟩
    rcases List.mem_append.1 hl with hl | hl
    exacts [hfront l hl, hlegible l hl]

theorem LineSteps.divided {raw : Text} (h : s.Divided) (hsteps : LineSteps s raw s') : s'.Divided := by
  induction hsteps with
  | last hstep => exact hstep.divided h
  | more hstep _ ih => exact ih (hstep.divided h)

theorem Reads.divided {ls : List Text} (h : s.Divided) (hreads : Reads s ls s') : s'.Divided := by
  induction hreads with
  | nil => exact h
  | @cons s next s' l ls hline _ ih =>
    have hcounted : Divided { s with lines := s.lines + 1 } := h
    exact ih ((line_lineSteps hline).divided hcounted)

end Scan

/-! ## Whole texts -/

/-- A line of a text is one line. -/
theorem lines_of_mem_lines {s l : Text} (h : l ∈ lines s) : lines l = [l] := by
  induction s generalizing l with
  | nil => simp [lines] at h
  | cons c s ih =>
    rw [lines] at h
    split at h
    · rename_i hc
      rcases List.mem_cons.1 h with rfl | h
      · rw [lines, if_pos hc, lines]
      · exact ih h
    · rename_i hc
      -- The byte goes in front of the first line of the others.
      cases hls : lines s with
      | nil =>
        rw [hls, List.mem_singleton] at h
        rw [h, lines, if_neg hc, lines]
      | cons k ls =>
        rw [hls] at h ih
        rcases List.mem_cons.1 h with rfl | h
        · rw [lines, if_neg hc, ih List.mem_cons_self]
        · exact ih (List.mem_cons_of_mem k h)

namespace Document

variable {text : Text} {d : Document}

/-- What is read from a text has blocks that close, names that are words, and single lines. -/
theorem parse_readSource (h : Document.parse text = .ok d) : ∀ e ∈ d.entries, e.ReadSource := by
  obtain ⟨s, hreads, hentries, -⟩ := parse_cases h
  rw [hentries]
  exact (hreads.readSource Scan.Holds.start (fun _ => lines_of_mem_lines)
    fun _ => newline_notMem_trimTerminator).entries

/-- The lines in front of the sections after the grammar can be told for what they are, and no rule
stands behind them. -/
theorem parse_divided (h : Document.parse text = .ok d) :
    ∃ (front : List Entry) (back : List Verbatim), d.entries = front ++ back.map Entry.verbatim ∧
      (∀ v, .verbatim v ∈ front → v.Legible) ∧ ∀ v ∈ back.head?, isFooterMarker v.text = true := by
  obtain ⟨s, hreads, hentries, -⟩ := parse_cases h
  have hstart : Scan.start.Divided := ⟨[], [], rfl, by simp, by simp, by simp [Scan.start]⟩
  obtain ⟨front, back, houtline, hfront, hback, -⟩ := hreads.divided hstart
  obtain ⟨es, fs, hes, rfl, hfs⟩ := List.map_eq_append_iff.1 houtline
  have hlines : ∀ {es : List Entry} {ls : List Text}, es.map Entry.line? = ls.map some →
      ∃ vs : List Verbatim, es = vs.map Entry.verbatim ∧ vs.map Verbatim.text = ls := by
    intro es ls hls
    induction es generalizing ls with
    | nil => exact ⟨[], rfl, by simpa using hls⟩
    | cons e es ih =>
      obtain ⟨l, ls, rfl⟩ : ∃ l ls', ls = l :: ls' := List.exists_cons_of_ne_nil (by rintro rfl; simp at hls)
      rw [List.map_cons, List.map_cons, List.cons.injEq] at hls
      obtain ⟨vs, rfl, rfl⟩ := ih hls.2
      cases e with
      | verbatim v => exact ⟨v :: vs, rfl, by rw [List.map_cons, Option.some.inj hls.1]⟩
      | rule r => exact absurd hls.1 (by simp [Entry.line?])
  obtain ⟨vs, rfl, rfl⟩ := hlines hfs
  refine ⟨es, vs, by rw [hentries, hes], fun v hv => hfront v.text (List.mem_map_of_mem hv), fun v hv => ?_⟩
  refine hback v.text ?_
  rw [List.head?_map, hv]
  rfl

end Document

end GrammarLayout
