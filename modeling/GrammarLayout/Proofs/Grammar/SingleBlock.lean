import GrammarLayout.Proofs.Grammar.Shape

/-!
# When every action is one block

The reader follows a block by the number of braces that are open at the end of
each line.  A line that closes the block and has more behind the closing brace,
other than a semicolon that ends the rule, is taken into the block as a whole:
it overruns.  As long as no line overruns, every action is white space and one
block, and the open block is not closed by any of its lines; after the first
line that does, some action holds more than its block.

What is proved here:

* `Action.isBlock_ofText_iff` — a text is one block when nothing but layout
  follows the matching brace;
* `Scan.ActionStep.tidy_iff`, `Scan.Reads.tidy_iff` — what one line and a whole
  run do to the actions;
* `Document.parse_isBlock` — every action is one block exactly when no line
  overruns.
-/

namespace GrammarLayout

open Ascii Text

/-! ## Blocks -/

namespace Action

/-- The action is white space and one block: its first brace is matched by its last byte. -/
structure IsBlock (a : Action) : Prop where
  /-- Only white space stands before the brace. -/
  lead : isSpaces a.lead = true
  /-- The block starts with a brace. -/
  opened : a.body.head? = some openBrace
  /-- The brace is matched by the last byte. -/
  closed : matchingBrace? a.body 0 = some (a.body.length - 1)

/-- For an action that starts with a brace only the matching brace matters. -/
theorem isBlock_iff {a : Action} (h : a.Framed) :
    a.IsBlock ↔ closingBraceFrom 0 a.text = some (a.text.length - 1) := by
  obtain ⟨rest, hbody, hlead⟩ := h.exists_text
  have hclosing : closingBraceFrom 0 a.text
      = (closingBraceFrom 0 a.body).map (· + a.lead.length) := by
    conv => lhs; rw [← a.lead_append_body]
    exact closingBraceFrom_isSpaces_append hlead 0 a.body
  have hlen : a.text.length = a.lead.length + a.body.length := by
    rw [← List.length_append, a.lead_append_body]
  have hpos : 0 < a.body.length := by rw [hbody]; simp
  have hmatch : matchingBrace? a.body 0 = closingBraceFrom 0 a.body := by simp [matchingBrace?]
  have hshift : closingBraceFrom 0 a.body = some (a.body.length - 1)
      ↔ closingBraceFrom 0 a.text = some (a.text.length - 1) := by
    rw [hclosing, hlen]
    cases closingBraceFrom 0 a.body with
    | none => simp
    | some k =>
      simp only [Option.some.injEq, Option.map_some]
      omega
  constructor
  · intro hblock
    rw [← hshift, ← hmatch]
    exact hblock.closed
  · intro hclosed
    exact ⟨hlead, by rw [hbody]; rfl, by rw [hmatch, hshift]; exact hclosed⟩

/-- A text makes one block when nothing but layout follows the matching brace. -/
theorem isBlock_ofText_iff {full : Text} {owner line : Int} {k : Nat}
    (h : (ofText full owner line).Framed) (hclose : closingBraceFrom 0 full = some k) :
    (ofText full owner line).IsBlock ↔ ∀ c ∈ full.drop (k + 1), isLayout c = true := by
  obtain ⟨hfull, htake⟩ := closingBraceFrom_cut hclose
  have htext : (ofText full owner line).text
      = full.take k ++ closeBrace :: trimEndWhile isLayout (full.drop (k + 1)) := by
    rw [ofText]
    conv => lhs; rw [hfull]
    exact trimEndWhile_append_cons (by decide) _ _
  -- Layout at the end does not move the matching brace.
  have hsame : closingBraceFrom 0 (ofText full owner line).text = some k := by
    obtain ⟨w, hw, hblank⟩ := exists_trimEndWhile isLayout full
    have hnone : closeBrace ∉ w := fun hmem => absurd (hblank closeBrace hmem) (by decide)
    rw [hw, closingBraceFrom_append_of_notMem hnone] at hclose
    exact hclose
  rw [isBlock_iff h, hsame, htext, List.length_append, htake, List.length_cons, Option.some.injEq,
    ← trimEndWhile_eq_nil_iff, ← List.length_eq_zero_iff]
  omega

end Action

/-! ## Lines that overrun -/

/-- May a block end with this text behind its closing brace?  It is layout, or a semicolon between
blanks. -/
def endsBlock (rest : Text) : Bool :=
  rest.all isLayout || trimBlanksEnd (trimBlanksStart rest) == [semicolon]

/-- Does a line close the open block and go on behind the closing brace? -/
def OpenAction.overrunBy (a : OpenAction) (line : Text) : Bool :=
  (closingBraceFrom a.balance line).any fun j => !endsBlock (line.drop (j + 1))

theorem endsBlock_iff {rest : Text} : endsBlock rest = true ↔ (∀ c ∈ rest, isLayout c = true) ∨
    ∃ u v, rest = u ++ semicolon :: v ∧ (∀ c ∈ u, isBlank c = true) ∧
      ∀ c ∈ v, isBlank c = true := by
  rw [endsBlock, Bool.or_eq_true, List.all_eq_true, beq_iff_eq]
  refine or_congr_right ⟨fun h => ?_, ?_⟩
  · obtain ⟨v, hback, hv⟩ := exists_trimEndWhile isBlank (trimBlanksStart rest)
    rw [← trimBlanksEnd, h] at hback
    refine ⟨leadingBlanks rest, v, ?_, fun c hc => List.mem_takeWhile_imp hc, hv⟩
    calc rest = leadingBlanks rest ++ trimBlanksStart rest :=
          (List.takeWhile_append_dropWhile).symm
      _ = leadingBlanks rest ++ semicolon :: v := by rw [hback, List.singleton_append]
  · rintro ⟨u, v, rfl, hu, hv⟩
    have hstart : trimBlanksStart (u ++ semicolon :: v) = semicolon :: v := by
      rw [trimBlanksStart, List.dropWhile_append_of_pos hu]
      rfl
    have hend : trimEndWhile isBlank v = [] := trimEndWhile_eq_nil_iff.2 hv
    have hcut := trimEndWhile_append_cons (p := isBlank) (c := semicolon) (by decide) [] v
    rw [hstart, trimBlanksEnd]
    rw [hend] at hcut
    exact hcut

/-- A line that closes the block and ends with it leaves no brace open. -/
theorem balance_of_endsBlock {d : Int} {line : Text} {j : Nat}
    (h : closingBraceFrom d line = some j) (hend : endsBlock (line.drop (j + 1)) = true) :
    d + braceBalance line = 0 := by
  obtain ⟨hline, -⟩ := closingBraceFrom_cut h
  have hopen := closingBraceFrom_eq_some h
  generalize line.drop (j + 1) = rest at hline hend
  have hblank : ∀ {w : Text}, (∀ c ∈ w, isBlank c = true) → braceBalance w = 0 := fun hw =>
    braceBalance_of_isSpaces (ink_eq_nil_iff.1 (ink_of_spaces fun c hc =>
      isAsciiSpace_of_isBlank (hw c hc)))
  have hbalance : braceBalance rest = 0 := by
    rcases endsBlock_iff.1 hend with hlayout | ⟨u, v, rfl, hu, hv⟩
    · exact braceBalance_of_isSpaces (ink_eq_nil_iff.1 (ink_of_spaces fun c hc =>
        isAsciiSpace_of_isLayout (hlayout c hc)))
    · rw [braceBalance_append, braceBalance_cons (by decide) (by decide), hblank hu, hblank hv]
      rfl
  rw [hline, braceBalance_append, braceBalance_closeBrace, hbalance]
  omega

namespace OpenAction

variable {a : OpenAction} {line last : Text}

/-- A block that its last line closes is one block when it was not closed before and the line does
not overrun; `last` is what is taken of the line. -/
theorem isBlock_ofText_iff {w rest : Text} (htext : a.text = w ++ openBrace :: rest)
    (hw : isSpaces w = true) (hcount : braceBalance a.text = a.balance) (hpos : 0 < a.balance)
    (hbalance : a.balance + braceBalance line = 0)
    (hlast : ∀ j, closingBraceFrom a.balance line = some j →
      closingBraceFrom a.balance last = some j ∧
        ((∀ c ∈ last.drop (j + 1), isLayout c = true) ↔ endsBlock (line.drop (j + 1)) = true)) :
    (Action.ofText (a.text ++ newline :: last) a.owner a.line).IsBlock ↔
      closingBraceFrom 0 a.text = none ∧ a.overrunBy line = false := by
  have hframed : (Action.ofText (a.text ++ newline :: last) a.owner a.line).Framed := by
    rw [htext, List.append_assoc, List.cons_append]
    exact Action.framed_ofText hw a.owner a.line
  cases hclosed : closingBraceFrom 0 a.text with
  | some k =>
    -- The block was closed before, and braces were opened behind it.
    have hfull : closingBraceFrom 0 (a.text ++ newline :: last) = some k := by
      rw [closingBraceFrom_append, hclosed]
    obtain ⟨-, -, hk⟩ := closingBraceFrom_eq hclosed
    obtain ⟨hcut, -⟩ := closingBraceFrom_cut hclosed
    have hbraces : 0 < braceBalance (a.text.drop (k + 1)) := by
      have hone := closingBraceFrom_eq_some hclosed
      rw [hcut, braceBalance_append, braceBalance_closeBrace] at hcount
      omega
    have hmem : openBrace ∈ a.text.drop (k + 1) := by
      rw [← List.count_pos_iff]
      unfold braceBalance at hbraces
      omega
    rw [Action.isBlock_ofText_iff hframed hfull]
    refine ⟨fun hall => ?_, by simp⟩
    have := hall openBrace (by
      rw [List.drop_append_of_le_length (by omega)]
      exact List.mem_append_left _ hmem)
    exact absurd this (by decide)
  | none =>
    cases hline : closingBraceFrom a.balance line with
    | none =>
      have := balance_pos_of_closingBraceFrom hpos hline
      omega
    | some j =>
      obtain ⟨hsame, hiff⟩ := hlast j hline
      have hnewline : closingBraceFrom a.balance (newline :: last) = some (j + 1) := by
        rw [← List.singleton_append, closingBraceFrom_isSpaces_append (by decide), hsame]
        rfl
      have hfull : closingBraceFrom 0 (a.text ++ newline :: last)
          = some (j + 1 + a.text.length) := by
        rw [closingBraceFrom_append, hclosed, Int.zero_add, hcount, hnewline]
        rfl
      have hdrop : (a.text ++ newline :: last).drop (j + 1 + a.text.length + 1)
          = last.drop (j + 1) := by
        rw [show j + 1 + a.text.length + 1 = a.text.length + (1 + (j + 1)) by omega,
          ← List.drop_drop, List.drop_left, ← List.drop_drop]
        rfl
      rw [Action.isBlock_ofText_iff hframed hfull, hdrop, hiff]
      simp [overrunBy, hline]

/-- What is taken of a line that closes a block and not the rule. -/
theorem layout_trimBlanksEnd_iff (hend : ∀ last, trimBlanksEnd line = last ++ [semicolon] →
      endsWith [closeBrace] (trimBlanksEnd last) = false) {j : Nat}
    (hline : closingBraceFrom a.balance line = some j) :
    closingBraceFrom a.balance (trimBlanksEnd line) = some j ∧
      ((∀ c ∈ (trimBlanksEnd line).drop (j + 1), isLayout c = true) ↔
        endsBlock (line.drop (j + 1)) = true) := by
  obtain ⟨hcut, htake⟩ := closingBraceFrom_cut hline
  generalize line.drop (j + 1) = rest at hcut ⊢
  have htrim : trimBlanksEnd line = line.take j ++ closeBrace :: trimBlanksEnd rest := by
    conv => lhs; rw [hcut]
    exact trimEndWhile_append_cons (by decide) _ _
  have hdrop : (trimBlanksEnd line).drop (j + 1) = trimBlanksEnd rest := by
    rw [htrim, ← List.drop_drop, List.drop_left' htake]
    rfl
  obtain ⟨w, hw, hblank⟩ := exists_trimEndWhile isBlank line
  constructor
  · have hnone : closeBrace ∉ w := fun hmem => absurd (hblank closeBrace hmem) (by decide)
    rw [hw, closingBraceFrom_append_of_notMem hnone] at hline
    exact hline
  · rw [hdrop, endsBlock_iff]
    -- The trimmed bytes are layout too.
    have hall : (∀ c ∈ trimBlanksEnd rest, isLayout c = true) ↔ ∀ c ∈ rest, isLayout c = true := by
      refine ⟨fun h c hc => ?_, fun h c hc => h c (mem_of_mem_trimEndWhile hc)⟩
      obtain ⟨v, hsplit, hv⟩ := exists_trimEndWhile isBlank rest
      rw [hsplit, List.mem_append] at hc
      rcases hc with hc | hc
      · exact h c hc
      · simp [isLayout, hv c hc]
    rw [hall]
    refine ⟨Or.inl, fun h => h.resolve_right ?_⟩
    rintro ⟨u, v, hrest', hu, hv⟩
    have hsemi : trimBlanksEnd rest = u ++ [semicolon] := by
      rw [hrest', trimBlanksEnd, trimEndWhile_append_cons (by decide), trimEndWhile_eq_nil_iff.2 hv]
    have hbrace := hend (line.take j ++ closeBrace :: u) (by rw [htrim, hsemi]; simp)
    rw [trimBlanksEnd, trimEndWhile_append_cons (by decide), trimEndWhile_eq_nil_iff.2 hu,
      endsWith_singleton_iff.2 ⟨_, rfl⟩] at hbrace
    exact absurd hbrace (by simp)

/-- What is taken of a line that closes a block and the rule. -/
theorem layout_terminated_iff (hlast : trimBlanksEnd line = last ++ [semicolon])
    (hbrace : endsWith [closeBrace] (trimBlanksEnd last) = true) {j : Nat}
    (hline : closingBraceFrom a.balance line = some j) :
    closingBraceFrom a.balance last = some j ∧
      ((∀ c ∈ last.drop (j + 1), isLayout c = true) ↔
        endsBlock (line.drop (j + 1)) = true) := by
  obtain ⟨w, hsplit, hw⟩ := exists_trimEndWhile isBlank line
  rw [← trimBlanksEnd, hlast, List.append_assoc, List.singleton_append] at hsplit
  have hnone : closeBrace ∉ semicolon :: w := by
    rw [List.mem_cons, not_or]
    exact ⟨by decide, fun hmem => absurd (hw closeBrace hmem) (by decide)⟩
  have hsame : closingBraceFrom a.balance last = some j := by
    rwa [hsplit, closingBraceFrom_append_of_notMem hnone] at hline
  refine ⟨hsame, ?_⟩
  obtain ⟨-, -, hj⟩ := closingBraceFrom_eq hsame
  obtain ⟨hcut, -⟩ := closingBraceFrom_cut hsame
  rw [hsplit, List.drop_append_of_le_length (by omega), endsBlock_iff]
  generalize last.drop (j + 1) = rest at hcut ⊢
  constructor
  · -- Behind the closing brace the block has a brace at its end or only blanks.
    intro hlayout
    have hblank : ∀ c ∈ rest, isBlank c = true := by
      rw [← trimEndWhile_eq_nil_iff]
      by_contra hne
      obtain ⟨t, c, ht⟩ : ∃ t c, trimEndWhile isBlank rest = t ++ [c] :=
        ⟨_, _, (List.dropLast_concat_getLast hne).symm⟩
      obtain ⟨u, hu⟩ := endsWith_singleton_iff.1 hbrace
      rw [hcut, trimBlanksEnd, trimEndWhile_append_cons (by decide), ht, ← List.cons_append,
        ← List.append_assoc] at hu
      obtain ⟨-, hc⟩ := List.append_inj' hu rfl
      have hmem : closeBrace ∈ rest := by
        refine mem_of_mem_trimEndWhile (p := isBlank) ?_
        rw [ht, List.mem_append]
        exact Or.inr (by rw [List.cons.inj hc |>.1]; exact List.mem_singleton_self _)
      exact absurd (hlayout closeBrace hmem) (by decide)
    exact Or.inr ⟨rest, w, rfl, hblank, hw⟩
  · rintro (hlayout | ⟨u, v, heq, hu, hv⟩)
    · exact absurd (hlayout semicolon (by simp)) (by decide)
    · intro c hc
      have hblank : isBlank c = true := by
        rcases List.append_eq_append_iff.1 heq with ⟨x, hx, hy⟩ | ⟨x, hx, hy⟩
        · exact hu c (by rw [hx]; exact List.mem_append_left _ hc)
        · cases x with
          | nil =>
            rw [List.append_nil] at hx
            exact hu c (by rwa [← hx])
          | cons b x =>
            rw [List.cons_append, List.cons.injEq] at hy
            exact absurd (hv semicolon (by rw [hy.2]; simp)) (by decide)
      simp [isLayout, hblank]

end OpenAction

/-! ## One step -/

/-- The actions of an entry. -/
def Entry.actions : Entry → List Action
  | .verbatim _ => []
  | .rule r => r.actions

/-- The actions of entries, in order. -/
def entriesActions (es : List Entry) : List Action := es.flatMap Entry.actions

@[simp] theorem entriesActions_append (es fs : List Entry) :
    entriesActions (es ++ fs) = entriesActions es ++ entriesActions fs := List.flatMap_append

theorem entriesActions_verbatims (vs : List Verbatim) :
    entriesActions (vs.map .verbatim) = [] := by
  rw [entriesActions, List.flatMap_map, List.flatMap_eq_nil_iff]
  intro v _
  rfl

namespace Rule

theorem actions_readAlternative {r r' : Rule} {text : Text} {header : Bool}
    (hr : r.readAlternative text header = .ok r') : r'.actions = r.actions := by
  rcases readAlternative_cases hr with ⟨-, rfl⟩ | ⟨-, -, p, -, rfl⟩ | ⟨-, hne, -, rfl⟩
  · rfl
  · rfl
  · obtain ⟨ps, p, hps, -⟩ := exists_concat hne
    simp [extendProduction, hps]

/-- Adding productions leaves the actions of a rule. -/
theorem actions_readProductions {r r' : Rule} {text : Text} {header : Bool}
    (hr : r.readProductions text header = .ok r') : r'.actions = r.actions := by
  rw [readProductions] at hr
  generalize readyAlternatives text header = alts at hr
  induction alts generalizing r with
  | nil => rw [← Except.ok.inj hr]
  | cons p alts ih =>
    rw [List.foldlM_cons] at hr
    obtain ⟨next, hp, hnext⟩ := exists_of_bind_eq_ok hr
    rw [ih hnext, actions_readAlternative hp]

end Rule

namespace Scan

/-- Every action read is one block, and the open block is not closed by any of its lines. -/
structure Tidy (s : Scan) : Prop where
  /-- The actions are blocks. -/
  actions : ∀ a ∈ entriesActions s.entries, a.IsBlock
  /-- The open block is not closed. -/
  opened : ∀ r a, s.mode = .action r a → closingBraceFrom 0 a.text = none

/-- Does a line close the open block and go on behind the closing brace? -/
def overruns (s : Scan) (raw : Text) : Bool :=
  match s.mode with
  | .action _ a => a.overrunBy (trimTerminator raw)
  | _ => false

variable {s s' : Scan} {r : OpenRule} {line : Text} {t : Option Text}

theorem entriesActions_of_openRule (hr : s.openRule? = some r) :
    entriesActions s.entries = entriesActions s.closed ++ r.rule.actions := by
  have hrule : entriesActions (.rule r.rule :: r.after.map .verbatim)
      = r.rule.actions ++ entriesActions (r.after.map .verbatim) := rfl
  rw [entries_of_openRule hr, entriesActions_append, hrule, entriesActions_verbatims,
    List.append_nil]

theorem entriesActions_keep (s : Scan) (raw : Text) :
    entriesActions (s.keep raw).entries = entriesActions s.entries := by
  rw [entries_keep, entriesActions_append, show entriesActions [.verbatim ⟨raw, false⟩] = [] from rfl,
    List.append_nil]

theorem entriesActions_leave (s : Scan) {m : Mode} (hm : m = .outside ∨ m = .footer) :
    entriesActions (s.leave m).entries = entriesActions s.entries := by
  rw [s.entries_leave hm]

theorem entriesActions_leave_newRule (s : Scan) (name : Text) :
    entriesActions (s.leave (.body (s.newRule name))).entries = entriesActions s.entries := by
  rw [entriesActions_of_openRule (r := s.newRule name) rfl]
  simp [leave, newRule]

/-- Outside of blocks only the actions matter. -/
theorem tidy_iff_of_mode (hmode : ∀ r a, s.mode ≠ .action r a) :
    s.Tidy ↔ ∀ a ∈ entriesActions s.entries, a.IsBlock :=
  ⟨Tidy.actions, fun h => ⟨h, fun r a hm => absurd hm (hmode r a)⟩⟩

/-- A line of a rule's body leaves the actions, and a block that it opens is not closed on it. -/
theorem BodyStep.tidy_iff {header : Bool} (hmode : s.mode = .body r)
    (hstep : s.BodyStep r line header s' t) : s'.Tidy ↔ s.Tidy := by
  have hr : s.openRule? = some r := by simp [openRule?, hmode]
  have hs : s.Tidy ↔ ∀ a ∈ entriesActions s.entries, a.IsBlock :=
    tidy_iff_of_mode (by simp [hmode])
  -- The open rule is replaced by one with the same actions.
  have hsame : ∀ {rule : Rule}, rule.actions = r.rule.actions →
      s'.openRule? = some { r with rule := rule } → s'.closed = s.closed →
      entriesActions s'.entries = entriesActions s.entries := by
    intro rule hrule hr' hclosed
    rw [entriesActions_of_openRule hr, entriesActions_of_openRule hr', hclosed, hrule]
  -- The block that is opened is white space and a text that does not close it.
  have hopened : ∀ {rule : Rule} {text : Text} {balance : Int} {w : Text} {i : Nat},
      s' = s.openAction r rule text balance → rule.actions = r.rule.actions →
      text = w ++ line.drop i → isSpaces w = true → unclosedBrace? line = some i →
      (s'.Tidy ↔ s.Tidy) := by
    intro rule text balance w i hs' hrule htext hw hbrace
    have hactions := hsame hrule (by rw [hs']; rfl) (by rw [hs']; rfl)
    rw [hs, ← hactions]
    refine ⟨Tidy.actions, fun h => ⟨h, fun r' a hm => ?_⟩⟩
    rw [hs'] at hm
    simp only [openAction, Mode.action.injEq] at hm
    rw [← hm.2]
    change closingBraceFrom 0 text = none
    rw [htext, closingBraceFrom_isSpaces_append hw, unclosedBrace?_drop hbrace]
    rfl
  cases hstep with
  | closed =>
    rw [hs, tidy_iff_of_mode (by simp [leave]), entriesActions_leave s (Or.inl rfl)]
  | @opened i hbrace hbalance hblank =>
    refine hopened (w := newline :: line.take i) rfl rfl ?_ ?_ hbrace
    · rw [List.cons_append, List.take_append_drop]
    · rw [← ink_eq_nil_iff, ink_newline, ink_of_isSpaces hblank]
  | @openedBehind i rule hsemi hbrace hbalance hplace hread =>
    obtain ⟨w, hw, hcut⟩ := exists_drop_trimBlanksEnd line i
    exact hopened rfl (Rule.actions_readProductions hread) hcut hw hbrace
  | productions hsemi hopen hend hread =>
    rw [hs, tidy_iff_of_mode (by simp [withRule]),
      hsame (Rule.actions_readProductions hread) rfl rfl]
  | @terminated rule hsemi hopen hend hread =>
    have hactions : entriesActions (s.withRule r rule).entries = entriesActions s.entries := by
      rw [entriesActions_of_openRule hr, entriesActions_of_openRule (r := { r with rule := rule }) rfl]
      change entriesActions s.closed ++ rule.actions = _
      rw [Rule.actions_readProductions hread]
    rw [hs, tidy_iff_of_mode (by simp [leave]), entriesActions_leave _ (Or.inl rfl), hactions]

/-- A line of a block that is not closed yet keeps everything tidy when it does not overrun. -/
theorem ActionStep.tidy_iff {a : OpenAction} (h : s.Sound) (hp : s.Plain)
    (hmode : s.mode = .action r a) (hstep : s.ActionStep r a line s') :
    s'.Tidy ↔ s.Tidy ∧ a.overrunBy line = false := by
  have hr : s.openRule? = some r := by simp [openRule?, hmode]
  obtain ⟨hcount, hpos⟩ := hp.counted r a hmode
  obtain ⟨w, rest, htext, hw⟩ : ∃ w rest, a.text = w ++ openBrace :: rest ∧ isSpaces w = true := by
    have hsound := h.mode
    rw [hmode] at hsound
    exact hsound.2.opened
  have hs : s.Tidy ↔ (∀ b ∈ entriesActions s.entries, b.IsBlock) ∧
      closingBraceFrom 0 a.text = none := by
    refine ⟨fun h => ⟨h.actions, h.opened r a hmode⟩, fun h => ⟨h.1, fun r' a' hm => ?_⟩⟩
    rw [hmode, Mode.action.injEq] at hm
    rw [← hm.2]
    exact h.2
  -- A closed block comes behind the actions of its rule.
  have hclosed : ∀ b : Action, entriesActions (s.withRule r (r.rule.addAction b)).entries
      = entriesActions s.entries ++ [b] := by
    intro b
    rw [entriesActions_of_openRule hr,
      entriesActions_of_openRule (r := { r with rule := r.rule.addAction b }) rfl]
    simp [withRule, Rule.addAction]
  cases hstep with
  | longer hbalance =>
    have hactions : entriesActions (Scan.entries { s with
        mode := .action r { a with
          text := a.text ++ newline :: line, balance := a.balance + braceBalance line } })
        = entriesActions s.entries := by
      rw [entriesActions_of_openRule hr, entriesActions_of_openRule (r := r) rfl]
    have hoverrun : a.overrunBy line = false ↔ closingBraceFrom a.balance line = none := by
      cases hline : closingBraceFrom a.balance line with
      | none => simp [OpenAction.overrunBy, hline]
      | some j =>
        have hends : endsBlock (line.drop (j + 1)) = false := by
          rw [← Bool.not_eq_true]
          intro hends
          have := balance_of_endsBlock hline hends
          omega
        simp [OpenAction.overrunBy, hline, hends]
    have hnewline : closingBraceFrom a.balance (newline :: line)
        = (closingBraceFrom a.balance line).map (· + 1) :=
      closingBraceFrom_isSpaces_append (w := [newline]) (by decide) a.balance line
    have hlonger : closingBraceFrom 0 (a.text ++ newline :: line) = none ↔
        closingBraceFrom 0 a.text = none ∧ closingBraceFrom a.balance line = none := by
      rw [closingBraceFrom_append, Int.zero_add, hcount, hnewline]
      cases closingBraceFrom 0 a.text with
      | none => simp
      | some k => simp
    rw [hs, hoverrun, and_assoc, ← hlonger]
    refine ⟨fun h => ⟨hactions ▸ h.actions, h.opened _ _ rfl⟩, fun h => ⟨?_, fun r' a' hm => ?_⟩⟩
    · rw [hactions]
      exact h.1
    · simp only [Mode.action.injEq] at hm
      rw [← hm.2]
      exact h.2
  | closed hbalance hend =>
    rw [tidy_iff_of_mode (by simp [withRule]), hclosed, hs, and_assoc,
      ← OpenAction.isBlock_ofText_iff htext hw hcount hpos hbalance
        fun _ => OpenAction.layout_trimBlanksEnd_iff hend]
    simp [or_imp, forall_and]
  | @terminated last hbalance hlast hbrace =>
    rw [tidy_iff_of_mode (by simp [leave]), entriesActions_leave _ (Or.inl rfl), hclosed, hs,
      and_assoc, ← OpenAction.isBlock_ofText_iff htext hw hcount hpos hbalance
        fun _ => OpenAction.layout_terminated_iff hlast hbrace]
    simp [or_imp, forall_and]

theorem Step.tidy_iff {raw : Text} (h : s.Sound) (hp : s.Plain) (hstep : s.Step raw s' t) :
    s'.Tidy ↔ s.Tidy ∧ s.overruns raw = false := by
  -- Outside of blocks no line overruns, and what is tidy depends on the actions alone.
  have hover : (∀ r a, s.mode ≠ .action r a) → s.overruns raw = false := by
    intro hmode
    unfold overruns
    split
    · rename_i r a hm
      exact absurd hm (hmode r a)
    · rfl
  have hsame : (∀ r a, s.mode ≠ .action r a) → (∀ r a, s'.mode ≠ .action r a) →
      entriesActions s'.entries = entriesActions s.entries →
      (s'.Tidy ↔ s.Tidy ∧ s.overruns raw = false) := by
    intro hmode hmode' hactions
    rw [tidy_iff_of_mode hmode', hactions, ← tidy_iff_of_mode hmode]
    simp [hover hmode]
  have hgrammar : (s.mode = .outside ∨ ∃ r, s.mode = .body r) → ∀ r a, s.mode ≠ .action r a := by
    rintro (hm | ⟨r', hm⟩) r a <;> simp [hm]
  have hbody : ∀ {s₀ : Scan} {r : OpenRule} {line : Text} {header : Bool}, s₀.mode = .body r →
      s₀.BodyStep r line header s' t → (∀ r a, s.mode ≠ .action r a) →
      entriesActions s₀.entries = entriesActions s.entries →
      (s'.Tidy ↔ s.Tidy ∧ s.overruns raw = false) := by
    intro s₀ r line header hs₀ hstep hmode hactions
    rw [hstep.tidy_iff hs₀, tidy_iff_of_mode (by simp [hs₀]), hactions, ← tidy_iff_of_mode hmode]
    simp [hover hmode]
  cases hstep with
  | footer hmode =>
    have hno : ∀ r a, s.mode ≠ .action r a := by simp [hmode]
    exact hsame hno (mode_keep hno raw) (entriesActions_keep s raw)
  | action hmode hstep =>
    rw [hstep.tidy_iff h hp hmode]
    simp [overruns, hmode]
  | aside hmode =>
    exact hsame (hgrammar hmode) (mode_keep (hgrammar hmode) raw) (entriesActions_keep s raw)
  | marker hmode =>
    refine hsame (hgrammar hmode) (mode_keep (by simp [leave]) raw) ?_
    rw [entriesActions_keep, entriesActions_leave s (Or.inr rfl)]
  | header hmode =>
    exact hsame (hgrammar hmode) (by simp [leave]) (entriesActions_leave_newRule s _)
  | headerComment hmode =>
    refine hsame (hgrammar hmode) (mode_keep (by simp [leave]) _) ?_
    rw [entriesActions_keep, entriesActions_leave_newRule]
  | headerBody hmode _ _ hstep =>
    exact hbody rfl hstep (hgrammar hmode) (entriesActions_leave_newRule s _)
  | stop hmode =>
    refine hsame (by simp [hmode]) (mode_keep (by simp [leave]) raw) ?_
    rw [entriesActions_keep, entriesActions_leave s (Or.inl rfl)]
  | outside hmode =>
    have hno : ∀ r a, s.mode ≠ .action r a := by simp [hmode]
    exact hsame hno (mode_keep hno raw) (entriesActions_keep s raw)
  | body hmode _ _ _ _ _ hstep => exact hbody hmode hstep (by simp [hmode]) rfl

/-! ## Whole texts -/

theorem LineSteps.tidy_iff {raw : Text} (h : s.Sound) (hp : s.Plain)
    (hraw : newline ∉ trimTerminator raw) (hsteps : LineSteps s raw s') :
    s'.Tidy ↔ s.Tidy ∧ s.overruns raw = false := by
  induction hsteps with
  | last hstep => exact hstep.tidy_iff h hp
  | more hstep _ ih =>
    have hnext := ih (hstep.sound_kept (o := false) h (by simp)).1 (hstep.plain hp hraw)
      (hstep.newline_notMem_rest hraw)
    rw [hnext, hstep.tidy_iff h hp]
    simp [overruns, hstep.mode_of_some]

/-- Reading lines keeps everything tidy when none of them overruns. -/
theorem Reads.tidy_iff {ls : List Text} (h : s.Sound) (hp : s.Plain)
    (hls : ∀ l ∈ ls, newline ∉ trimTerminator l) (hreads : Reads s ls s') :
    s'.Tidy ↔ s.Tidy ∧ findLine? overruns s ls = none := by
  induction hreads with
  | nil s => simp [findLine?]
  | @cons s next s' l ls hline _ ih =>
    have hsound : Scan.Sound { s with lines := s.lines + 1 } := ⟨h.closed, h.mode⟩
    have hplain : Scan.Plain { s with lines := s.lines + 1 } := ⟨hp.entries, hp.counted⟩
    have hsteps := line_lineSteps hline
    have hl := hls l List.mem_cons_self
    have hfirst := hsteps.tidy_iff hsound hplain hl
    have hcounted : Scan.Tidy { s with lines := s.lines + 1 } ↔ s.Tidy :=
      ⟨fun h => ⟨h.actions, h.opened⟩, fun h => ⟨h.actions, h.opened⟩⟩
    rw [ih (hsteps.sound_kept (o := false) hsound (by simp)).1 (hsteps.plain hplain hl)
      (fun k hk => hls k (List.mem_cons_of_mem l hk)), hfirst, hcounted,
      findLine?_cons_eq_none hline, and_assoc]
    rfl

end Scan

namespace Document

variable {text : Text} {d : Document}

/-- Every action is balanced and starts with a brace behind white space; it is one block exactly
when no line goes on behind the brace that closes a block. -/
theorem parse_isBlock (h : Document.parse text = .ok d) :
    (∀ r ∈ d.rules, ∀ a ∈ r.actions, isSpaces a.lead = true ∧ a.body.head? = some openBrace ∧
      braceBalance a.body = 0) ∧
    ((∀ r ∈ d.rules, ∀ a ∈ r.actions, a.IsBlock) ↔
      Scan.findLine? Scan.overruns Scan.start (lines text) = none) := by
  constructor
  · intro r hr a ha
    have hframed := (parse_ordered h r (mem_rules.1 hr)).framed a ha
    have hplain : r.Plain := parse_plain h _ (mem_rules.1 hr)
    obtain ⟨rest, hbody, hlead⟩ := hframed.exists_text
    refine ⟨hlead, by rw [hbody]; rfl, ?_⟩
    rw [braceBalance_of_ink hframed.ink_body]
    exact hplain.balanced a ha
  · obtain ⟨s, hreads, hentries, hmode⟩ := parse_cases h
    have hstart : Scan.start.Sound := ⟨by simp [Scan.start], trivial⟩
    have htidy : Scan.start.Tidy := ⟨by simp [Scan.start, Scan.entries, Scan.openRule?,
      entriesActions], by simp [Scan.start]⟩
    have hall : (∀ r ∈ d.rules, ∀ a ∈ r.actions, a.IsBlock) ↔ s.Tidy := by
      rw [Scan.tidy_iff_of_mode hmode, ← hentries]
      constructor
      · intro hrules a ha
        obtain ⟨e, he, hmem⟩ := List.mem_flatMap.1 ha
        cases e with
        | verbatim v => exact absurd hmem (by simp [Entry.actions])
        | rule r => exact hrules r (mem_rules.2 he) a hmem
      · intro hactions r hr a ha
        exact hactions a (List.mem_flatMap.2 ⟨_, mem_rules.1 hr, ha⟩)
    rw [hall, hreads.tidy_iff hstart Scan.plain_start fun _ hl => newline_notMem_trimTerminator hl]
    exact and_iff_right htidy

/-- An alternative stands behind the brace that closes the block. -/
theorem parse_isBlock_alternative :
    ∃ d, Document.parse (bytes "a: b \x7b\n\x7d | c\n") = .ok d ∧
      Scan.findLine? Scan.overruns Scan.start (lines (bytes "a: b \x7b\n\x7d | c\n"))
        = some (bytes "\x7d | c\n") ∧
      ¬∀ r ∈ d.rules, ∀ a ∈ r.actions, a.IsBlock := by
  have h : Document.parse (bytes "a: b \x7b\n\x7d | c\n")
      = .ok ⟨[.rule
          { name := bytes "a", line := 1, productions := [bytes "b"]
            actions := [⟨bytes " \x7b\n\x7d | c", 0, 1⟩] }]⟩ := by decide +kernel
  have hl : Scan.findLine? Scan.overruns Scan.start (lines (bytes "a: b \x7b\n\x7d | c\n"))
      = some (bytes "\x7d | c\n") := by decide +kernel
  refine ⟨_, h, hl, fun hall => ?_⟩
  have hnone := (parse_isBlock h).2.1 hall
  rw [hl] at hnone
  exact absurd hnone (by simp)

end Document

end GrammarLayout
