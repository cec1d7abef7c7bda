import GrammarLayout.Proofs.Grammar.Shape

/-!
# The state of the reader between two lines

The reader counts the braces of an open block in two ways.  The search for the
brace that opens a block skips complete blocks and the braces in literals; from
there on every brace counts.  The two agree: a brace that the search finds
unclosed is not closed by any text that follows it on its line, so a block is
opened with at least one open brace, and its count stays that of its text.

What is proved here:

* `unclosedBrace?_prefix_balance` — every text that starts with an unclosed
  brace leaves a brace open;
* `Scan.BodyStep.counted`, `Scan.ActionStep.counted`, `Scan.Step.counted` — what
  one step does to the open block;
* `Scan.Reads.counted` — the state after any number of lines.
-/

namespace GrammarLayout

open Ascii Text

/-! ## Unclosed braces -/

/-- Every text from an unclosed brace on leaves a brace open. -/
theorem unclosedBrace?_prefix_balance {line u : Text} {i : Nat} (h : unclosedBrace? line = some i)
    (hu : u <+: line.drop i) (hne : u ≠ []) : 0 < braceBalance u := by
  obtain ⟨rest, hdrop⟩ := exists_drop_unclosedBrace? h
  have hnone := closingBraceFrom_of_prefix (unclosedBrace?_drop h) hu
  obtain ⟨c, v, rfl⟩ := List.exists_cons_of_ne_nil hne
  obtain ⟨w, hw⟩ := hu
  obtain rfl : c = openBrace := by
    rw [hdrop, List.cons_append, List.cons.injEq] at hw
    exact hw.1
  rw [closingBraceFrom, if_pos rfl, Option.map_eq_none_iff] at hnone
  have := balance_pos_of_closingBraceFrom (by decide) hnone
  rw [braceBalance_openBrace]
  omega

/-! ## Open blocks -/

/-- The open block `a` of the rule `r` is in order when `lines` lines have been read. -/
structure OpenAction.Counted (lines : Nat) (r : OpenRule) (a : OpenAction) : Prop where
  /-- Its open braces are those of its text. -/
  balance : a.balance = braceBalance a.text
  /-- At least one of them is open. -/
  opened : 0 < a.balance
  /-- It follows the last production of the rule. -/
  owner : a.owner = (r.rule.productions.length : Int) - 1
  /-- It was opened on a line that has been read. -/
  line : 1 ≤ a.line ∧ a.line ≤ lines

theorem OpenAction.Counted.later {n m : Nat} {r : OpenRule} {a : OpenAction} (h : a.Counted n r)
    (hle : n ≤ m) : a.Counted m r :=
  ⟨h.balance, h.opened, h.owner, h.line.1, h.line.2.trans hle⟩

namespace Scan

/-- The open block, if there is one, is in order. -/
def Counted (s : Scan) : Prop := ∀ r a, s.mode = .action r a → a.Counted s.lines r

variable {s s' : Scan} {r : OpenRule} {line : Text} {t : Option Text}

theorem counted_of_mode (h : ∀ r a, s.mode ≠ .action r a) : s.Counted :=
  fun r a hmode => absurd hmode (h r a)

theorem lines_keep (s : Scan) (raw : Text) : (s.keep raw).lines = s.lines := by
  unfold keep
  split <;> rfl

/-! ### The number of lines -/

theorem BodyStep.lines_eq {header : Bool} (hstep : s.BodyStep r line header s' t) :
    s'.lines = s.lines := by
  cases hstep <;> rfl

theorem ActionStep.lines_eq {a : OpenAction} (hstep : s.ActionStep r a line s') :
    s'.lines = s.lines := by
  cases hstep <;> rfl

/-- A step reads on the line that was begun. -/
theorem Step.lines_eq {raw : Text} (hstep : s.Step raw s' t) : s'.lines = s.lines := by
  cases hstep with
  | footer => exact lines_keep s raw
  | action _ hstep => exact hstep.lines_eq
  | aside => exact lines_keep s raw
  | marker => exact lines_keep _ raw
  | header => rfl
  | headerComment => exact lines_keep _ _
  | headerBody _ _ _ hstep => exact hstep.lines_eq
  | stop => exact lines_keep _ raw
  | outside => exact lines_keep s raw
  | body _ _ _ _ _ _ hstep => exact hstep.lines_eq

theorem LineSteps.lines_eq {raw : Text} (hsteps : LineSteps s raw s') : s'.lines = s.lines := by
  induction hsteps with
  | last hstep => exact hstep.lines_eq
  | more hstep _ ih => exact ih.trans hstep.lines_eq

/-- A line is counted when it is read. -/
theorem lines_line {raw : Text} (h : s.line raw = .ok s') : s'.lines = s.lines + 1 :=
  (line_lineSteps h).lines_eq

theorem Reads.lines_eq {ls : List Text} (hreads : Reads s ls s') :
    s'.lines = s.lines + ls.length := by
  induction hreads with
  | nil s => rfl
  | @cons s next s' l ls hline _ ih =>
    calc s'.lines = next.lines + ls.length := ih
      _ = s.lines + 1 + ls.length := by rw [lines_line hline]
      _ = s.lines + (l :: ls).length := by rw [List.length_cons]; omega

/-! ### The open block -/

/-- A line of a rule's body opens a block whose braces it counts. -/
theorem BodyStep.counted {header : Bool} (hlines : 1 ≤ s.lines)
    (hstep : s.BodyStep r line header s' t) : s'.Counted := by
  -- The text of a block that is opened here has the balance it is opened with.
  have hopen : ∀ {rule : Rule} {text : Text} {balance : Int}, braceBalance text = balance →
      0 < balance → (s.openAction r rule text balance).Counted := by
    intro rule text balance hbalance hpos r' a hm
    obtain ⟨rfl, rfl⟩ := Mode.action.inj hm
    exact ⟨hbalance.symm, hpos, rfl, hlines, Nat.le_refl _⟩
  cases hstep with
  | closed => exact counted_of_mode (by simp [leave])
  | @opened i hbrace hbalance hblank =>
    exact hopen (braceBalance_newline_line hblank) hbalance
  | @openedBehind i rule hsemi hbrace hbalance =>
    exact hopen (braceBalance_drop_trimBlanksEnd line i) hbalance
  | productions => exact counted_of_mode (by simp [withRule])
  | terminated => exact counted_of_mode (by simp [leave])

/-- A line of a block is added to its text and to its count, or it closes the block. -/
theorem ActionStep.counted {a : OpenAction} (h : s.Counted) (hmode : s.mode = .action r a)
    (hstep : s.ActionStep r a line s') : s'.Counted := by
  obtain ⟨hcount, -, howner, hline⟩ := h r a hmode
  cases hstep with
  | longer hbalance =>
    intro r' a' hm
    obtain ⟨rfl, rfl⟩ := Mode.action.inj hm
    refine ⟨?_, hbalance, howner, hline⟩
    rw [braceBalance_append, braceBalance_newline, hcount]
  | closed => exact counted_of_mode (by simp [withRule])
  | terminated => exact counted_of_mode (by simp [leave])

/-- One step keeps the count of the open block. -/
theorem Step.counted {raw : Text} (h : s.Counted) (hlines : 1 ≤ s.lines)
    (hstep : s.Step raw s' t) : s'.Counted := by
  have hkeep : ∀ {s₀ : Scan} (raw : Text), (∀ r a, s₀.mode ≠ .action r a) →
      (s₀.keep raw).Counted := fun raw hmode => counted_of_mode (mode_keep hmode raw)
  have hgrammar : (s.mode = .outside ∨ ∃ r, s.mode = .body r) → ∀ r a, s.mode ≠ .action r a := by
    rintro (hm | ⟨r', hm⟩) r a <;> simp [hm]
  cases hstep with
  | footer hmode => exact hkeep raw (by simp [hmode])
  | action hmode hstep => exact hstep.counted h hmode
  | aside hmode => exact hkeep raw (hgrammar hmode)
  | marker => exact hkeep raw (by simp [leave])
  | header => exact counted_of_mode (by simp [leave])
  | headerComment => exact hkeep _ (by simp [leave])
  | headerBody hmode hheader hrest hstep =>
    exact hstep.counted (s := s.leave (.body (s.newRule _))) hlines
  | stop => exact hkeep raw (by simp [leave])
  | outside hmode => exact hkeep raw (by simp [hmode])
  | body _ _ _ _ _ _ hstep => exact hstep.counted hlines

/-! ### Whole lines -/

theorem LineSteps.counted {raw : Text} (h : s.Counted) (hlines : 1 ≤ s.lines)
    (hsteps : LineSteps s raw s') : s'.Counted := by
  induction hsteps with
  | last hstep => exact hstep.counted h hlines
  | more hstep _ ih => exact ih (hstep.counted h hlines) (by rw [hstep.lines_eq]; exact hlines)

/-- Reading lines keeps the count of the open block and counts the lines. -/
theorem Reads.counted {ls : List Text} (h : s.Counted) (hreads : Reads s ls s') :
    s'.Counted ∧ s'.lines = s.lines + ls.length := by
  refine ⟨?_, hreads.lines_eq⟩
  induction hreads with
  | nil s => exact h
  | @cons s next s' l ls hline _ ih =>
    have hcounted : Scan.Counted { s with lines := s.lines + 1 } :=
      fun r a hmode => (h r a hmode).later (Nat.le_succ _)
    exact ih ((line_lineSteps hline).counted hcounted (Nat.le_add_left 1 _))

end Scan

end GrammarLayout
