import GrammarLayout.Proofs.Grammar.Outline

/-!
# What holds of everything that was read

Many facts about the reader have one form: something holds of every entry read
so far, and something of the block that is still open.  The moves of the reader
keep such a fact when what they write has it.

What is proved here:

* `Scan.Holds` — the form of these facts;
* `Scan.Holds.keep`, `Scan.Holds.withRule`, … — each move of the reader keeps
  them.
-/

namespace GrammarLayout

namespace Scan

/-- `P` holds of every entry and `Q` of the open block. -/
structure Holds (P : Entry → Prop) (Q : OpenAction → Prop) (s : Scan) : Prop where
  /-- `P` holds of every entry. -/
  entries : ∀ e ∈ s.entries, P e
  /-- `Q` holds of the open block. -/
  opened : ∀ r a, s.mode = .action r a → Q a

theorem entries_of_openRule {s : Scan} {r : OpenRule} (hr : s.openRule? = some r) :
    s.entries = s.closed ++ .rule r.rule :: r.after.map .verbatim := by
  rw [entries, hr]
  rfl

namespace Holds

variable {P : Entry → Prop} {Q : OpenAction → Prop} {s s' : Scan} {r : OpenRule}

theorem start : Scan.start.Holds P Q :=
  ⟨by simp [Scan.entries, Scan.start, openRule?], by simp [Scan.start]⟩

variable (h : s.Holds P Q)
include h

/-- The number of lines read plays no part. -/
theorem withLines (n : Nat) : Holds P Q { s with lines := n } := ⟨h.entries, h.opened⟩

theorem rule (hr : s.openRule? = some r) : P (.rule r.rule) :=
  h.entries (.rule r.rule) (by rw [entries_of_openRule hr]; simp)

theorem keep {raw : Text} (hraw : P (.verbatim ⟨raw, false⟩)) : (s.keep raw).Holds P Q := by
  constructor
  · intro e he
    rw [entries_keep, List.mem_append, List.mem_singleton] at he
    rcases he with he | rfl
    · exact h.entries e he
    · exact hraw
  · intro r a hmode
    unfold Scan.keep at hmode
    split at hmode
    · exact absurd hmode (by simp)
    · rename_i r' a' hm
      obtain ⟨-, rfl⟩ := Mode.action.inj hmode
      exact h.opened r' a' hm
    · exact h.opened r a hmode

theorem leave {m : Mode} (hm : m = .outside ∨ m = .footer) : (s.leave m).Holds P Q := by
  constructor
  · rw [s.entries_leave hm]
    exact h.entries
  · intro r a hmode
    rcases hm with rfl | rfl <;> exact absurd hmode (by simp [Scan.leave])

/-- The open rule replaced by one that `P` holds of. -/
theorem replaced {rule : Rule} (hr : s.openRule? = some r) (hrule : P (.rule rule))
    (hs' : s'.openRule? = some { r with rule := rule }) (hclosed : s'.closed = s.closed) :
    ∀ e ∈ s'.entries, P e := by
  intro e he
  rw [entries_of_openRule hs', hclosed, List.mem_append, List.mem_cons] at he
  rcases he with he | rfl | he
  · exact h.entries e (by rw [entries_of_openRule hr]; exact List.mem_append_left _ he)
  · exact hrule
  · refine h.entries e ?_
    rw [entries_of_openRule hr]
    exact List.mem_append_right _ (List.mem_cons_of_mem _ he)

theorem withRule {rule : Rule} (hr : s.openRule? = some r) (hrule : P (.rule rule)) :
    (s.withRule r rule).Holds P Q :=
  ⟨h.replaced hr hrule rfl rfl, fun _ _ hmode => absurd hmode (by simp [Scan.withRule])⟩

/-- A block is opened, or goes on. -/
theorem withAction {rule : Rule} {a : OpenAction} (hr : s.openRule? = some r)
    (hrule : P (.rule rule)) (ha : Q a) :
    Holds P Q { s with mode := .action { r with rule := rule } a } := by
  refine ⟨h.replaced hr hrule rfl rfl, fun r' a' hmode => ?_⟩
  obtain ⟨-, rfl⟩ := Mode.action.inj hmode
  exact ha

theorem leave_newRule {name : Text} (hrule : P (.rule (s.newRule name).rule)) :
    (s.leave (.body (s.newRule name))).Holds P Q := by
  refine ⟨fun e he => ?_, fun r a hmode => absurd hmode (by simp [Scan.leave])⟩
  rw [entries_of_openRule (r := s.newRule name) rfl, List.mem_append] at he
  rcases he with he | he
  · exact h.entries e he
  · obtain rfl : e = .rule (s.newRule name).rule := by simpa [newRule] using he
    exact hrule

end Holds

end Scan

end GrammarLayout
