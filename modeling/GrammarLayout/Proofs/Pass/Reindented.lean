import GrammarLayout.Proofs.Grammar.Shifted
import GrammarLayout.Proofs.Pass.WhiteSpace

/-!
# Formatting forgets the indentation of its input

The reader stores indentation in alternatives and in front of blocks.  The
indentation pass takes each alternative trimmed and each block from its brace
on, so rules that differ in stored indentation are laid out as the same rule,
and everything after that pass is the same.

What is proved here:

* `Rule.Shifted.indentBy_eq` — the pass erases what the reader stored;
* `format_reindented` — texts that differ in the indentation of their grammar
  lines are formatted alike, or are refused with the same error.
-/

namespace GrammarLayout

open Ascii Text

/-! ## Productions -/

/-- A block at the end of a production is found at the end of the moved one. -/
theorem splitInline?_shifted {p p' : Text} (h : Text.Shifted p p') :
    Option.Rel (fun a b => Text.Shifted a.1 b.1 ∧ b.2 = a.2) (splitInline? p) (splitInline? p') := by
  obtain ⟨w, w', rest, rfl, rfl, hw, hw'⟩ := h.exists_append
  simp only [splitInline?, firstBlock?_blanks_append hw, firstBlock?_blanks_append hw']
  cases firstBlock? rest with
  | none => exact .none
  | some b =>
    simp only [Option.map_some, Option.bind_eq_bind, Option.bind_some]
    split
    · exact .some ⟨(shifted_append hw hw' b.1.before).trimBlanksEnd, rfl⟩
    · exact .none

theorem liftable?_shifted {p p' : Text} (h : Text.Shifted p p') :
    Option.Rel (fun a b => Text.Shifted a.1 b.1 ∧ b.2 = a.2) (liftable? p) (liftable? p') := by
  have hsplit := splitInline?_shifted h
  unfold liftable?
  generalize splitInline? p = x at hsplit
  generalize splitInline? p' = y at hsplit
  cases hsplit with
  | none => exact .none
  | some hab =>
    simp only [Option.filter_some, ← hab.1.trim_eq]
    split
    · exact .some hab
    · exact .none

theorem indentProduction_shifted {p p' : Text} (h : Text.Shifted p p') (unit : Text) (i : Nat) :
    indentProduction unit i p' = indentProduction unit i p := by
  simp only [indentProduction, h.trim_eq]

theorem liftedActions_shifted (i : Nat) {ps ps' : List Text}
    (h : List.Forall₂ Text.Shifted ps ps') : liftedActions i ps' = liftedActions i ps := by
  induction h generalizing i with
  | nil => rfl
  | @cons p p' _ _ hp _ ih =>
    have hlift := liftable?_shifted hp
    rw [liftedActions, liftedActions]
    generalize liftable? p = x at hlift
    generalize liftable? p' = y at hlift
    cases hlift with
    | none => exact ih (i + 1)
    | some hab =>
      simp only [hab.2, ih (i + 1)]

/-! ## Rules -/

theorem forall₂_insertOwned (a : Action) {as as' : List Action}
    (h : List.Forall₂ Action.Shifted as as') :
    List.Forall₂ Action.Shifted (Rule.insertOwned a as) (Rule.insertOwned a as') := by
  have hself : a.Shifted a := ⟨rfl, rfl, rfl⟩
  unfold Rule.insertOwned
  induction h with
  | nil => exact .cons hself .nil
  | @cons b b' bs bs' hb hbs ih =>
    by_cases hlt : b.owner < a.owner
    · have hlt' : b'.owner < a.owner := by rwa [hb.owner]
      simpa [List.takeWhile_cons, List.dropWhile_cons, hlt, hlt'] using ⟨hb, ih⟩
    · have hlt' : ¬ b'.owner < a.owner := by rwa [hb.owner]
      simpa [List.takeWhile_cons, List.dropWhile_cons, hlt, hlt'] using ⟨hself, hb, hbs⟩

theorem Rule.Shifted.liftActions {r r' : Rule} (h : r.Shifted r') :
    r.liftActions.Shifted r'.liftActions := by
  refine ⟨?_, ?_, ?_⟩
  · rw [Rule.liftActions, h.same]
    rfl
  · simp only [Rule.liftActions]
    rw [List.forall₂_map_left_iff, List.forall₂_map_right_iff]
    refine h.productions.imp fun p p' hp => ?_
    have hlift := liftable?_shifted hp
    generalize liftable? p = x at hlift
    generalize liftable? p' = y at hlift
    cases hlift with
    | none => exact hp
    | some hab => exact hab.1
  · simp only [Rule.liftActions, liftedActions_shifted 0 h.productions]
    generalize liftedActions 0 r.productions = lifted
    have hactions := h.actions
    generalize r.actions = as at hactions
    generalize r'.actions = as' at hactions
    induction lifted generalizing as as' with
    | nil => exact hactions
    | cons a lifted ih => exact ih _ _ (forall₂_insertOwned a hactions)

/-- The indentation pass gives the same rule. -/
theorem Rule.Shifted.indentBy_eq {r r' : Rule} (h : r.Shifted r') (unit : Text) :
    r'.indentBy unit = r.indentBy unit := by
  have hlifted := h.liftActions
  have hproductions : r'.liftActions.productions.mapIdx (indentProduction unit)
      = r.liftActions.productions.mapIdx (indentProduction unit) := by
    refine List.ext_getElem (by simp [hlifted.productions.length_eq]) fun i hi hi' => ?_
    rw [List.length_mapIdx] at hi hi'
    rw [List.getElem_mapIdx, List.getElem_mapIdx]
    exact indentProduction_shifted (hlifted.productions.get hi' hi) unit i
  have hactions : r'.liftActions.actions.map
        (fun a => a.setText (newline :: unit ++ reflowBlock unit a.body))
      = r.liftActions.actions.map
        (fun a => a.setText (newline :: unit ++ reflowBlock unit a.body)) := by
    refine (map_eq_map_iff_forall₂.2 (hlifted.actions.imp fun a a' ha => ?_)).symm
    rw [Action.setText, Action.setText, ha.owner, ha.line, ha.body]
  simp only [Rule.indentBy, hproductions, hactions]
  rw [hlifted.same]

/-! ## Documents -/

theorem ShiftedEntries.indent_eq {d d' : Document} (h : ShiftedEntries d.entries d'.entries)
    (style : Style) : d'.indent style = d.indent style := by
  rw [Document.indent, Document.indent, Document.mapRules, Document.mapRules]
  congr 1
  refine (map_eq_map_iff_forall₂.2 (h.imp fun e e' he => ?_)).symm
  cases he with
  | verbatim v => rfl
  | rule hr => exact congrArg Entry.rule (hr.indentBy_eq _).symm

/-- With the indentation pass on, two texts that differ in the indentation of their grammar lines
only are formatted alike, or are refused with the same error. -/
theorem format_reindented {style : Style} (hindent : style.indent.enabled = true) {t t' : Text}
    (h : Reindented t t') : format style t' = format style t := by
  have hread := Document.parse_agree h
  rw [format, format]
  generalize Document.parse t = x at hread
  generalize Document.parse t' = y at hread
  cases hread with
  | error e => rfl
  | @ok d d' hd =>
    have hlaid : d'.layOut style = d.layOut style := by
      simp only [Document.layOut, Style.passes_of_indent hindent, Document.runPasses,
        List.foldl_cons, PassName.run, ShiftedEntries.indent_eq hd]
    change Except.ok (d'.layOut style).render = Except.ok (d.layOut style).render
    rw [hlaid]

/-- Headers, an alternative that opens a block, and a semicolon are moved; the code of the block and
the comment stay where they are. -/
theorem format_reindented_two_rules :
    let t := bytes "a: b\n| c \x7b\n  x\n\x7d\n# note\n;\nb : d \x7b y \x7d\n"
    let t' := bytes "  a: b\n\t| c \x7b\n  x\n\x7d\n# note\n    ;\n b : d \x7b y \x7d\n"
    Reindented t t' ∧ format {} t' = format {} t := by
  have hmoved : Reindented (bytes "a: b\n| c \x7b\n  x\n\x7d\n# note\n;\nb : d \x7b y \x7d\n")
      (bytes "  a: b\n\t| c \x7b\n  x\n\x7d\n# note\n    ;\n b : d \x7b y \x7d\n") := by
    decide +kernel
  exact ⟨hmoved, format_reindented rfl hmoved⟩

end GrammarLayout
