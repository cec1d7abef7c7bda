import GrammarLayout.Proofs.Grammar.Blocks
import GrammarLayout.Proofs.Grammar.Cut
import GrammarLayout.Proofs.Pass.Reflow

/-!
# Indenting a rule twice

The indentation pass finds nothing to do in what it has written.  No block is
left at the end of a production that has anything else to say, since whether
there is one depends on the production without its pipe, and this part is the
same before and after.  A block on several lines has nothing behind its opening
brace, so its lines are moved as a group to where they are.

What is proved here:

* `bare_indentProduction`, `indentProduction_indentProduction` — productions;
* `liftable?_eq_none_iff` — which productions keep the block at their end;
* `reflowBlock_reflowBlock` — blocks;
* `Rule.indentBy_indentBy` — rules.
-/

namespace GrammarLayout

open Ascii Text

/-! ## Productions without their pipe -/

/-- The text of a production without its pipe. -/
def bare (p : Text) : Text := trim (dropStart [pipe] (trim p))

theorem bare_of_trim_eq {p t : Text} (h : trim p = pipe :: t) : bare p = trim t := by
  rw [bare, h, show dropStart [pipe] (pipe :: t) = t by simp [dropStart, startsWith]]

theorem bare_of_hasPipe_eq_false {p : Text} (h : hasPipe p = false) : bare p = trim p := by
  rw [bare, dropStart, if_neg (by simpa [hasPipe] using h), trim_trim]

theorem exists_of_hasPipe {p : Text} (h : hasPipe p = true) : ∃ t, trim p = pipe :: t :=
  List.head?_eq_some_iff.1 (startsWith_singleton_iff.1 h)

/-- A production is the text without its pipe between white space, with the pipe in front. -/
theorem exists_bare (p : Text) : ∃ u w, p = u ++ (bare p ++ w) ∧ Clear u ∧ isSpaces w = true ∧
    ((∀ s, ink (u ++ s) = pipe :: ink s) ∨
      (∀ s, ink (u ++ s) = ink s) ∧ (ink (bare p)).head? ≠ some pipe) := by
  obtain ⟨w₁, w₂, hp, hw₁, hw₂, -⟩ := trim_split p
  cases hpipe : hasPipe p with
  | true =>
    obtain ⟨t, ht⟩ := exists_of_hasPipe hpipe
    obtain ⟨v₁, v₂, hsplit, hv₁, hv₂, -⟩ := trim_split t
    have hclear : Clear (pipe :: v₁) := by
      refine .of_neutral fun c hc => ?_
      rcases List.mem_cons.1 hc with rfl | hc
      · decide
      · exact isNeutral_of_isSpaces hv₁ c hc
    refine ⟨w₁ ++ pipe :: v₁, v₂ ++ w₂, ?_, (Clear.append_iff (.of_isSpaces hw₁)).2 hclear, ?_,
      Or.inl fun s => ?_⟩
    · rw [bare_of_trim_eq ht]
      conv_lhs => rw [hp, ht, hsplit]
      simp
    · rw [← ink_eq_nil_iff, ink_isSpaces_append hv₂, ink_of_isSpaces hw₂]
    · rw [List.append_assoc, ink_isSpaces_append hw₁, List.cons_append, ink_pipe,
        ink_isSpaces_append hv₁]
  | false =>
    have hbare := bare_of_hasPipe_eq_false hpipe
    refine ⟨w₁, w₂, by rwa [hbare], .of_isSpaces hw₁, hw₂, Or.inr ⟨ink_isSpaces_append hw₁, ?_⟩⟩
    rw [hbare, ink_trim, Ne, ← Rule.hasPipe_iff, hpipe]
    decide

/-- A pipe behind blanks is all that stands in front of the text of an alternative. -/
theorem bare_blanks_pipe {w : Text} (hw : ∀ c ∈ w, isBlank c = true) (s : Text) :
    bare (w ++ pipe :: s) = trim s := by
  have hhead : (trim (pipe :: s)).head? = some pipe := by
    rw [head?_trim, ink_pipe]
    rfl
  obtain ⟨t, ht⟩ := List.head?_eq_some_iff.1 hhead
  rw [bare_of_trim_eq ((trim_blanks_append hw (pipe :: s)).trans ht)]
  obtain ⟨w₁, w₂, hs, hw₁, hw₂, -⟩ := trim_split (pipe :: s)
  cases w₁ with
  | nil =>
    rw [ht, List.nil_append, List.cons_append, List.cons.injEq] at hs
    rw [hs.2, trim_append_of_isSpaces hw₂]
  | cons c w₁ =>
    obtain ⟨rfl, -⟩ := List.cons.inj hs
    have hink := mem_ink (c := pipe) (by decide) (by decide) (show pipe ∈ pipe :: w₁ by simp)
    rw [ink_of_isSpaces hw₁] at hink
    exact absurd hink (by simp)

/-! ## Indented productions -/

theorem indentProduction_eq (unit : Text) (i : Nat) (p : Text) : indentProduction unit i p =
    if i = 0 then trim p else if (bare p).isEmpty then unit ++ [pipe] else unit ++ bytes "| " ++ bare p :=
  rfl

section Unit

variable {unit : Text} (hunit : ∀ c ∈ unit, isBlank c = true)
include hunit

/-- Indenting a production keeps its text without the pipe. -/
theorem bare_indentProduction (i : Nat) (p : Text) : bare (indentProduction unit i p) = bare p := by
  have hspace : ∀ c ∈ [space], isBlank c = true := List.forall_mem_singleton.2 rfl
  rw [indentProduction_eq]
  split_ifs with hi hempty
  · rw [bare, trim_trim, ← bare]
  · rw [bare_blanks_pipe hunit, List.isEmpty_iff.1 hempty]
    rfl
  · rw [List.append_assoc, show bytes "| " ++ bare p = pipe :: ([space] ++ bare p) from rfl,
      bare_blanks_pipe hunit, trim_blanks_append hspace, bare, trim_trim]

theorem indentProduction_indentProduction (i : Nat) (p : Text) :
    indentProduction unit i (indentProduction unit i p) = indentProduction unit i p := by
  rw [indentProduction_eq unit i (indentProduction unit i p), bare_indentProduction hunit,
    indentProduction_eq]
  split_ifs
  · exact trim_trim p
  · rfl
  · rfl

end Unit

/-! ## Blocks at the end of productions -/

/-- Only a pipe may stand in front of a block that stays in its production. -/
theorem isSpaces_dropStart_pipe_iff (s : Text) :
    isSpaces (dropStart [pipe] (trim s)) = true ↔ ink s = [] ∨ ink s = [pipe] := by
  cases hpipe : hasPipe s with
  | true =>
    obtain ⟨t, ht⟩ := exists_of_hasPipe hpipe
    have hink : ink s = pipe :: ink t := by rw [← ink_trim, ht, ink_pipe]
    rw [ht, show dropStart [pipe] (pipe :: t) = t by simp [dropStart, startsWith], hink,
      ← ink_eq_nil_iff]
    simp
  | false =>
    have hne : ink s ≠ [pipe] := by
      intro hink
      have := Rule.hasPipe_iff.2 (show (ink s).head? = some pipe by rw [hink]; rfl)
      rw [hpipe] at this
      exact absurd this (by decide)
    rw [dropStart, if_neg (by simpa [hasPipe] using hpipe), ← ink_eq_nil_iff, ink_trim]
    simp [hne]

/-- A production keeps the block at its end if nothing else follows its pipe. -/
theorem liftable?_eq_none_iff {p : Text} : liftable? p = none ↔
    ∀ b rest, firstBlock? (bare p) = some (b, rest) → isSpaces rest = true →
      isSpaces b.before = true := by
  obtain ⟨u, w, hp, hclear, hspaces, hsign⟩ := exists_bare p
  have hfirst : firstBlock? p = (firstBlock? (bare p)).map fun b =>
      (⟨u ++ b.1.before, b.1.inner⟩, b.2 ++ w) := by
    conv_lhs => rw [hp, firstBlock?_clear_append hclear,
      firstBlock?_append_neutral (isNeutral_of_isSpaces hspaces), Option.map_map]
    rfl
  cases hbare : firstBlock? (bare p) with
  | none => simp [liftable?, splitInline?, hfirst, hbare]
  | some found =>
    obtain ⟨b, rest⟩ := found
    rw [hbare, Option.map_some] at hfirst
    have hrest : isSpaces (rest ++ w) = isSpaces rest := by
      rw [Bool.eq_iff_iff, ← ink_eq_nil_iff, ← ink_eq_nil_iff, ink_append_isSpaces hspaces]
    have hbefore : isSpaces (dropStart [pipe] (trim (trimBlanksEnd (u ++ b.before))))
        = isSpaces b.before := by
      rw [Bool.eq_iff_iff, isSpaces_dropStart_pipe_iff, ink_trimBlanksEnd, ← ink_eq_nil_iff]
      rcases hsign with hsign | ⟨hsign, hhead⟩
      · rw [hsign]
        simp
      · rw [hsign]
        refine or_iff_left fun hink => hhead ?_
        rw [(firstBlock?_eq_some_iff.1 hbare).1, List.cons_append, ink_append_openBrace, hink]
        rfl
    have hparts : (∀ b' rest', some (b, rest) = some (b', rest') → isSpaces rest' = true →
        isSpaces b'.before = true) ↔ (isSpaces rest = true → isSpaces b.before = true) := by
      constructor
      · intro h
        exact h b rest rfl
      · rintro h _ _ ⟨⟩
        exact h
    rw [liftable?, splitInline?_of_firstBlock? hfirst, hrest, hparts]
    cases isSpaces rest with
    | false => simp
    | true => simp [hbefore]

/-- Indenting a production gives it no block to take out. -/
theorem liftable?_indentProduction {unit : Text} (hunit : ∀ c ∈ unit, isBlank c = true) (i : Nat)
    {p : Text} (h : liftable? p = none) : liftable? (indentProduction unit i p) = none := by
  rw [liftable?_eq_none_iff] at h ⊢
  rwa [bare_indentProduction hunit]

/-- What is left of a production has no block to take out. -/
theorem liftable?_unlifted (p : Text) : liftable? (unlifted p) = none := by
  cases h : liftable? p with
  | none => rwa [show unlifted p = p by rw [unlifted, h]; rfl]
  | some parts =>
    have hkept : unlifted p = parts.1 := by rw [unlifted, h]; rfl
    obtain ⟨b, rest, hblock, -, hbefore, -⟩ := splitInline?_eq (splitInline?_of_liftable? h)
    have hclear : Clear parts.1 := by
      rw [hbefore]
      exact (firstBlock?_eq_some_iff.1 hblock).2.1.trimBlanksEnd
    rw [hkept, liftable?, splitInline?, firstBlock?, hclear.brace]
    rfl

theorem unlifted_eq_self {p : Text} (h : liftable? p = none) : unlifted p = p := by
  rw [unlifted, h]
  rfl

theorem liftedActions_eq_nil {i : Nat} {ps : List Text} (h : ∀ p ∈ ps, liftable? p = none) :
    liftedActions i ps = [] := by
  induction ps generalizing i with
  | nil => rfl
  | cons p ps ih =>
    rw [liftedActions_cons, lifted?, h p List.mem_cons_self,
      ih fun q hq => h q (List.mem_cons_of_mem p hq)]
    rfl

/-! ## Blocks -/

/-- Lines below an opening brace are the code of the block, if they start with a line of code. -/
theorem blockContent_lines {unit : Text} (hunit : ∀ c ∈ unit, isBlank c = true) {ls : List Text}
    (hlines : ∀ l ∈ ls, newline ∉ l) (hhead : ∀ l ∈ ls.head?, isSpaces l = false) :
    blockContent (newline :: (ls.flatMap (· ++ [newline]) ++ unit)) = ls := by
  have hsplit : splitLines (newline :: (ls.flatMap (· ++ [newline]) ++ unit)) = [] :: (ls ++ [unit]) := by
    rw [splitLines_newline_cons, splitLines_flatMap_newline hlines,
      splitLines_of_notMem (newline_notMem_of_blanks hunit)]
  have hkept : ls.dropWhile isSpaces = ls := by
    cases ls with
    | nil => rfl
    | cons l ls => rw [List.dropWhile_cons_of_neg (by simp [hhead l rfl])]
  unfold blockContent
  rw [hsplit]
  simp [isSpaces_of_blanks hunit, show trim ([] : Text) = [] from rfl, hkept]

/-- Writing a block anew twice is writing it once. -/
theorem reflowBlock_reflowBlock {unit : Text} (hunit : ∀ c ∈ unit, isBlank c = true) (body : Text) :
    reflowBlock unit (reflowBlock unit body) = reflowBlock unit body := by
  rcases reflowBlock_cases unit body with ⟨inner, -, hreflow⟩ | ⟨-, hreflow⟩
  · have hunits : ∀ c ∈ unit ++ unit, isBlank c = true := fun c hc =>
      (List.mem_append.1 hc).elim (hunit c) (hunit c)
    set content := rebase (unit ++ unit) (blockContent inner) with hcontent
    obtain ⟨hlines, hhead⟩ : (∀ l ∈ content, newline ∉ l) ∧ ∀ l ∈ content.head?, isSpaces l = false :=
      ⟨newline_notMem_rebase_blockContent hunits, rebase_blockContent_head hunits⟩
    have hbraces : reflowBlock unit body
        = openBrace :: ((newline :: (content.flatMap (· ++ [newline]) ++ unit)) ++ [closeBrace]) := by
      rw [hreflow]
      simp
    conv_lhs => rw [hbraces, reflowBlock_braces, blockContent_lines hunit hlines hhead, hcontent,
      rebase_rebase hunits, ← hcontent, ← hreflow]
  · rw [hreflow, hreflow]

/-! ## Actions -/

/-- An action laid out on lines of its own. -/
def Action.indented (unit : Text) (a : Action) : Action :=
  a.setText (newline :: unit ++ reflowBlock unit a.body)

section Actions

variable {unit : Text} (hunit : ∀ c ∈ unit, isBlank c = true)
include hunit

theorem Action.Cut.reflowBlock {lead body : Text} (h : Cut lead body) :
    Cut (newline :: unit) (reflowBlock unit body) := by
  have hlayout : ∀ c ∈ newline :: unit, isLayout c = true := by
    intro c hc
    rcases List.mem_cons.1 hc with rfl | hc
    · decide
    · simp [isLayout, hunit c hc]
  refine (h.congr ?_ fun hmem => ?_).behind hlayout
  · rcases reflowBlock_cases unit body with ⟨inner, rfl, hreflow⟩ | ⟨-, hreflow⟩
    · rw [hreflow]
      rfl
    · rw [hreflow]
  · rcases reflowBlock_cases unit body with ⟨inner, rfl, -⟩ | ⟨-, hreflow⟩
    · exact List.mem_cons_self
    · rwa [hreflow] at hmem

/-- A trimmed action gets its body written anew, and nothing else. -/
theorem Action.body_indented {a : Action} (h : a.Trimmed) :
    (a.indented unit).body = GrammarLayout.reflowBlock unit a.body := by
  have hcut := Cut.reflowBlock hunit a.cut
  by_cases hnil : GrammarLayout.reflowBlock unit a.body = []
  · rw [indented, (hcut.setText_nil hnil a).2.2, hnil]
  · rw [indented, (hcut.setText hnil a).2.2]
    rcases reflowBlock_cases unit a.body with ⟨inner, -, hreflow⟩ | ⟨-, hreflow⟩
    · rw [hreflow, ← List.append_assoc, ← List.cons_append, ← List.cons_append]
      exact trimEndWhile_concat (by decide) _
    · rw [hreflow, h.body]

theorem Action.indented_indented {a : Action} (h : a.Trimmed) :
    (a.indented unit).indented unit = a.indented unit := by
  conv_lhs => rw [indented, body_indented hunit h, reflowBlock_reflowBlock hunit]
  rfl

end Actions

/-! ## Rules -/

/-- A rule with no block to take out is left as it is. -/
theorem Rule.liftActions_eq_self {r : Rule} (h : ∀ p ∈ r.productions, liftable? p = none) :
    r.liftActions = r := by
  have hproductions : r.productions.map unlifted = r.productions := by
    rw [List.map_congr_left fun p hp => unlifted_eq_self (h p hp), List.map_id']
  rw [liftActions_eq, hproductions, liftInto, liftedActions_eq_nil h]
  rfl

theorem Rule.trimmed_liftActions {r : Rule} (h : ∀ a ∈ r.actions, a.Trimmed) :
    ∀ a ∈ r.liftActions.actions, a.Trimmed := by
  intro a ha
  rcases mem_liftInto ha with ha | ⟨j, -, p, -, hp⟩
  · exact h a ha
  · obtain ⟨parts, -, rfl⟩ := Option.map_eq_some_iff.1 hp
    exact Action.trimmed_ofText _ _ _

/-- Laying a rule out twice is laying it out once. -/
theorem Rule.indentBy_indentBy {unit : Text} (hunit : ∀ c ∈ unit, isBlank c = true) {r : Rule}
    (h : ∀ a ∈ r.actions, a.Trimmed) : (r.indentBy unit).indentBy unit = r.indentBy unit := by
  have hlift : (r.indentBy unit).liftActions = r.indentBy unit := by
    apply liftActions_eq_self
    intro q hq
    have hindented : q ∈ (r.productions.map unlifted).mapIdx (indentProduction unit) := hq
    obtain ⟨i, hi, rfl⟩ := List.mem_mapIdx.1 hindented
    rw [List.getElem_map]
    exact liftable?_indentProduction hunit i (liftable?_unlifted _)
  have hproductions := mapIdx_mapIdx_eq_self (indentProduction_indentProduction hunit)
    r.liftActions.productions
  have hactions : (r.liftActions.actions.map (Action.indented unit)).map (Action.indented unit)
      = r.liftActions.actions.map (Action.indented unit) := by
    rw [List.map_map]
    exact List.map_congr_left fun a ha => Action.indented_indented hunit (trimmed_liftActions h a ha)
  have heq : ∀ r : Rule, r.indentBy unit = { r.liftActions with
      productions := r.liftActions.productions.mapIdx (indentProduction unit)
      actions := r.liftActions.actions.map (Action.indented unit)
      productionIndent := unit
      terminatorIndent := unit } := fun _ => rfl
  rw [heq (r.indentBy unit), hlift, heq r, hproductions, hactions]

end GrammarLayout
