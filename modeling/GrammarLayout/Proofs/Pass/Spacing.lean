import GrammarLayout.Pass.Brace
import GrammarLayout.Pass.Spacing
import GrammarLayout.Proofs.Grammar.Braces
import GrammarLayout.Proofs.Pass.Code
import GrammarLayout.Proofs.Pass.Laid

/-!
# Placing braces and spacing signs

The brace pass moves opening braces, the spacing pass sets the space around
colons, pipes and operators.  Both respace a rule that is laid out and leave it
laid out.

What is proved here:

* `Rule.Laid.placeBraces` — moving the opening braces of a rule;
* `ink_spacePipe`, `ink_spaceBlocks` — what happens to a production;
* `Rule.Ordered.spaceSigns`, `Rule.Laid.spaceSigns` — spacing the signs of a
  rule; a pipe behind other white space than blanks is not found, and a second
  one is written in front of it.
-/

namespace GrammarLayout

open Ascii Text

/-! ## Blocks -/

theorem Action.imprint_setText (a : Action) {text : Text} (h : ink text = ink a.text) :
    (a.setText text).imprint = a.imprint := by
  rw [imprint, imprint, setText, ink_trimLayoutEnd, h]

theorem Rule.map_imprint {f : Action → Action} {as : List Action}
    (h : ∀ a ∈ as, (f a).imprint = a.imprint) :
    (as.map f).map Action.imprint = as.map Action.imprint := by
  rw [List.map_map]
  exact List.map_congr_left h

/-! ## Opening braces -/

theorem Action.imprint_placeBrace (style : BraceStyle) {indent : Text}
    (hindent : ∀ c ∈ indent, isBlank c = true) {a : Action} (ha : a.Framed) :
    (a.placeBrace style indent).imprint = a.imprint := by
  unfold placeBrace
  split
  · split
    · refine a.imprint_setText ?_
      rw [← ha.ink_body]
      split
      · exact ink_space _
      · rfl
    · rfl
  · split
    · rfl
    · refine a.imprint_setText ?_
      rw [List.cons_append, ink_newline, ink_blanks_append hindent, ha.ink_body]

theorem Rule.respaced_placeBraces (style : BraceStyle) {r : Rule} (h : r.Ordered) :
    r.Respaced (r.placeBraces style) where
  name := rfl
  productions := rfl
  actions := Rule.map_imprint fun a ha =>
    Action.imprint_placeBrace style h.productionIndent (h.framed a ha)
  productionIndent := h.productionIndent
  terminatorIndent := h.terminatorIndent

theorem Rule.Laid.placeBraces (style : BraceStyle) {r : Rule} (h : r.Laid) :
    r.Respaced (r.placeBraces style) ∧ (r.placeBraces style).Laid :=
  ⟨Rule.respaced_placeBraces style h.toOrdered,
    (Rule.respaced_placeBraces style h.toOrdered).ordered h.toOrdered, h.pipes⟩

/-! ## Pipes -/

/-- The alternative with one more pipe in front when its own stands behind other white space than
blanks. -/
def doublePipe (p : Text) : Text := if firstSign p = some pipe then p else pipe :: p

theorem doublePipe_of_firstSign {p : Text} (h : firstSign p = some pipe) : doublePipe p = p :=
  if_pos h

theorem firstSign_spacePipe (around : Bool) (p : Text) :
    firstSign (spacePipe around p) = some pipe := by
  have hblanks : ∀ c ∈ leadingBlanks p, isBlank c = true := fun c hc => List.mem_takeWhile_imp hc
  have hsign : ∀ t, firstSign (leadingBlanks p ++ pipe :: t) = some pipe := by
    intro t
    rw [firstSign_blanks_append hblanks, firstSign_cons (by decide)]
  simp only [spacePipe]
  split
  · exact hsign []
  · split
    · rw [show bytes "| " = [pipe, space] from rfl, List.append_assoc]
      exact hsign _
    · exact hsign _

/-- A pipe is taken off where it is the first byte that is no blank. -/
theorem ink_doublePipe (p : Text) :
    ink (doublePipe p) = pipe :: ink (dropStart [pipe] (trimBlanksStart p)) := by
  have hsplit : leadingBlanks p ++ trimBlanksStart p = p := List.takeWhile_append_dropWhile
  have hsign : firstSign p = firstSign (trimBlanksStart p) := by
    conv_lhs => rw [← hsplit]
    exact firstSign_blanks_append (fun c hc => List.mem_takeWhile_imp hc) _
  have hink : ink p = ink (trimBlanksStart p) := (ink_trimBlanksStart p).symm
  by_cases hpipe : startsWith [pipe] (trimBlanksStart p) = true
  · obtain ⟨t, ht⟩ := List.head?_eq_some_iff.1 (startsWith_singleton_iff.1 hpipe)
    have hdrop : dropStart [pipe] (pipe :: t) = t := by simp [dropStart, startsWith]
    rw [ht, firstSign_cons (by decide)] at hsign
    rw [doublePipe_of_firstSign hsign, hink, ht, hdrop, ink_pipe]
  · have hnot : firstSign p ≠ some pipe := by
      intro h
      obtain ⟨w, rest, hp, hw, -⟩ := firstSign_eq_some h
      rw [hp, trimBlanksStart, List.dropWhile_append_of_pos hw] at hpipe
      exact hpipe (by simp [startsWith, show isBlank pipe = false from rfl])
    rw [doublePipe, if_neg hnot, dropStart, if_neg hpipe, ink_pipe, hink]

theorem ink_spacePipe (around : Bool) (p : Text) :
    ink (spacePipe around p) = ink (doublePipe p) := by
  rw [ink_doublePipe]
  simp only [spacePipe]
  split
  · rename_i hempty
    rw [ink_leadingBlanks_append, ink_pipe, ink_nil, ← ink_trim (dropStart _ _),
      List.isEmpty_iff.1 hempty, ink_nil]
  · split
    · rw [show bytes "| " = [pipe, space] from rfl, List.append_assoc, ink_leadingBlanks_append]
      simp
    · rw [ink_leadingBlanks_append]
      simp

/-! ## Blocks inside productions -/

theorem ink_joinInline (text inner : Text) :
    ink (joinInline text inner) = ink text ++ openBrace :: (ink inner ++ [closeBrace]) := by
  have hopen : bytes "\x7b " = [openBrace, space] := rfl
  have hclose : bytes " \x7d" = [space, closeBrace] := rfl
  have hboth : bytes "\x7b \x7d" = [openBrace, space, closeBrace] := rfl
  have hblock : ink (if inner.isEmpty then bytes "\x7b \x7d"
      else bytes "\x7b " ++ inner ++ bytes " \x7d") = openBrace :: (ink inner ++ [closeBrace]) := by
    split
    · rename_i hempty
      rw [List.isEmpty_iff.1 hempty, hboth]
      simp
    · rw [hopen, hclose]
      simp
  unfold joinInline
  split
  · rename_i hempty
    rw [List.nil_append, hblock, List.isEmpty_iff.1 hempty, ink_nil, List.nil_append]
  · rw [List.append_assoc, List.singleton_append, ink_append_space, hblock]

/-- A production with a block at its end has the ink of the text before the block and of the
block. -/
theorem ink_of_splitInline? {p before inner : Text} (h : splitInline? p = some (before, inner)) :
    ink p = ink before ++ openBrace :: (ink inner ++ [closeBrace]) := by
  obtain ⟨b, rest, hblock, hrest, rfl, rfl⟩ := splitInline?_eq h
  rw [firstBlock?_eq hblock, ink_trimBlanksEnd, List.cons_append, ink_append_openBrace,
    ink_append_closeBrace, ink_of_isSpaces hrest]

theorem firstSign_of_splitInline? {p before inner : Text}
    (h : splitInline? p = some (before, inner)) (hp : firstSign p = some pipe) :
    firstSign before = some pipe := by
  obtain ⟨b, rest, hblock, -, rfl, -⟩ := splitInline?_eq h
  rw [firstBlock?_eq hblock] at hp
  rw [firstSign_trimBlanksEnd]
  exact firstSign_of_append_cons hp (by decide) (by decide)

theorem firstSign_joinInline {text : Text} (h : firstSign text = some pipe) (inner : Text) :
    firstSign (joinInline text inner) = some pipe := by
  have hne : ¬text.isEmpty = true := by
    intro hempty
    rw [List.isEmpty_iff.1 hempty] at h
    simp [firstSign] at h
  rw [joinInline, if_neg hne, List.append_assoc]
  exact firstSign_append h _

theorem ink_mapBlocks {f : Text → Text} (hf : ∀ t, ink (f t) = ink t) (p : Text) :
    ink (mapBlocks f p) = ink p := by
  have hblocks : ∀ (bs : List Block) (tail : Text),
      ink (bs.flatMap (Block.text f) ++ tail) = ink (bs.flatMap (Block.text id) ++ tail) := by
    intro bs tail
    induction bs with
    | nil => rfl
    | cons b bs ih =>
      simp [Block.text, hf, ih]
  rw [mapBlocks_eq, hblocks, ← blockLine_eq]

theorem firstSign_mapBlocks (f : Text → Text) {p : Text} (h : firstSign p = some pipe) :
    firstSign (mapBlocks f p) = some pipe := by
  have hp := blockLine_eq p
  rw [mapBlocks_eq]
  cases hbs : (blockLine p).blocks with
  | nil =>
    rw [hbs] at hp
    rw [List.flatMap_nil, List.nil_append] at hp ⊢
    rwa [← hp]
  | cons b bs =>
    rw [hbs] at hp
    rw [hp, List.flatMap_cons, Block.text, List.append_assoc, List.append_assoc, List.append_assoc] at h
    rw [List.flatMap_cons, Block.text, List.append_assoc, List.append_assoc, List.append_assoc]
    exact firstSign_append (firstSign_of_append_cons h (by decide) (by decide)) _

theorem ink_spaceBlock (inner : Text) : ink (spaceBlock inner) = ink inner := by
  have hcode : ink (spaceOperators (trim inner)) = ink inner := by
    rw [ink_spaceOperators, ink_trim]
  simp only [spaceBlock]
  split
  · rename_i hempty
    rw [← hcode, List.isEmpty_iff.1 hempty]
    rfl
  · rw [List.cons_append, ink_space, ink_append_space, ink_nil, List.append_nil, hcode]

theorem ink_spaceBlocks (p : Text) : ink (spaceBlocks p) = ink p := by
  unfold spaceBlocks
  split
  · rename_i before inner hsplit
    rw [ink_joinInline, ink_spaceOperators, ink_trim, ink_of_splitInline? hsplit]
  · exact ink_mapBlocks ink_spaceBlock p

theorem firstSign_spaceBlocks {p : Text} (h : firstSign p = some pipe) :
    firstSign (spaceBlocks p) = some pipe := by
  unfold spaceBlocks
  split
  · rename_i before inner hsplit
    exact firstSign_joinInline (firstSign_of_splitInline? hsplit h) _
  · exact firstSign_mapBlocks spaceBlock h

theorem ink_spaceProduction_zero (style : SpacingStyle) (p : Text) :
    ink (spaceProduction style 0 p) = ink p := by
  simp only [spaceProduction, Nat.lt_irrefl, decide_false, Bool.false_and]
  split
  · exact ink_spaceBlocks p
  · rfl

theorem spaceProduction_succ (style : SpacingStyle) (i : Nat) {p : Text} (h : hasPipe p = true) :
    ink (spaceProduction style (i + 1) p) = ink (doublePipe p) ∧
      firstSign (spaceProduction style (i + 1) p) = some pipe := by
  have hink := ink_spacePipe style.aroundPipe p
  have hsign := firstSign_spacePipe style.aroundPipe p
  simp only [spaceProduction, Nat.zero_lt_succ, decide_true, Bool.true_and, if_pos h]
  split
  · exact ⟨(ink_spaceBlocks _).trans hink, firstSign_spaceBlocks hsign⟩
  · exact ⟨hink, hsign⟩

/-! ## Lines of blocks -/

theorem ink_spaceActionLine (l : Text) : ink (spaceActionLine l) = ink l := by
  simp only [spaceActionLine]
  split
  · rfl
  · rw [ink_leadingBlanks_append, ink_spaceOperators, ink_trimBlanksStart]

theorem Action.imprint_spaceLines {a : Action} (ha : a.Framed) :
    a.spaceLines.imprint = a.imprint := by
  refine a.imprint_setText ?_
  rw [ink_isSpaces_append ha.isSpaces_lead, ink_joinLines, List.flatMap_map]
  simp only [ink_spaceActionLine]
  rw [ink_splitLines, ha.ink_body]

/-! ## Rules -/

namespace Rule

/-- The rule with one more pipe in front of each later alternative whose own pipe stands behind
other white space than blanks. -/
def doublePipes (r : Rule) : Rule :=
  { r with productions := r.productions.take 1 ++ r.productions.tail.map doublePipe }

theorem doublePipes_of_forall {r : Rule} (h : ∀ p ∈ r.productions.tail, firstSign p = some pipe) :
    r.doublePipes = r := by
  have hsame : r.productions.tail.map doublePipe = r.productions.tail := by
    conv_rhs => rw [← List.map_id r.productions.tail]
    exact List.map_congr_left fun p hp => doublePipe_of_firstSign (h p hp)
  rw [doublePipes, hsame, ← List.drop_one, List.take_append_drop]

variable {r : Rule}

theorem Ordered.doublePipes (h : r.Ordered) : r.doublePipes.Ordered := by
  refine h.of_imprints rfl ?_ (fun q hq => ?_) h.productionIndent h.terminatorIndent
  · cases hps : r.productions <;> simp [Rule.doublePipes, hps]
  · have hq' : q ∈ r.productions.tail.map doublePipe := by
      cases hps : r.productions <;> simp_all [Rule.doublePipes]
    obtain ⟨p, -, rfl⟩ := List.mem_map.1 hq'
    rw [hasPipe_iff, ink_doublePipe]
    rfl

/-- Spacing the signs of a rule changes white space only, apart from the pipes that are not found,
and lays the rule out. -/
theorem Ordered.spaceSigns (style : SpacingStyle) (h : r.Ordered) :
    r.doublePipes.Respaced (r.spaceSigns style) ∧ (r.spaceSigns style).Laid := by
  have hlater : ∀ i, ∀ p ∈ r.productions.tail,
      ink (spaceProduction style (i + 1) p) = ink (doublePipe p) ∧
        firstSign (spaceProduction style (i + 1) p) = some pipe :=
    fun i p hp => spaceProduction_succ style i (h.piped p hp)
  have hrespaced : r.doublePipes.Respaced (r.spaceSigns style) := by
    refine ⟨rfl, ?_, ?_, h.productionIndent, h.terminatorIndent⟩
    · exact map_ink_mapIdx_eq (ink_spaceProduction_zero style) fun i p hp => (hlater i p hp).1
    · simp only [Rule.spaceSigns]
      split
      · exact map_imprint fun a ha => Action.imprint_spaceLines (h.framed a ha)
      · rfl
  refine ⟨hrespaced, hrespaced.ordered h.doublePipes, fun q hq => ?_⟩
  obtain ⟨i, p, hp, rfl⟩ := exists_of_mem_tail_mapIdx hq
  exact (hlater i p hp).2

theorem Laid.spaceSigns (style : SpacingStyle) (h : r.Laid) :
    r.Respaced (r.spaceSigns style) ∧ (r.spaceSigns style).Laid := by
  have hspaced := h.toOrdered.spaceSigns style
  rwa [doublePipes_of_forall h.pipes] at hspaced

end Rule

end GrammarLayout
