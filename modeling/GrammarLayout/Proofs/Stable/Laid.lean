import GrammarLayout.Proofs.Pass.Alphabet
import GrammarLayout.Proofs.Stable.Source

/-!
# Laid-out documents can be read

Laying out keeps what reading needs: a block that closes on its last line does so
when its lines are moved, spaced, or written anew.  What is left to ask of a rule
that is laid out is that none of its lines is taken for something else.

What is proved here:

* `Style.blockCloses_layBlock` — blocks after all passes;
* `IsUnmistakable.isLegible` — productions that cannot be taken for anything else;
* `Rule.Unmistakable.legible`, `Rule.Regular.closes_layOut` — rules after all passes.
-/

namespace GrammarLayout

open Ascii Text

/-! ## Lines that close a block -/

theorem filter_isBrace_ink (s : Text) : (ink s).filter isBrace = s.filter isBrace := by
  induction h : s.length using Nat.strongRecOn generalizing s with
  | _ n ih =>
    by_cases hbrace : ∃ c ∈ s, isBrace c = true
    · obtain ⟨c, hmem, hc⟩ := hbrace
      obtain ⟨a, b, rfl⟩ := List.append_of_mem hmem
      have hvisible : c < 0x80 ∧ isWhiteSpace c.toNat = false := by
        rw [isBrace, Bool.or_eq_true, beq_iff_eq, beq_iff_eq] at hc
        rcases hc with rfl | rfl <;> decide
      rw [List.length_append, List.length_cons] at h
      rw [ink_append_ascii_cons hvisible.1, ink_visible_cons hvisible.1 hvisible.2, List.filter_append,
        List.filter_append, List.filter_cons_of_pos hc, List.filter_cons_of_pos hc,
        ih a.length (by omega) a rfl, ih b.length (by omega) b rfl]
    · simp only [not_exists, not_and] at hbrace
      rw [List.filter_eq_nil_iff.2 hbrace, List.filter_eq_nil_iff.2 fun c hc => hbrace c (mem_of_mem_ink hc)]

/-- Whether a brace is closed is told from the ink. -/
theorem closingBraceFrom_of_ink {s t : Text} (h : ink s = ink t) (d : Int) :
    closingBraceFrom d s = none ↔ closingBraceFrom d t = none := by
  rw [← closingBraceFrom_filter_isBrace, ← filter_isBrace_ink, h, filter_isBrace_ink,
    closingBraceFrom_filter_isBrace]

theorem closes_cons {depth : Int} {l : Text} {ls : List Text} (hls : ls ≠ []) :
    Closes depth (l :: ls) ↔ 0 < depth + braceBalance l ∧ Closes (depth + braceBalance l) ls := by
  obtain ⟨next, ls, rfl⟩ := List.exists_cons_of_ne_nil hls
  exact Iff.rfl

/-- Whether lines close a block is told from their ink. -/
theorem Closes.of_ink {depth : Int} {ls ls' : List Text} (h : Closes depth ls)
    (hink : ls'.map ink = ls.map ink) : Closes depth ls' := by
  induction ls generalizing depth ls' with
  | nil => exact h.elim
  | cons l ls ih =>
    obtain ⟨l', ls', rfl⟩ := List.exists_cons_of_ne_nil (l := ls') (by rintro rfl; simp at hink)
    obtain ⟨hl, hls⟩ := List.cons.inj hink
    have hbraces : braceBalance l' = braceBalance l := braceBalance_of_ink hl
    cases ls with
    | nil =>
      obtain rfl : ls' = [] := by simpa using hls
      exact ⟨by rw [hbraces]; exact h.1, by rw [hl]; exact h.2⟩
    | cons next ls =>
      have hne : ls' ≠ [] := by
        rintro rfl
        simp at hls
      rw [closes_cons hne, hbraces]
      exact ⟨h.1, ih h.2 hls⟩

theorem BlockCloses.of_ink {ls ls' : List Text} (h : BlockCloses ls) (hink : ls'.map ink = ls.map ink) :
    BlockCloses ls' := by
  cases ls with
  | nil => exact h.elim
  | cons l ls =>
    obtain ⟨l', ls', rfl⟩ := List.exists_cons_of_ne_nil (l := ls') (by rintro rfl; simp at hink)
    obtain ⟨hl, hls⟩ := List.cons.inj hink
    refine ⟨(closingBraceFrom_of_ink hl 0).2 h.1, ?_⟩
    rw [braceBalance_of_ink hl]
    exact h.2.of_ink hls

/-- Blank lines in front of the last line play no part in closing a block. -/
theorem closes_inkedLines_append {depth : Int} (hdepth : 0 < depth) (ls : List Text) (last : Text) :
    Closes depth (inkedLines ls ++ [last]) ↔ Closes depth (ls ++ [last]) := by
  induction ls generalizing depth with
  | nil => exact Iff.rfl
  | cons l ls ih =>
    rw [List.cons_append, closes_cons (by simp)]
    cases hl : isSpaces l with
    | true =>
      have hline : inkedLines (l :: ls) = inkedLines ls := List.filter_cons_of_neg (by simp [hl])
      rw [hline, braceBalance_of_isSpaces hl, add_zero, ih hdepth]
      exact ⟨fun h => ⟨hdepth, h⟩, And.right⟩
    | false =>
      have hline : inkedLines (l :: ls) = l :: inkedLines ls := List.filter_cons_of_pos (by simp [hl])
      rw [hline, List.cons_append, closes_cons (by simp)]
      exact and_congr_right fun hpositive => ih hpositive

/-- The brace that closes a block may stand on a line of its own. -/
theorem Closes.divide {depth : Int} {init : List Text} {x : Text}
    (h : Closes depth (init ++ [x ++ [closeBrace]])) : Closes depth (init ++ [x, [closeBrace]]) := by
  induction init generalizing depth with
  | nil =>
    have hbalance : depth + braceBalance (x ++ [closeBrace]) = 0 := h.1
    rw [braceBalance_append, show braceBalance [closeBrace] = -1 by decide] at hbalance
    refine ⟨by omega, ?_, by decide⟩
    rw [show braceBalance [closeBrace] = -1 by decide]
    omega
  | cons l init ih =>
    rw [List.cons_append, closes_cons (by simp)] at h ⊢
    exact ⟨h.1, ih h.2⟩

/-! ## Blocks that are written anew -/

/-- Behind its first brace a block closes with a brace on a line of its own. -/
theorem BlockCloses.inner {inner : Text}
    (h : BlockCloses (splitLines (openBrace :: (inner ++ [closeBrace])))) :
    Closes 1 (splitLines inner ++ [[closeBrace]]) := by
  obtain ⟨t₀, ts, hlines⟩ := List.exists_cons_of_ne_nil (splitLines_ne_nil inner)
  rcases List.eq_nil_or_concat ts with rfl | ⟨init, x, rfl⟩
  · -- A block on one line does not leave its brace open.
    have hline : splitLines inner = [] ++ [t₀] := hlines
    rw [splitLines_cons (by decide) (splitLines_concat (by decide) hline)] at h
    exact h.2.elim
  · rw [List.concat_eq_append, ← List.cons_append] at hlines
    rw [splitLines_cons (by decide) (splitLines_concat (by decide) hlines)] at h
    obtain ⟨hunclosed, hcloses⟩ := h
    rw [closingBraceFrom, if_pos rfl, Option.map_eq_none_iff] at hunclosed
    have hpositive := balance_pos_of_closingBraceFrom (by decide) hunclosed
    rw [braceBalance_openBrace, add_comm] at hcloses
    rw [hlines, List.append_assoc, List.singleton_append, List.cons_append, closes_cons (by simp)]
    exact ⟨hpositive, hcloses.divide⟩

/-- A block on one line closes with a brace on a line of its own, too. -/
theorem Closed.closes {inner : Text} (h : Closed inner) (hline : newline ∉ inner) :
    Closes 1 (splitLines inner ++ [[closeBrace]]) := by
  rw [splitLines_of_notMem hline]
  refine ⟨?_, ?_, by decide⟩ <;> rw [h.balance]
  · decide
  · decide

/-- A block that is written anew closes on its last line. -/
theorem blockCloses_reflowBlock {unit inner : Text} (hunit : ∀ c ∈ unit, isBlank c = true)
    (h : Closes 1 (splitLines inner ++ [[closeBrace]])) :
    BlockCloses (splitLines (reflowBlock unit (openBrace :: (inner ++ [closeBrace])))) := by
  have hwritten : reflowBlock unit (openBrace :: (inner ++ [closeBrace]))
      = writtenBlock unit (rebase (unit ++ unit) (blockContent inner)) := reflowBlock_braces unit inner
  have hcontent := reflowed_rebase hunit inner
  have hlines := splitLines_writtenBlock (newline_notMem_of_blanks hunit) hcontent.oneLine
  rw [← hwritten] at hlines
  rw [hlines]
  refine ⟨by decide, ?_⟩
  rw [← closes_inkedLines_append (by decide)] at h
  rw [show braceBalance [openBrace] = 1 by decide, ← closes_inkedLines_append (by decide)]
  refine h.of_ink ?_
  have hink : ∀ ls : List Text, ls.map ink = (ls.map trim).map ink := by
    intro ls
    rw [List.map_map]
    exact List.map_congr_left fun l _ => (ink_trim l).symm
  rw [List.map_append, List.map_append, hink, hcontent.code, ← hink, List.map_singleton,
    List.map_singleton, ink_blanks_append hunit]

/-! ## Blocks after all passes -/

namespace Style

variable {s : Style} {base body : Text} (hbase : ∀ c ∈ base, isBlank c = true)
include hbase

/-- Spacing and aligning change white space in the lines of a block. -/
theorem map_ink_layCode : (splitLines (s.layCode base body)).map ink = (splitLines body).map ink := by
  have hspaced : ∀ body : Text, (splitLines (spacedBody body)).map ink = (splitLines body).map ink := by
    intro body
    rw [splitLines_spacedBody, List.map_map]
    exact List.map_congr_left fun l _ => ink_spaceActionLine l
  have haligned : ∀ body : Text,
      (splitLines (alignedBody base s.indent.unit body)).map ink = (splitLines body).map ink := by
    intro body
    have hunit := s.indent.isBlank_of_mem_unit
    have hmoved : ∀ cut l, ink (moveLine id (base ++ s.indent.unit) cut l) = ink l :=
      fun cut l => ink_moveLine (isBlank_of_mem_append hbase hunit) cut l
    obtain ⟨first, below, hlines⟩ := List.exists_cons_of_ne_nil (splitLines_ne_nil body)
    rw [splitLines_alignedBody hbase hunit hlines, hlines, List.map_cons, List.map_cons]
    rcases List.eq_nil_or_concat below with rfl | ⟨content, last, rfl⟩
    · rfl
    · rw [List.concat_eq_append]
      obtain ⟨cut, hcut⟩ := alignBelow_cases base s.indent.unit content last
      rw [hcut, List.map_append, List.map_append, List.map_map, List.map_singleton, List.map_singleton]
      congr 2
      · exact List.map_congr_left fun l _ => hmoved cut l
      · split_ifs
        exacts [by rw [ink_blanks_append hbase, ink_trim], by rw [hmoved]]
  unfold layCode
  dsimp only
  split_ifs <;> simp only [hspaced, haligned]

theorem ink_layBlock : ink (s.layBlock base body) = ink body := by
  rw [layBlock, ink_layCode hbase]
  split_ifs
  exacts [ink_reflowBlock s.indent.isBlank_of_mem_unit body, rfl]

/-- A block that closes on its last line does so after all passes, and so does a block on one line
that indentation takes out of a production. -/
theorem blockCloses_layBlock (h : BlockCloses (splitLines body) ∨ s.indent.enabled = true ∧
      ∃ inner, body = openBrace :: (inner ++ [closeBrace]) ∧ Closed inner ∧ newline ∉ inner) :
    BlockCloses (splitLines (s.layBlock base body)) := by
  have hunit := s.indent.isBlank_of_mem_unit
  rw [layBlock]
  refine BlockCloses.of_ink ?_ (map_ink_layCode hbase)
  rcases h with h | ⟨hindent, inner, rfl, hclosed, hline⟩
  · split_ifs
    · rcases reflowBlock_cases s.indent.unit body with ⟨inner, rfl, -⟩ | ⟨-, hkept⟩
      · exact blockCloses_reflowBlock hunit h.inner
      · rw [hkept]
        exact h
    · exact h
  · rw [if_pos hindent]
    exact blockCloses_reflowBlock hunit (hclosed.closes hline)

end Style

/-! ## Productions -/

theorem clear_tail_append {w : Text} (hw : isSpaces w = true) (s : Text) :
    Clear (blockLine (s ++ w)).tail ↔ Clear (blockLine s).tail := by
  have hneutral := isNeutral_of_isSpaces hw
  induction s using firstBlock?_induction with
  | tail s hnone =>
    have hboth : firstBlock? (s ++ w) = none := by
      rw [firstBlock?_append_neutral hneutral, hnone]
      rfl
    rw [blockLine_of_firstBlock?_eq_none hnone, blockLine_of_firstBlock?_eq_none hboth]
    exact ⟨.of_append hneutral, fun h => h.append_iff.2 (.of_isSpaces hw)⟩
  | block s b rest hblock ih =>
    rw [blockLine_of_firstBlock? hblock, blockLine_of_firstBlock? (firstBlock?_append hblock w)]
    exact ih

theorem clear_tail_isSpaces_append {w : Text} (hw : isSpaces w = true) (s : Text) :
    Clear (blockLine (w ++ s)).tail ↔ Clear (blockLine s).tail := by
  have hclear : Clear w := .of_isSpaces hw
  have hblock := firstBlock?_clear_append hclear s
  cases hs : firstBlock? s with
  | none =>
    rw [hs, Option.map_none] at hblock
    rw [blockLine_of_firstBlock?_eq_none hs, blockLine_of_firstBlock?_eq_none hblock, hclear.append_iff]
  | some block =>
    rw [hs, Option.map_some] at hblock
    rw [blockLine_of_firstBlock? hs, blockLine_of_firstBlock? hblock]

theorem clear_tail_trim (s : Text) : Clear (blockLine (trim s)).tail ↔ Clear (blockLine s).tail := by
  obtain ⟨w₁, w₂, hs, hw₁, hw₂, -⟩ := trim_split s
  conv_rhs => rw [hs, clear_tail_isSpaces_append hw₁, clear_tail_append hw₂]

/-- A production that cannot be taken for anything else on a line of its own. -/
structure IsUnmistakable (p : Text) : Prop where
  /-- It is no comment. -/
  noComment : (ink p).head? ≠ some hash
  /-- No brace closes at the start. -/
  unclosing : (ink p).head? ≠ some closeBrace
  /-- No semicolon stands at the start. -/
  unfinished : (ink p).head? ≠ some semicolon
  /-- No semicolon stands at the end. -/
  unstopped : (ink p).getLast? ≠ some semicolon
  /-- It opens no section after the grammar. -/
  noMarker : ¬ bytes "----" <+: ink p
  /-- It is no header. -/
  noHeader : header? (ink p) = none
  /-- It does not end the grammar. -/
  noEnd : ink p ≠ bytes "end"
  /-- All its blocks and literals are complete. -/
  complete : Clear (blockLine p).tail
  /-- No pipe but the one in front divides it. -/
  uncut : (alternatives (bare p)).2 = []

instance (s : Text) : Decidable (Clear s) :=
  decidable_of_iff (openingBrace? s = none ∧ Quoting.code.after s = .code)
    ⟨fun h => ⟨h.1, h.2⟩, fun h => ⟨h.brace, h.code⟩⟩

instance (p : Text) : Decidable (IsUnmistakable p) :=
  decidable_of_iff (((ink p).head? ≠ some hash ∧ (ink p).head? ≠ some closeBrace ∧
      (ink p).head? ≠ some semicolon ∧ (ink p).getLast? ≠ some semicolon) ∧
      (¬ bytes "----" <+: ink p ∧ header? (ink p) = none ∧ ink p ≠ bytes "end") ∧
      Clear (blockLine p).tail ∧ (alternatives (bare p)).2 = [])
    ⟨fun ⟨⟨h₁, h₂, h₃, h₄⟩, ⟨h₅, h₆, h₇⟩, h₈, h₉⟩ => ⟨h₁, h₂, h₃, h₄, h₅, h₆, h₇, h₈, h₉⟩,
      fun h => ⟨⟨h.noComment, h.unclosing, h.unfinished, h.unstopped⟩,
        ⟨h.noMarker, h.noHeader, h.noEnd⟩, h.complete, h.uncut⟩⟩

theorem endsVisible_blanks_append {w : Text} (hw : ∀ c ∈ w, isBlank c = true) {s : Text}
    (hs : EndsVisible s) (hne : s ≠ []) : EndsVisible (w ++ s) := by
  have hpieces : pieces s ≠ [] := by
    intro hnil
    rw [← ofPieces_pieces s, hnil] at hne
    exact hne rfl
  rw [EndsVisible, pieces_blanks_append hw, List.getLast?_append_of_ne_nil _ hpieces]
  exact hs

/-- Wherever it is indented, an unmistakable production is legible. -/
theorem IsUnmistakable.isLegible {p : Text} (h : IsUnmistakable p) (hinked : isSpaces p = false)
    (hsingle : IsSingleLine p) {w : Text} (hw : ∀ c ∈ w, isBlank c = true) :
    IsLegible (w ++ trim p) := by
  have hink : ink (w ++ trim p) = ink p := by rw [ink_blanks_append hw, ink_trim]
  have hne : trim p ≠ [] := by
    rw [Ne, trim_eq_nil_iff, hinked]
    decide
  have hbody : IsBodyLine (w ++ trim p) := by
    refine ⟨over_append.2 ⟨isSingleLine_of_blanks hw, hsingle.trim⟩, ?_, ?_, ?_, ?_, ?_⟩ <;> rw [hink]
    · rw [Ne, ink_eq_nil_iff, hinked]
      decide
    · exact h.noComment
    · exact h.noMarker
    · exact h.noHeader
    · exact h.noEnd
  refine ⟨hbody, endsVisible_blanks_append hw (endsVisible_trim p) hne, ?_, ?_, ?_, ?_, ?_⟩
  · rw [hink]
    exact h.unclosing
  · rw [hink]
    exact h.unfinished
  · rw [hink]
    exact h.unstopped
  · rw [clear_tail_isSpaces_append (isSpaces_of_blanks hw), clear_tail_trim]
    exact h.complete
  · rw [bare, trim_blanks_append hw, trim_trim]
    exact h.uncut

/-! ## Rules -/

/-- A rule whose productions and blocks cannot be taken for anything else, with one block at most
behind each production. -/
structure Rule.Unmistakable (r : Rule) : Prop where
  /-- No production can be taken for anything else. -/
  productions : ∀ p ∈ r.productions, IsUnmistakable p
  /-- No two blocks follow the same production. -/
  ordered : r.actions.Pairwise (·.owner < ·.owner)
  /-- No block ends with a semicolon behind a brace, which would end the rule. -/
  unended : ∀ a ∈ r.actions, ¬ bytes "\x7d;" <:+ ink a.body

instance (r : Rule) : Decidable r.Unmistakable :=
  decidable_of_iff ((∀ p ∈ r.productions, IsUnmistakable p) ∧ r.actions.Pairwise (·.owner < ·.owner) ∧
      ∀ a ∈ r.actions, ¬ bytes "\x7d;" <:+ ink a.body)
    ⟨fun h => ⟨h.1, h.2.1, h.2.2⟩, fun h => ⟨h.productions, h.ordered, h.unended⟩⟩

namespace Rule

variable {r : Rule}

/-- The line of a production is the production without white space at its ends, behind blanks. -/
theorem Regular.productionLine_eq (h : r.Regular) {i : Nat} {p : Text} (hp : r.productions[i]? = some p) :
    ∃ w, (∀ c ∈ w, isBlank c = true) ∧ r.productionLine i p = w ++ trim p := by
  cases i with
  | zero => exact ⟨r.productionIndent, h.productionIndent, if_pos rfl⟩
  | succ i =>
    have hproduction := h.productions (i + 1) p hp
    have hread := hproduction.readProduction_succ r
    cases hproduction with
    | @alternative _ w v b hw hv hb hgap =>
      refine ⟨w, hw, ?_⟩
      rw [readProduction, hasPipe_alternative hw, if_pos rfl] at hread
      rw [hread, trim_alternative hw hv hb.trimmed hgap]
      rfl

/-- A rule that cannot be mistaken and is otherwise as the passes leave it is legible. -/
theorem Unmistakable.legible (h : r.Unmistakable) (hregular : r.Regular) (hshaped : r.Shaped)
    (hover : r.Over (· ≠ carriageReturn)) (hnamed : r.name ≠ [])
    (hcloses : ∀ a ∈ r.actions, BlockCloses (splitLines a.body)) : r.Legible where
  named := hnamed
  name := hover.word
  productionIndent := hshaped.productionIndent
  terminatorIndent := hshaped.terminatorIndent
  lines i p hp := by
    have hmem := List.mem_of_getElem? hp
    obtain ⟨w, hw, hline⟩ := hregular.productionLine_eq hp
    rw [hline]
    refine (h.productions p hmem).isLegible (hshaped.inked p hmem) ?_ hw
    exact isSingleLine_iff.2 ⟨hshaped.oneLine p hmem, over_ne.1 (hover.productions p hmem)⟩
  piped i p hp := by
    refine hshaped.piped p (List.mem_of_getElem? (i := i) ?_)
    rw [List.getElem?_tail]
    exact hp
  ordered := h.ordered
  lower := hshaped.lower
  upper := hshaped.upper
  blocks a ha := ⟨hregular.actions a ha, over_ne.1 (Action.over_body (hover.actions a ha)), hcloses a ha⟩

/-- Where blocks without a semicolon behind their last braces close on their last lines, they do so
after all passes. -/
theorem Regular.closes_layOut {s : Style} (h : r.Regular) (hline : ∀ p ∈ r.productions, newline ∉ p)
    (hcloses : ∀ a ∈ r.actions, ¬ bytes "\x7d;" <:+ ink a.body → BlockCloses (splitLines a.body)) :
    ∀ b ∈ (r.layOut s).actions, ¬ bytes "\x7d;" <:+ ink b.body → BlockCloses (splitLines b.body) := by
  intro b hb hunended
  have hparts := h.inParts_keptActions hline (s := s)
  obtain ⟨a, ha, -, -, hbody, hb⟩ := h.parts_layOut hparts hb
  have hindent := (h.layOut hparts).productionIndent
  have hbase := isBlank_of_mem_leadIndent hindent hb.lead a.owner
  rw [hbody] at hunended ⊢
  rw [Style.ink_layBlock hbase] at hunended
  refine Style.blockCloses_layBlock hbase ?_
  unfold keptActions at ha
  split_ifs at ha with henabled
  · rcases mem_liftInto ha with ha | ⟨j, -, p, hp, hlift⟩
    · exact .inl (hcloses a ha hunended)
    · obtain ⟨inner, hclosed, hinner, -, hblock⟩ := parts_of_lifted? hlift (hline p hp)
      exact .inr ⟨henabled, inner, hblock, hclosed, hinner⟩
  · exact .inl (hcloses a ha hunended)

/-- A rule with the settings of every rule that is read is laid out after all passes. -/
theorem Regular.laidOut (s : Style) (h : r.Regular) (hline : ∀ p ∈ r.productions, newline ∉ p)
    (hsettings : r = { name := r.name, line := r.line, productions := r.productions,
                       actions := r.actions })
    {n : Nat} (hn : s.alignsPipes = false → n = 0) :
    LaidOut s { r.layOut s with namePadding := n } where
  regular :=
    have hlaid := h.layOut (h.inParts_keptActions hline (s := s))
    ⟨hlaid.productions, hlaid.productionIndent, hlaid.actions, hlaid.owned⟩
  unlifted := h.liftable?_layOut
  productionIndent := by
    rw [layOut_eq, hsettings]
  terminatorIndent := by
    rw [layOut_eq, hsettings]
  colonSpacing := by
    rw [layOut_eq, hsettings]
  namePadding := hn
  fixed := by
    rw [namePadding_layOut, h.layOut_layOut (h.inParts_keptActions hline)]

end Rule

end GrammarLayout
