import GrammarLayout.Proofs.Idempotent.Alignment
import GrammarLayout.Proofs.Idempotent.Indent
import GrammarLayout.Proofs.Idempotent.Layout
import GrammarLayout.Proofs.Idempotent.Productions
import GrammarLayout.Proofs.Idempotent.Spacing
import GrammarLayout.Proofs.Pass.Leads

/-!
# Blocks under several passes

An action has two parts, the layout in front of its brace and its block.  The
passes that write a block anew, space its operators and line it up leave what
the passes after them have made of it: spacing changes no indentation, and
lining a block up moves its lines as they are.

What is proved here:

* `IsBlockBody` — the text of a block, which every pass keeps;
* `spacedBody_alignedBody` — lined up code stays spaced;
* `reflowBlock_writtenBlock`, `spacedBody_writtenBlock`, `alignedBody_writtenBlock` — each
  pass on a block that was written anew.
-/

namespace GrammarLayout

open Ascii Text

/-! ## Lines of code -/

theorem isBlank_of_mem_leadingBlanks (l : Text) : ∀ c ∈ leadingBlanks l, isBlank c = true :=
  fun _ hc => List.mem_takeWhile_imp hc

theorem leadingBlanks_append_trimBlanksStart (l : Text) :
    leadingBlanks l ++ trimBlanksStart l = l := List.takeWhile_append_dropWhile

theorem trimEndWhile_eq_self {p : UInt8 → Bool} {s : Text} (h : ∀ c ∈ s.getLast?, p c = false) :
    trimEndWhile p s = s := by
  rcases List.eq_nil_or_concat s with rfl | ⟨t, c, rfl⟩
  · rfl
  · rw [List.concat_eq_append]
    exact trimEndWhile_concat (h c (by simp)) t

/-- A line that is spaced stays so wherever it is moved. -/
theorem spaceActionLine_moved {l w : Text} (hl : spaceActionLine l = l)
    (hw : ∀ c ∈ w, isBlank c = true) :
    spaceActionLine (w ++ lineCore l) = w ++ lineCore l := by
  have htrim : trim (w ++ lineCore l) = trim l := by
    rw [trim_blanks_append hw, lineCore, trim_trimBlanksEnd]
    conv_rhs => rw [← leadingBlanks_append_trimBlanksStart l]
    exact (trim_blanks_append (isBlank_of_mem_leadingBlanks l) _).symm
  cases hframe : isFrameLine l with
  | true =>
    refine spaceActionLine_of_frame ?_
    rwa [isFrameLine, htrim, ← isFrameLine]
  | false =>
    rw [spaceActionLine_of_code hframe] at hl
    have hcode : spaceOperators (trimBlanksStart l) = trimBlanksStart l := by
      have hboth := hl.trans (leadingBlanks_append_trimBlanksStart l).symm
      exact List.append_cancel_left hboth
    have hcore : lineCore l = trimBlanksStart l := by
      refine trimEndWhile_eq_self fun c hc => ?_
      rw [← hcode] at hc
      exact getLast?_spaceOperators _ c hc
    rw [hcore]
    exact spaceActionLine_append hw hcode (head?_trimBlanksStart l)

/-- A line with code, and with no white space but blanks in front of it. -/
structure IsEndLine (l : Text) : Prop where
  /-- There is code. -/
  inked : isSpaces l = false
  /-- Blanks are all the white space at the ends. -/
  trim_eq : trim l = trimBlanksStart l

namespace IsEndLine

variable {l : Text} (h : IsEndLine l)
include h

theorem endsVisible : EndsVisible (trimBlanksStart l) := by
  rw [← h.trim_eq]
  exact endsVisible_trim l

theorem lineCore_eq : lineCore l = trim l := by
  rw [lineCore, ← h.trim_eq]
  exact trimEndWhile_eq_self_of_imp (fun c hc => by simp [isLayout, hc])
    (endsVisible_trim l).trimLayout

theorem trimLayout : trimEndWhile isLayout l = l := by
  have hend := h.endsVisible.trimLayout
  have hne : trimBlanksStart l ≠ [] := by
    rw [← h.trim_eq, Ne, trim_eq_nil_iff, h.inked]
    decide
  rw [← leadingBlanks_append_trimBlanksStart l, trimEndWhile_append_of_ne_nil (by rwa [hend]), hend]

theorem ne_nil : l ≠ [] := by
  rintro rfl
  exact absurd h.inked (by decide)

theorem spaceActionLine : IsEndLine (spaceActionLine l) where
  inked := isSpaces_eq_false_of_ink (ink_spaceActionLine l) h.inked
  trim_eq := by
    cases hframe : isFrameLine l with
    | true => rw [spaceActionLine_of_frame hframe, h.trim_eq]
    | false =>
      have hblanks := isBlank_of_mem_leadingBlanks l
      have htrim : trim (trimBlanksStart l) = trimBlanksStart l := by
        rw [← h.trim_eq, trim_trim]
      rw [spaceActionLine_of_code hframe, trim_blanks_append hblanks, trim_spaceOperators htrim,
        trimBlanksStart_append hblanks (head?_spaceOperators_trimBlanksStart l)]

/-- The line at another indentation. -/
theorem behind {w : Text} (hw : ∀ c ∈ w, isBlank c = true) : IsEndLine (w ++ trim l) where
  inked := by rw [isSpaces_blanks_trim hw, h.inked]
  trim_eq := by
    rw [trim_blanks_append hw, trim_trim,
      trimBlanksStart_append hw (startsVisible_trim l).head?]

theorem moveLine {base : Text} (hbase : ∀ c ∈ base, isBlank c = true) (cut : Nat) :
    IsEndLine (moveLine id base cut l) := by
  have hblanks : ∀ c ∈ base ++ (leadingBlanks l).drop cut, isBlank c = true := by
    intro c hc
    rcases List.mem_append.1 hc with hc | hc
    · exact hbase c hc
    · exact List.mem_takeWhile_imp (List.mem_of_mem_drop hc)
  rw [moveLine_of_ink h.inked, rebaseLine_of_ink h.inked, h.lineCore_eq]
  exact h.behind hblanks

end IsEndLine

/-! ## Bodies -/

/-- The text of a block, from its brace to the last byte that is not white space. -/
structure IsBlockBody (body : Text) : Prop where
  /-- A brace comes first. -/
  opened : body.head? = some openBrace
  /-- The last line has code at its end. -/
  tail : ∀ l ∈ (splitLines body).getLast?, IsEndLine l

/-- The lines of a block: one or more. -/
theorem exists_splitLines_concat (s : Text) : ∃ ls l, splitLines s = ls ++ [l] := by
  rcases List.eq_nil_or_concat (splitLines s) with h | ⟨ls, l, h⟩
  · exact absurd h (splitLines_ne_nil s)
  · exact ⟨ls, l, by rw [h, List.concat_eq_append]⟩

/-- What becomes of the lines below an opening brace: each is moved, and only the last one may be
put where the brace stands. -/
theorem alignBelow_cases (base step : Text) (content : List Text) (last : Text) :
    ∃ cut, alignBelow base step (content ++ [last])
      = content.map (moveLine id (base ++ step) cut)
        ++ [if startsWith [closeBrace] (trim last) then base ++ trim last
            else moveLine id (base ++ step) cut last] := by
  rw [alignBelow_concat]
  split_ifs with hclosing
  · exact ⟨leastIndent content, rfl⟩
  · refine ⟨leastIndent (content ++ [last]), ?_⟩
    rw [alignContent_eq, moveLines, List.map_append]
    rfl

namespace IsBlockBody

variable {body : Text} (h : IsBlockBody body)
include h

theorem ne_nil : body ≠ [] := by
  rintro rfl
  exact absurd h.opened (by simp)

theorem trimLayout : trimEndWhile isLayout body = body := by
  obtain ⟨ls, l, hlines⟩ := exists_splitLines_concat body
  have hend : IsEndLine l := h.tail l (by simp [hlines])
  obtain ⟨front, hfront⟩ := exists_joinLines_concat ls l
  rw [← joinLines_splitLines body, hlines, hfront,
    trimEndWhile_append_of_ne_nil (by rw [hend.trimLayout]; exact hend.ne_nil), hend.trimLayout]

theorem spacedBody : IsBlockBody (spacedBody body) where
  opened := by
    obtain ⟨t, rfl⟩ := List.head?_eq_some_iff.1 h.opened
    obtain ⟨t', ht'⟩ := head?_spacedBody (c := openBrace) (by decide) t
    rw [ht']
    rfl
  tail := by
    rw [splitLines_spacedBody]
    intro l hl
    rw [List.getLast?_map, Option.mem_def, Option.map_eq_some_iff] at hl
    obtain ⟨m, hm, rfl⟩ := hl
    exact (h.tail m hm).spaceActionLine

theorem alignedBody {base step : Text} (hbase : ∀ c ∈ base, isBlank c = true)
    (hstep : ∀ c ∈ step, isBlank c = true) : IsBlockBody (alignedBody base step body) := by
  obtain ⟨t, ht⟩ := List.head?_eq_some_iff.1 h.opened
  obtain ⟨first, below, hlines⟩ := List.exists_cons_of_ne_nil (splitLines_ne_nil body)
  have hblock : Action.Cut [] (openBrace :: t) := Action.Cut.block (by simp)
  have hcut := hblock.alignedBody hbase hstep
  refine ⟨?_, ?_⟩
  · obtain ⟨l, ls, hls⟩ := List.exists_cons_of_ne_nil (splitLines_ne_nil t)
    rw [ht, alignedBody_eq base step (splitLines_cons (by decide) hls), head?_joinLines (by simp)]
    rfl
  · rw [splitLines_alignedBody hbase hstep hlines]
    have htail := h.tail
    rw [hlines] at htail
    rcases List.eq_nil_or_concat below with rfl | ⟨content, last, rfl⟩
    · exact htail
    · rw [List.concat_eq_append] at htail ⊢
      have hlast : IsEndLine last := htail last (by rw [← List.cons_append, List.getLast?_concat]; rfl)
      obtain ⟨cut, hbelow⟩ := alignBelow_cases base step content last
      rw [hbelow, ← List.cons_append, List.getLast?_concat]
      rintro l ⟨⟩
      split_ifs
      exacts [hlast.behind hbase, hlast.moveLine (isBlank_of_mem_append hbase hstep) _]

/-- Code that is spaced stays so when it is lined up. -/
theorem spacedBody_alignedBody {base step : Text} (hbase : ∀ c ∈ base, isBlank c = true)
    (hstep : ∀ c ∈ step, isBlank c = true) (hspaced : GrammarLayout.spacedBody body = body) :
    GrammarLayout.spacedBody (GrammarLayout.alignedBody base step body)
      = GrammarLayout.alignedBody base step body := by
  obtain ⟨first, below, hlines⟩ := List.exists_cons_of_ne_nil (splitLines_ne_nil body)
  have hfixed : ∀ l ∈ first :: below, GrammarLayout.spaceActionLine l = l := by
    have hmap := splitLines_spacedBody body
    rw [hspaced, hlines] at hmap
    exact fun l hl => List.map_inj_left.1 (hmap.symm.trans (List.map_id _).symm) l hl
  have hmoved : ∀ (cut : Nat) l, l ∈ below →
      GrammarLayout.spaceActionLine (moveLine id (base ++ step) cut l)
        = moveLine id (base ++ step) cut l := by
    intro cut l hl
    have hl := hfixed l (List.mem_cons_of_mem first hl)
    cases hink : isSpaces l with
    | true => rwa [moveLine_of_isSpaces hink]
    | false =>
      rw [moveLine_of_ink hink, rebaseLine_of_ink hink]
      refine spaceActionLine_moved hl fun c hc => ?_
      rcases List.mem_append.1 hc with hc | hc
      · exact isBlank_of_mem_append hbase hstep c hc
      · exact List.mem_takeWhile_imp (List.mem_of_mem_drop hc)
  have hbelow : ∀ l ∈ alignBelow base step below, GrammarLayout.spaceActionLine l = l := by
    have htail := h.tail
    rw [hlines] at htail
    rcases List.eq_nil_or_concat below with rfl | ⟨content, last, rfl⟩
    · simp [alignBelow]
    · rw [List.concat_eq_append] at htail hmoved hfixed ⊢
      have hlast : IsEndLine last := htail last (by rw [← List.cons_append, List.getLast?_concat]; rfl)
      obtain ⟨cut, hlines⟩ := alignBelow_cases base step content last
      rw [hlines]
      intro l hl
      rcases List.mem_append.1 hl with hl | hl
      · obtain ⟨m, hm, rfl⟩ := List.mem_map.1 hl
        exact hmoved _ m (List.mem_append_left _ hm)
      · obtain rfl := List.mem_singleton.1 hl
        split_ifs
        · rw [← hlast.lineCore_eq]
          exact spaceActionLine_moved (hfixed last (by simp)) hbase
        · exact hmoved _ last (by simp)
  have hall : ∀ l ∈ first :: alignBelow base step below, GrammarLayout.spaceActionLine l = l := by
    intro l hl
    rcases List.mem_cons.1 hl with rfl | hl
    · exact hfixed l List.mem_cons_self
    · exact hbelow l hl
  rw [GrammarLayout.spacedBody, splitLines_alignedBody hbase hstep hlines,
    List.map_congr_left hall, List.map_id', alignedBody_eq base step hlines]

end IsBlockBody

/-! ## Lines that were moved as a group -/

theorem leadingBlanks_spaceActionLine (l : Text) :
    leadingBlanks (spaceActionLine l) = leadingBlanks l := by
  cases hframe : isFrameLine l with
  | true => rw [spaceActionLine_of_frame hframe]
  | false =>
    rw [spaceActionLine_of_code hframe]
    exact leadingBlanks_append (isBlank_of_mem_leadingBlanks l)
      (head?_spaceOperators_trimBlanksStart l)

theorem isSpaces_spaceActionLine (l : Text) : isSpaces (spaceActionLine l) = isSpaces l := by
  rw [Bool.eq_iff_iff, ← ink_eq_nil_iff, ← ink_eq_nil_iff, ink_spaceActionLine]

theorem lineCore_spaceActionLine {l : Text} (h : lineCore l = trimBlanksStart l) :
    lineCore (spaceActionLine l) = trimBlanksStart (spaceActionLine l) := by
  cases hframe : isFrameLine l with
  | true => rwa [spaceActionLine_of_frame hframe]
  | false =>
    rw [spaceActionLine_of_code hframe, lineCore, trimBlanksStart_append
      (isBlank_of_mem_leadingBlanks l) (head?_spaceOperators_trimBlanksStart l)]
    exact trimEndWhile_eq_self (getLast?_spaceOperators _)

theorem leastIndent_map_spaceActionLine (ls : List Text) :
    leastIndent (ls.map spaceActionLine) = leastIndent ls := by
  have hinked : inkedLines (ls.map spaceActionLine) = (inkedLines ls).map spaceActionLine := by
    rw [inkedLines, List.filter_map]
    congr 1
    exact List.filter_congr fun l _ => by simp [isSpaces_spaceActionLine]
  rw [leastIndent, hinked, List.map_map, leastIndent]
  congr 3
  funext l
  rw [Function.comp_apply, leadingBlanks_spaceActionLine]

/-- A line at its place stays there when its operators are spaced. -/
theorem rebaseLine_spaceActionLine {base : Text} (hbase : ∀ c ∈ base, isBlank c = true) {cut : Nat}
    {l : Text} (h : rebaseLine base cut l = l) :
    rebaseLine base cut (spaceActionLine l) = spaceActionLine l := by
  cases hink : isSpaces l with
  | true =>
    have hnil : l = [] := by rw [← h, rebaseLine, if_pos hink]
    rw [hnil]
    rfl
  | false =>
    obtain ⟨hlead, -⟩ := parts_rebaseLine hbase cut hink
    rw [h] at hlead
    have hcore : lineCore l = trimBlanksStart l := by
      have hline := rebaseLine_of_ink hink base cut
      rw [h, ← hlead] at hline
      exact List.append_cancel_left (hline.symm.trans (leadingBlanks_append_trimBlanksStart l).symm)
    have hink' : isSpaces (spaceActionLine l) = false := by rw [isSpaces_spaceActionLine, hink]
    rw [rebaseLine_of_ink hink', leadingBlanks_spaceActionLine, ← hlead,
      lineCore_spaceActionLine hcore, ← leadingBlanks_spaceActionLine,
      leadingBlanks_append_trimBlanksStart]

/-- The lines of code of a block that was written anew, with its code at `unit` twice. -/
structure IsContent (unit : Text) (content : List Text) : Prop where
  /-- Every line is one line. -/
  oneLine : ∀ l ∈ content, newline ∉ l
  /-- The first line is a line of code. -/
  starts : ∀ l ∈ content.head?, isSpaces l = false
  /-- The lines are where they belong. -/
  placed : ∀ l ∈ content, rebaseLine (unit ++ unit) (leastIndent content) l = l

/-- A block that was written anew. -/
def writtenBlock (unit : Text) (content : List Text) : Text :=
  openBrace :: newline :: (content.flatMap (· ++ [newline]) ++ (unit ++ [closeBrace]))

section Written

variable {unit : Text} (hunit : ∀ c ∈ unit, isBlank c = true) {content : List Text}
include hunit

theorem isBlank_of_mem_twice : ∀ c ∈ unit ++ unit, isBlank c = true :=
  isBlank_of_mem_append hunit hunit

/-- A block is written anew, unless it has something behind its closing brace. -/
theorem reflowBlock_shape (body : Text) :
    (∃ content, IsContent unit content ∧ reflowBlock unit body = writtenBlock unit content) ∨
      (∀ inner, body ≠ openBrace :: (inner ++ [closeBrace])) ∧ reflowBlock unit body = body := by
  have hunits := isBlank_of_mem_twice hunit
  refine (reflowBlock_cases unit body).imp_left fun ⟨inner, _, hreflow⟩ => ⟨_, ?_, hreflow⟩
  refine ⟨newline_notMem_rebase_blockContent hunits, rebase_blockContent_head hunits, fun l hl => ?_⟩
  have hagain := rebase_rebase hunits (blockContent inner)
  exact List.map_inj_left.1 (hagain.trans (List.map_id _).symm) l hl

omit hunit in
theorem splitLines_writtenBlock (hunit : newline ∉ unit) (h : ∀ l ∈ content, newline ∉ l) :
    splitLines (writtenBlock unit content) = [openBrace] :: (content ++ [unit ++ [closeBrace]]) := by
  have hlast : newline ∉ unit ++ [closeBrace] := by
    rw [List.mem_append, not_or]
    exact ⟨hunit, by decide⟩
  rw [writtenBlock, splitLines_cons (by decide) (splitLines_newline_cons _),
    splitLines_flatMap_newline h, splitLines_of_notMem hlast]

theorem writtenBlock_eq (h : IsContent unit content) : writtenBlock unit content
    = joinLines ([openBrace] :: (content ++ [unit ++ [closeBrace]])) := by
  rw [← splitLines_writtenBlock (newline_notMem_of_blanks hunit) h.oneLine, joinLines_splitLines]

/-- A block that was written anew is left as it is when it is written once more. -/
theorem reflowBlock_writtenBlock (h : IsContent unit content) :
    reflowBlock unit (writtenBlock unit content) = writtenBlock unit content := by
  have hbraces : writtenBlock unit content
      = openBrace :: ((newline :: (content.flatMap (· ++ [newline]) ++ unit)) ++ [closeBrace]) := by
    simp [writtenBlock]
  have hplaced : rebase (unit ++ unit) content = content :=
    (List.map_congr_left h.placed).trans (List.map_id' content)
  conv_lhs => rw [hbraces, reflowBlock_braces, blockContent_lines hunit h.oneLine h.starts, hplaced,
    ← writtenBlock]

theorem IsContent.spaced (h : IsContent unit content) :
    IsContent unit (content.map spaceActionLine) where
  oneLine l hl hmem := by
    obtain ⟨m, hm, rfl⟩ := List.mem_map.1 hl
    rcases mem_spaceActionLine hmem with hc | hc
    · exact absurd hc (by decide)
    · exact h.oneLine m hm hc
  starts l hl := by
    rw [List.head?_map, Option.mem_def, Option.map_eq_some_iff] at hl
    obtain ⟨m, hm, rfl⟩ := hl
    rw [isSpaces_spaceActionLine, h.starts m hm]
  placed l hl := by
    obtain ⟨m, hm, rfl⟩ := List.mem_map.1 hl
    rw [leastIndent_map_spaceActionLine]
    exact rebaseLine_spaceActionLine (isBlank_of_mem_twice hunit) (h.placed m hm)

/-- The operators of a block that was written anew are spaced line by line. -/
theorem spacedBody_writtenBlock (h : IsContent unit content) :
    spacedBody (writtenBlock unit content) = writtenBlock unit (content.map spaceActionLine) := by
  have hclose : spaceActionLine (unit ++ [closeBrace]) = unit ++ [closeBrace] := by
    refine spaceActionLine_of_frame ?_
    rw [isFrameLine, trim_blanks_append hunit]
    rfl
  rw [spacedBody, splitLines_writtenBlock (newline_notMem_of_blanks hunit) h.oneLine, List.map_cons,
    List.map_append, List.map_singleton, hclose, writtenBlock_eq hunit (h.spaced hunit)]
  rfl

/-- A block that was written anew is lined up. -/
theorem alignedBody_writtenBlock (h : IsContent unit content) :
    alignedBody unit unit (writtenBlock unit content) = writtenBlock unit content := by
  have hclose : trim (unit ++ [closeBrace]) = [closeBrace] := trim_blanks_append hunit _
  have hcontent : alignContent unit unit content = content := by
    refine (List.map_congr_left fun l hl => ?_).trans (List.map_id' content)
    have hplaced := h.placed l hl
    split_ifs with hink
    · rfl
    · exact hplaced
  rw [alignedBody_eq unit unit (splitLines_writtenBlock (newline_notMem_of_blanks hunit) h.oneLine),
    alignBelow_concat, hclose, if_pos (by decide), hcontent, writtenBlock_eq hunit h]

end Written

/-! ## All passes over one block -/

theorem getLast?_ink {s : Text} (h : EndsVisible s) : (ink s).getLast? = s.getLast? := by
  rcases List.eq_nil_or_concat (pieces s) with hnil | ⟨ps, r, hps⟩
  · rw [← ofPieces_pieces s, ink, hnil]
    rfl
  · rw [List.concat_eq_append] at hps
    have hr : r.isSpace = false := h r (by simp [hps])
    have hraw : r.raw ≠ [] := raw_ne_nil (s := s) (by simp [hps])
    conv_rhs => rw [← ofPieces_pieces s]
    rw [ink, hps, List.filter_append, ofPieces_append, ofPieces_append]
    have hkept : [r].filter (fun r => !r.isSpace) = [r] := by simp [hr]
    rw [hkept, List.getLast?_append_of_ne_nil _ (by simpa [ofPieces] using hraw),
      List.getLast?_append_of_ne_nil _ (by simpa [ofPieces] using hraw)]

namespace IsBlockBody

variable {body : Text} (h : IsBlockBody body)
include h

theorem reflowBlock {unit : Text} (hunit : ∀ c ∈ unit, isBlank c = true) :
    IsBlockBody (reflowBlock unit body) := by
  rcases reflowBlock_shape hunit body with ⟨content, hcontent, hreflow⟩ | ⟨-, hreflow⟩
  · rw [hreflow]
    refine ⟨rfl, ?_⟩
    have hclose : IsEndLine [closeBrace] := ⟨by decide, by decide⟩
    rw [splitLines_writtenBlock (newline_notMem_of_blanks hunit) hcontent.oneLine, ← List.cons_append,
      List.getLast?_concat]
    rintro l ⟨⟩
    exact hclose.behind hunit
  · rwa [hreflow]

/-- The last byte of a block is visible. -/
theorem getLast?_ink_eq : (ink body).getLast? = body.getLast? := by
  obtain ⟨ls, l, hlines⟩ := exists_splitLines_concat body
  have hend : IsEndLine l := h.tail l (by simp [hlines])
  have hne : trim l ≠ [] := by
    rw [Ne, trim_eq_nil_iff, hend.inked]
    decide
  have hl : l.getLast? = (ink l).getLast? := by
    conv_lhs => rw [← leadingBlanks_append_trimBlanksStart l, ← hend.trim_eq]
    rw [List.getLast?_append_of_ne_nil _ hne, ← ink_trim, getLast?_ink (endsVisible_trim l)]
  have hink : ink l ≠ [] := by
    rw [Ne, ink_eq_nil_iff, hend.inked]
    decide
  rw [← joinLines_splitLines body, hlines]
  by_cases hls : ls = []
  · rw [hls]
    exact hl.symm
  · rw [joinLines_concat hls, ink_append_newline, List.getLast?_append_of_ne_nil _ hink,
      List.getLast?_append_of_ne_nil _ (List.cons_ne_nil _ _), List.getLast?_cons_of_ne_nil hend.ne_nil, hl]

/-- A block with the same ink that ends with a brace shows that this one does. -/
theorem closed_of_ink {s inner : Text} (hink : ink s = ink body)
    (hs : s = openBrace :: (inner ++ [closeBrace])) :
    ∃ inner', body = openBrace :: (inner' ++ [closeBrace]) := by
  have hlast : body.getLast? = some closeBrace := by
    rw [← h.getLast?_ink_eq, ← hink, hs, ink_openBrace, ink_append_closeBrace, ← List.cons_append,
      List.getLast?_append_of_ne_nil _ (List.cons_ne_nil _ _)]
    rfl
  obtain ⟨t, ht⟩ := List.head?_eq_some_iff.1 h.opened
  rw [ht] at hlast ⊢
  rcases List.eq_nil_or_concat t with rfl | ⟨inner', c, rfl⟩
  · exact absurd hlast (by decide)
  · rw [List.concat_eq_append, ← List.cons_append, List.getLast?_concat] at hlast
    obtain rfl := Option.some.inj hlast
    exact ⟨inner', by simp⟩

end IsBlockBody

theorem ink_spacedBody (body : Text) : ink (spacedBody body) = ink body := by
  rw [spacedBody, ink_joinLines, List.flatMap_map, ← ink_splitLines]
  exact List.flatMap_congr fun l _ => ink_spaceActionLine l

theorem ink_alignedBody {base step : Text} (hbase : ∀ c ∈ base, isBlank c = true)
    (hstep : ∀ c ∈ step, isBlank c = true) (body : Text) :
    ink (alignedBody base step body) = ink body := by
  obtain ⟨first, below, hlines⟩ := List.exists_cons_of_ne_nil (splitLines_ne_nil body)
  rw [alignedBody_eq base step hlines, ink_joinLines, List.flatMap_cons,
    ink_alignBelow (isSpaces_of_blanks hbase) (isSpaces_of_blanks hstep), ← List.flatMap_cons,
    ← hlines, ink_splitLines]

/-- The layout in front of a brace that is placed as the style asks, in a rule indented by
`indent`. -/
def BraceStyle.placeLead (style : BraceStyle) (indent lead : Text) : Text :=
  match style.placement with
  | .sameLine =>
      if lead.contains newline then (if style.spaceBefore then [space] else []) else lead
  | .newLine => if lead.contains newline then lead else newline :: indent

namespace Style

variable (s : Style)

/-- The code of a block after the passes that space and align it, when its brace stands on a line
indented by `base`. -/
def layCode (base body : Text) : Text :=
  let spaced := if s.spacesOperators then spacedBody body else body
  if s.alignsActions then alignedBody base s.indent.unit spaced else spaced

/-- A block after all passes. -/
def layBlock (base body : Text) : Text :=
  s.layCode base (if s.indent.enabled then reflowBlock s.indent.unit body else body)

/-- The layout in front of a brace after all passes, in a rule indented by `indent`. -/
def layLead (indent lead : Text) : Text :=
  let led := if s.indent.enabled then newline :: s.indent.unit else lead
  if s.brace.enabled then s.brace.placeLead indent led else led

theorem layLead_layLead (indent lead : Text) :
    s.layLead indent (s.layLead indent lead) = s.layLead indent lead := by
  unfold layLead BraceStyle.placeLead
  cases s.indent.enabled with
  | true => rfl
  | false =>
    cases s.brace.enabled with
    | false => rfl
    | true =>
      cases s.brace.placement with
      | sameLine => cases s.brace.spaceBefore <;> cases h : lead.contains newline <;> simp_all
      | newLine => cases h : lead.contains newline <;> simp_all

variable {s} {base body : Text} (hbase : ∀ c ∈ base, isBlank c = true)

/-- Code in a block that was written anew is where it belongs. -/
theorem exists_layCode_writtenBlock {content : List Text} (h : IsContent s.indent.unit content) :
    ∃ content', IsContent s.indent.unit content' ∧
      s.layCode s.indent.unit (writtenBlock s.indent.unit content)
        = writtenBlock s.indent.unit content' := by
  have hunit := s.indent.isBlank_of_mem_unit
  unfold layCode
  split_ifs
  · refine ⟨_, h.spaced hunit, ?_⟩
    rw [spacedBody_writtenBlock hunit h, alignedBody_writtenBlock hunit (h.spaced hunit)]
  · exact ⟨_, h.spaced hunit, spacedBody_writtenBlock hunit h⟩
  · exact ⟨content, h, alignedBody_writtenBlock hunit h⟩
  · exact ⟨content, h, rfl⟩

include hbase

theorem ink_layCode : ink (s.layCode base body) = ink body := by
  unfold layCode
  split_ifs <;>
    simp only [ink_alignedBody hbase s.indent.isBlank_of_mem_unit, ink_spacedBody]

theorem isBlockBody_layCode (h : IsBlockBody body) : IsBlockBody (s.layCode base body) := by
  have hunit := s.indent.isBlank_of_mem_unit
  unfold layCode
  split_ifs
  exacts [h.spacedBody.alignedBody hbase hunit, h.spacedBody, h.alignedBody hbase hunit, h]

theorem isBlockBody_layBlock (h : IsBlockBody body) : IsBlockBody (s.layBlock base body) := by
  refine isBlockBody_layCode hbase ?_
  split_ifs
  exacts [h.reflowBlock s.indent.isBlank_of_mem_unit, h]

/-- Spacing and aligning code twice is doing it once. -/
theorem layCode_layCode (h : IsBlockBody body) :
    s.layCode base (s.layCode base body) = s.layCode base body := by
  have hunit := s.indent.isBlank_of_mem_unit
  have hspaced : spacedBody (spacedBody body) = spacedBody body := by
    have hagain := spacedBody_trimLayout_spacedBody body
    rwa [h.spacedBody.trimLayout] at hagain
  unfold layCode
  split_ifs
  · rw [h.spacedBody.spacedBody_alignedBody hbase hunit hspaced, alignedBody_alignedBody hbase hunit]
  · exact hspaced
  · exact alignedBody_alignedBody hbase hunit body
  · rfl

/-- What all passes have made of a block is not written anew once more. -/
theorem reflowBlock_layBlock (h : IsBlockBody body) (hindent : s.indent.enabled = true)
    (hplace : base = s.indent.unit) :
    reflowBlock s.indent.unit (s.layBlock base body) = s.layBlock base body := by
  have hunit := s.indent.isBlank_of_mem_unit
  rw [layBlock, if_pos hindent]
  rcases reflowBlock_shape hunit body with ⟨content, hcontent, hreflow⟩ | ⟨hopen, hreflow⟩
  · obtain ⟨content', hcontent', hlaid⟩ := exists_layCode_writtenBlock hcontent
    rw [hreflow, hplace, hlaid, reflowBlock_writtenBlock hunit hcontent']
  · rw [hreflow]
    rcases reflowBlock_cases s.indent.unit (s.layCode base body) with ⟨inner, hinner, -⟩ | ⟨-, hkept⟩
    · obtain ⟨inner', hinner'⟩ := h.closed_of_ink (ink_layCode hbase) hinner
      exact absurd hinner' (hopen inner')
    · exact hkept

/-- Running all passes over a block twice is running them once. -/
theorem layBlock_layBlock (h : IsBlockBody body)
    (hplace : s.indent.enabled = true → base = s.indent.unit) :
    s.layBlock base (s.layBlock base body) = s.layBlock base body := by
  have hflowed : (if s.indent.enabled then reflowBlock s.indent.unit (s.layBlock base body)
      else s.layBlock base body) = s.layBlock base body := by
    split_ifs with hindent
    exacts [reflowBlock_layBlock hbase h hindent (hplace hindent), rfl]
  have hbody : IsBlockBody (if s.indent.enabled then reflowBlock s.indent.unit body else body) := by
    split_ifs
    exacts [h.reflowBlock s.indent.isBlank_of_mem_unit, h]
  conv_lhs => rw [layBlock, hflowed]
  exact layCode_layCode hbase hbody

end Style

end GrammarLayout
