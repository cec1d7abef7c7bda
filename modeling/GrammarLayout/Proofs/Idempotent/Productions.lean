import GrammarLayout.Proofs.Idempotent.Alignment
import GrammarLayout.Proofs.Idempotent.Indent
import GrammarLayout.Proofs.Idempotent.Spacing

/-!
# Alternatives under several passes

An alternative has three parts: its indentation, the pipe with a gap behind it,
and its text.  Each pass over productions acts on these parts one by one, and so
do the passes run one after the other.

What is proved here:

* `IsBody` — the text of a production without its pipe, which every pass keeps;
* `unlifted_alternative`, `indentProduction_alternative`, `spacePipe_alternative`,
  `spaceBlocks_alternative`, `alignInline_alternative` — each pass on the parts;
* `alignInline_spaceBlocks` — a block with spaced operators stays where it is
  when it is joined to its production.
-/

namespace GrammarLayout

open Ascii Text

/-! ## The text of a production -/

/-- The text of a production without its pipe. -/
structure IsBody (b : Text) : Prop where
  /-- No white space stands at the ends. -/
  trimmed : trim b = b
  /-- There is no further pipe in front. -/
  unpiped : hasPipe b = false
  /-- In front of a block at the end stands no white space but blanks. -/
  stem : ∀ before inner, splitInline? b = some (before, inner) → trim before = before

theorem clear_of_splitInline? {p before inner : Text} (h : splitInline? p = some (before, inner)) :
    Clear before ∧ Closed inner ∧ trimBlanksEnd before = before := by
  obtain ⟨b, rest, hblock, -, rfl, rfl⟩ := splitInline?_eq h
  obtain ⟨-, hclear, hclosed⟩ := firstBlock?_eq_some_iff.1 hblock
  exact ⟨hclear.trimBlanksEnd, hclosed, trimBlanksEnd_trimBlanksEnd _⟩

/-- A text in front of a block holds no block. -/
theorem splitInline?_eq_none_of_clear {s : Text} (h : Clear s) : splitInline? s = none := by
  rw [splitInline?, firstBlock?, h.brace]
  rfl

/-- A block at the end of a production is found again where its operators were spaced. -/
theorem splitInline?_spaceBlocks (p : Text) : splitInline? (spaceBlocks p)
    = (splitInline? p).map fun parts => (parts.1, padded (blockCode parts.2)) := by
  cases hsplit : splitInline? p with
  | some parts =>
    obtain ⟨hclear, hclosed, hend⟩ := clear_of_splitInline? hsplit
    rw [spaceBlocks_of_splitInline? hsplit, splitInline?_joinInline hclear hclosed.blockCode, hend]
    rfl
  | none =>
    rw [spaceBlocks, hsplit]
    dsimp only
    cases hblock : firstBlock? p with
    | none => rw [mapBlocks_of_none spaceBlock hblock, hsplit]; rfl
    | some found =>
      obtain ⟨b, rest⟩ := found
      have hrest : isSpaces (mapBlocks spaceBlock rest) = isSpaces rest := by
        rw [Bool.eq_iff_iff, ← ink_eq_nil_iff, ← ink_eq_nil_iff, ink_mapBlocks ink_spaceBlock]
      rw [splitInline?_of_firstBlock? hblock] at hsplit
      rw [splitInline?_of_firstBlock? (firstBlock?_mapBlocks (fun _ => Closed.spaceBlock) hblock),
        hrest]
      split_ifs at hsplit ⊢
      rfl

namespace IsBody

variable {b : Text} (h : IsBody b)
include h

theorem bare_eq : bare b = b := by
  rw [bare_of_hasPipe_eq_false h.unpiped, h.trimmed]

theorem leadingBlanks_eq : leadingBlanks b = [] :=
  leadingBlanks_append (w := []) (by simp) (trim_eq_self_iff.1 h.trimmed).1.head?

/-- The block at the end is joined to the text before it. -/
theorem alignInline_eq {before inner : Text} (hsplit : splitInline? b = some (before, inner)) :
    alignInline b = joinInline before (trim inner) := by
  rw [alignInline_of_splitInline? hsplit, h.leadingBlanks_eq, h.stem before inner hsplit]
  rfl

theorem splitInline?_alignInline : splitInline? (alignInline b)
    = (splitInline? b).map fun parts => (parts.1, padded (trim parts.2)) := by
  cases hsplit : splitInline? b with
  | none => rw [alignInline_of_none hsplit, hsplit]; rfl
  | some parts =>
    obtain ⟨hclear, hclosed, hend⟩ := clear_of_splitInline? hsplit
    rw [h.alignInline_eq hsplit,
      splitInline?_joinInline hclear (hclosed.congr (filter_isBrace_trim _)), hend]
    rfl

/-- The text in front of a block at the end is the text of a production. -/
theorem of_splitInline? {before inner : Text} (hsplit : splitInline? b = some (before, inner)) :
    IsBody before where
  trimmed := h.stem before inner hsplit
  unpiped := by
    have hink := ink_of_splitInline? hsplit
    rw [Bool.eq_false_iff, Ne, Rule.hasPipe_iff]
    intro hhead
    have hpipe : hasPipe b = true := by
      rw [Rule.hasPipe_iff, hink, List.head?_append, hhead]
      rfl
    rw [h.unpiped] at hpipe
    exact absurd hpipe (by decide)
  stem := by
    rw [splitInline?_eq_none_of_clear (clear_of_splitInline? hsplit).1]
    intro _ _ hnone
    exact absurd hnone (by simp)

/-- A block is taken out of a production that holds more than the block. -/
theorem liftable?_eq :
    liftable? b = (splitInline? b).filter fun parts => !parts.1.isEmpty := by
  rw [liftable?]
  cases hsplit : splitInline? b with
  | none => rfl
  | some parts =>
    have hbefore := h.of_splitInline? hsplit
    have hdrop : dropStart [pipe] (trim parts.1) = parts.1 := by
      rw [hbefore.trimmed, dropStart, if_neg]
      have := hbefore.unpiped
      rw [hasPipe, hbefore.trimmed] at this
      rw [this]
      decide
    have hspaces : isSpaces parts.1 = parts.1.isEmpty := by
      rw [Bool.eq_iff_iff, List.isEmpty_iff, ← trim_eq_nil_iff, hbefore.trimmed]
    rw [Option.filter_some, Option.filter_some, hdrop, hspaces]

theorem unlifted : IsBody (unlifted b) := by
  cases hlift : liftable? b with
  | none => rwa [unlifted_eq_self hlift]
  | some parts =>
    rw [GrammarLayout.unlifted, hlift]
    exact h.of_splitInline? (splitInline?_of_liftable? hlift)

/-- Something is left of a production when its block is taken out. -/
theorem eq_nil_of_unlifted (hnil : GrammarLayout.unlifted b = []) : b = [] := by
  cases hlift : liftable? b with
  | none => rwa [unlifted_eq_self hlift] at hnil
  | some parts =>
    have hkept := h.liftable?_eq
    rw [GrammarLayout.unlifted, hlift] at hnil
    rw [hlift, eq_comm, Option.filter_eq_some_iff] at hkept
    have hparts : parts.1 = [] := hnil
    rw [hparts] at hkept
    exact absurd hkept.2 (by simp)

theorem spaceBlocks : IsBody (spaceBlocks b) where
  trimmed := by
    cases hsplit : splitInline? b with
    | none =>
      rw [GrammarLayout.spaceBlocks, hsplit]
      exact trim_mapBlocks spaceBlock h.trimmed
    | some parts =>
      rw [spaceBlocks_of_splitInline? hsplit]
      exact trim_joinInline (trim_eq_self_iff.1 (h.of_splitInline? hsplit).trimmed).1 _
  unpiped := by rw [hasPipe_spaceBlocks, h.unpiped]
  stem := by
    rw [splitInline?_spaceBlocks]
    intro before inner hsplit
    obtain ⟨parts, hparts, hbefore⟩ := Option.map_eq_some_iff.1 hsplit
    obtain ⟨rfl, -⟩ := Prod.mk.inj hbefore
    exact h.stem _ _ hparts

theorem alignInline : IsBody (alignInline b) where
  trimmed := by
    cases hsplit : splitInline? b with
    | none => rw [alignInline_of_none hsplit, h.trimmed]
    | some parts =>
      rw [h.alignInline_eq hsplit]
      exact trim_joinInline (trim_eq_self_iff.1 (h.of_splitInline? hsplit).trimmed).1 _
  unpiped := by rw [hasPipe_alignInline, h.unpiped]
  stem := by
    rw [h.splitInline?_alignInline]
    intro before inner hsplit
    obtain ⟨parts, hparts, hbefore⟩ := Option.map_eq_some_iff.1 hsplit
    obtain ⟨rfl, -⟩ := Prod.mk.inj hbefore
    exact h.stem _ _ hparts

/-- A block with spaced operators is joined to its production already. -/
theorem alignInline_spaceBlocks : GrammarLayout.alignInline (GrammarLayout.spaceBlocks b)
    = GrammarLayout.spaceBlocks b := by
  have hagain := splitInline?_spaceBlocks b
  cases hsplit : splitInline? b with
  | none =>
    rw [hsplit] at hagain
    exact alignInline_of_none hagain
  | some parts =>
    rw [hsplit] at hagain
    rw [h.spaceBlocks.alignInline_eq hagain, trim_padded, trim_blockCode,
      spaceBlocks_of_splitInline? hsplit]

end IsBody

/-! ## The parts of an alternative -/

/-- An alternative: its indentation, the pipe, a gap and its text. -/
def alternative (indent gap b : Text) : Text := indent ++ pipe :: (gap ++ b)

/-- Is the text nothing but a block? -/
def isLoneBlock (b : Text) : Bool := (splitInline? b).any fun parts => parts.1.isEmpty

section Alternative

variable {w v b : Text} (hw : ∀ c ∈ w, isBlank c = true) (hv : ∀ c ∈ v, isBlank c = true)
include hw

theorem clear_blanks_pipe (hv : ∀ c ∈ v, isBlank c = true) : Clear (w ++ pipe :: v) := by
  refine (Clear.append_iff (.of_isSpaces (isSpaces_of_blanks hw))).2 (.of_neutral fun c hc => ?_)
  rcases List.mem_cons.1 hc with rfl | hc
  · decide
  · exact isNeutral_of_isSpaces (isSpaces_of_blanks hv) c hc

theorem leadingBlanks_alternative (v b : Text) : leadingBlanks (alternative w v b) = w :=
  leadingBlanks_append hw (by rintro c ⟨⟩; rfl)

theorem hasPipe_alternative (v b : Text) : hasPipe (alternative w v b) = true := by
  rw [Rule.hasPipe_iff, alternative, ink_isSpaces_append (isSpaces_of_blanks hw), ink_pipe]
  rfl

include hv

theorem bare_alternative (hb : IsBody b) : bare (alternative w v b) = b := by
  rw [alternative, bare_blanks_pipe hw, trim_blanks_append hv, hb.trimmed]

/-- The block at the end of an alternative is that of its text. -/
theorem splitInline?_alternative (b : Text) : splitInline? (alternative w v b)
    = (splitInline? b).map fun parts =>
        (if parts.1.isEmpty then w ++ [pipe] else alternative w v parts.1, parts.2) := by
  have hparts : alternative w v b = w ++ pipe :: v ++ b := by simp [alternative]
  simp only [splitInline?, hparts, firstBlock?_clear_append (clear_blanks_pipe hw hv)]
  cases firstBlock? b with
  | none => rfl
  | some found =>
    cases hrest : isSpaces found.2 with
    | false => simp [hrest]
    | true =>
      have hbefore : trimBlanksEnd (w ++ pipe :: v ++ found.1.before)
          = if (trimBlanksEnd found.1.before).isEmpty then w ++ [pipe]
            else alternative w v (trimBlanksEnd found.1.before) := by
        split_ifs with hempty
        · have hblanks := trimEndWhile_eq_nil_iff.1 (List.isEmpty_iff.1 hempty)
          rw [List.append_assoc, List.cons_append, trimBlanksEnd, trimEndWhile_append_cons (by decide),
            trimEndWhile_append_of_forall hblanks, trimEndWhile_eq_nil_iff.2 hv]
        · have hne : trimEndWhile isBlank found.1.before ≠ [] := fun hnil =>
            hempty (List.isEmpty_iff.2 hnil)
          rw [trimBlanksEnd, trimEndWhile_append_of_ne_nil hne]
          simp [alternative, trimBlanksEnd]
      simp only [Option.bind_eq_bind, Option.bind_some, Option.map_some, hrest, if_true, hbefore]

/-- A block is taken out of an alternative as it is out of its text. -/
theorem unlifted_alternative (hb : IsBody b) :
    unlifted (alternative w v b) = alternative w v (unlifted b) := by
  have hnone : liftable? (alternative w v b) = none ↔ liftable? b = none := by
    rw [liftable?_eq_none_iff, liftable?_eq_none_iff, bare_alternative hw hv hb, hb.bare_eq]
  cases hlift : liftable? b with
  | none => rw [unlifted_eq_self hlift, unlifted_eq_self (hnone.2 hlift)]
  | some parts =>
    obtain ⟨parts', hlift'⟩ : ∃ parts', liftable? (alternative w v b) = some parts' :=
      Option.ne_none_iff_exists'.1 fun h => by rw [hnone.1 h] at hlift; exact absurd hlift (by simp)
    have hkept : parts.1.isEmpty = false := by
      rw [hb.liftable?_eq, Option.filter_eq_some_iff] at hlift
      simpa using hlift.2
    have hsplit := splitInline?_alternative hw hv b
    rw [splitInline?_of_liftable? hlift, splitInline?_of_liftable? hlift', Option.map_some, hkept,
      Option.some.injEq] at hsplit
    rw [unlifted, hlift', unlifted, hlift, hsplit]
    rfl

/-- The gap behind the pipe of an alternative with the text `b`. -/
def pipeGap (around : Bool) (b : Text) : Text := if around && !b.isEmpty then [space] else []

theorem spacePipe_alternative (around : Bool) (hb : IsBody b) :
    spacePipe around (alternative w v b) = alternative w (pipeGap around b) b := by
  rw [alternative, spacePipe_append hw around hv hb.trimmed, alternative, pipeGap, pipeSign]
  cases hempty : b.isEmpty with
  | true => cases around <;> simp [List.isEmpty_iff.1 hempty]
  | false => cases around <;> simp

theorem indentProduction_alternative {unit : Text} (i : Nat) (hb : IsBody b) :
    indentProduction unit (i + 1) (alternative w v b) = alternative unit (pipeGap true b) b := by
  rw [indentProduction_eq, bare_alternative hw hv hb, if_neg (by simp), alternative, pipeGap]
  cases hempty : b.isEmpty with
  | true => simp [List.isEmpty_iff.1 hempty]
  | false => simp [show bytes "| " = [pipe, space] from rfl]

/-- An alternative is visible from its pipe to its text. -/
theorem trim_alternative {x : Text} (hx : trim x = x) (hgap : x = [] → v = []) :
    trim (alternative w v x) = pipe :: (v ++ x) := by
  have hend : EndsVisible (v ++ x) := by
    by_cases hnil : x = []
    · rw [hgap hnil, hnil]
      exact endsVisible_nil
    · intro r hr
      have hpieces : pieces x ≠ [] := fun h => hnil (by rw [← ofPieces_pieces x, h]; rfl)
      rw [pieces_blanks_append hv, List.getLast?_append_of_ne_nil _ hpieces] at hr
      exact (trim_eq_self_iff.1 hx).2 r hr
  rw [alternative, trim_blanks_append hw]
  refine trim_eq_self_iff.2 ⟨?_, ?_⟩
  · exact (startsVisible_append_cons (a := []) (by decide) (by decide)).2 startsVisible_nil
  · exact (endsVisible_append_cons (a := []) (by decide) (by decide)).2 hend

/-- The operators in the blocks of an alternative are spaced as in its text. -/
theorem spaceBlocks_alternative (b : Text) : spaceBlocks (alternative w v b)
    = alternative w (if isLoneBlock b then [space] else v) (spaceBlocks b) := by
  have hsplit := splitInline?_alternative hw hv b
  cases hb : splitInline? b with
  | none =>
    have hparts : alternative w v b = w ++ pipe :: v ++ b := by simp [alternative]
    rw [hb] at hsplit
    rw [spaceBlocks, hsplit, spaceBlocks, hb, isLoneBlock, hb]
    dsimp only
    rw [hparts, mapBlocks_clear_append spaceBlock (clear_blanks_pipe hw hv)]
    simp [alternative]
  | some parts =>
    obtain ⟨before, inner⟩ := parts
    rw [hb, Option.map_some] at hsplit
    rw [spaceBlocks_of_splitInline? hsplit, spaceBlocks_of_splitInline? hb, isLoneBlock, hb]
    cases hempty : before.isEmpty with
    | true => simp [alternative, joinInline_eq, hempty]
    | false => simp [alternative, joinInline_eq, hempty]

/-- The block at the end of an alternative is joined to it as to its text. -/
theorem alignInline_alternative (hb : IsBody b) : alignInline (alternative w v b)
    = alternative w (if isLoneBlock b then [space] else v) (alignInline b) := by
  have hsplit := splitInline?_alternative hw hv b
  cases hparts : splitInline? b with
  | none =>
    rw [hparts] at hsplit
    rw [alignInline_of_none hsplit, alignInline_of_none hparts, isLoneBlock, hparts]
    rfl
  | some parts =>
    obtain ⟨before, inner⟩ := parts
    rw [hparts, Option.map_some] at hsplit
    rw [alignInline_of_splitInline? hsplit, leadingBlanks_alternative hw, hb.alignInline_eq hparts,
      isLoneBlock, hparts]
    cases hempty : before.isEmpty with
    | true =>
      have htrim : trim (w ++ [pipe]) = [pipe] :=
        trim_alternative (v := []) hw (by simp) (x := []) rfl fun _ => rfl
      simp [alternative, joinInline_eq, hempty, htrim]
    | false =>
      have htrim := trim_alternative hw hv (hb.of_splitInline? hparts).trimmed
        fun hnil => by simp [hnil] at hempty
      simp [hempty, htrim, joinInline_eq]
      simp [alternative]

end Alternative

/-! ## All passes over one text -/

section Bodies

variable {b : Text}

theorem isLoneBlock_spaceBlocks (b : Text) : isLoneBlock (spaceBlocks b) = isLoneBlock b := by
  rw [isLoneBlock, splitInline?_spaceBlocks, Option.any_map]
  rfl

theorem IsBody.isLoneBlock_alignInline (hb : IsBody b) :
    isLoneBlock (GrammarLayout.alignInline b) = isLoneBlock b := by
  rw [isLoneBlock, hb.splitInline?_alignInline, Option.any_map]
  rfl

/-- A text that keeps its block keeps it with spaced operators. -/
theorem IsBody.liftable?_spaceBlocks (hb : IsBody b) :
    liftable? (GrammarLayout.spaceBlocks b) = none ↔ liftable? b = none := by
  rw [hb.spaceBlocks.liftable?_eq, hb.liftable?_eq, splitInline?_spaceBlocks]
  cases splitInline? b <;> simp

theorem IsBody.liftable?_alignInline (hb : IsBody b) :
    liftable? (GrammarLayout.alignInline b) = none ↔ liftable? b = none := by
  rw [hb.alignInline.liftable?_eq, hb.liftable?_eq, hb.splitInline?_alignInline]
  cases splitInline? b <;> simp

theorem IsBody.isEmpty_congr {c : Text} (hb : IsBody b) (hc : IsBody c) (hink : ink c = ink b) :
    c.isEmpty = b.isEmpty := by
  rw [Bool.eq_iff_iff, List.isEmpty_iff, List.isEmpty_iff, ← hb.trimmed, ← hc.trimmed,
    trim_eq_nil_iff, trim_eq_nil_iff, ← ink_eq_nil_iff, ← ink_eq_nil_iff, hink]

end Bodies

namespace Style

variable (s : Style)

/-- Are operators in blocks spaced? -/
def spacesOperators : Bool := s.spacing.enabled && s.spacing.aroundEquals

/-- Are the pipes of a rule lined up? -/
def alignsPipes : Bool := s.alignment.enabled && s.alignment.alignRules

/-- Are blocks lined up? -/
def alignsActions : Bool := s.alignment.enabled && s.alignment.alignActions

/-- The text of a production after all passes. -/
def layBody (b : Text) : Text :=
  let kept := if s.indent.enabled then unlifted b else b
  let spaced := if s.spacesOperators then spaceBlocks kept else kept
  if s.alignsActions then alignInline spaced else spaced

/-- The gap behind the pipe of an alternative after all passes; its text is `b` by then. -/
def layGap (v b : Text) : Text :=
  if isLoneBlock b && (s.spacesOperators || s.alignsActions) then [space]
  else if s.spacing.enabled then pipeGap s.spacing.aroundPipe b
  else if s.indent.enabled then pipeGap true b
  else v

/-- Production `i` after all passes, in a rule whose productions stand behind `indent`; `piped`
says that the first one has a pipe. -/
def layProduction (indent : Text) (piped : Bool) (i : Nat) (p : Text) : Text :=
  let indented := if s.indent.enabled then indentProduction s.indent.unit i (unlifted p) else p
  let spaced := if s.spacing.enabled then spaceProduction s.spacing i indented else indented
  let lined := if s.alignsPipes && !piped && 0 < i && hasPipe spaced then indent ++ trim spaced
    else spaced
  if s.alignsActions then alignInline lined else lined

variable {s} {b : Text}

/-- The text of a production without the block that the style takes out of it. -/
def keptBody (s : Style) (b : Text) : Text := if s.indent.enabled then unlifted b else b

theorem keptBody_isBody (hb : IsBody b) : IsBody (s.keptBody b) := by
  unfold keptBody
  split
  exacts [hb.unlifted, hb]

theorem layBody_eq (s : Style) (b : Text) : s.layBody b
    = if s.alignsActions then
        alignInline (if s.spacesOperators then spaceBlocks (s.keptBody b) else s.keptBody b)
      else if s.spacesOperators then spaceBlocks (s.keptBody b) else s.keptBody b := rfl

theorem layBody_isBody (hb : IsBody b) : IsBody (s.layBody b) := by
  have hkept := keptBody_isBody (s := s) hb
  rw [layBody_eq]
  split_ifs
  exacts [hkept.spaceBlocks.alignInline, hkept.alignInline, hkept.spaceBlocks, hkept]

/-- What all passes have made of a text is left as it is by each of them. -/
theorem layBody_fixed (hb : IsBody b) :
    (s.indent.enabled = true → liftable? (s.layBody b) = none) ∧
      (s.spacesOperators = true → spaceBlocks (s.layBody b) = s.layBody b) ∧
      (s.alignsActions = true → alignInline (s.layBody b) = s.layBody b) := by
  have hkept := keptBody_isBody (s := s) hb
  have hlift : s.indent.enabled = true → liftable? (s.keptBody b) = none := by
    intro henabled
    rw [keptBody, if_pos henabled]
    exact liftable?_unlifted b
  rw [layBody_eq]
  generalize s.keptBody b = x at hkept hlift
  cases s.spacesOperators with
  | true =>
    have hlift' : s.indent.enabled = true → liftable? (spaceBlocks x) = none := fun henabled =>
      hkept.liftable?_spaceBlocks.2 (hlift henabled)
    simpa [hkept.alignInline_spaceBlocks, spaceBlocks_spaceBlocks] using hlift'
  | false =>
    cases s.alignsActions with
    | true =>
      have hlift' : s.indent.enabled = true → liftable? (alignInline x) = none := fun henabled =>
        hkept.liftable?_alignInline.2 (hlift henabled)
      simpa [alignInline_alignInline] using hlift'
    | false => simpa using hlift

/-- Running all passes over a text twice is running them once. -/
theorem layBody_layBody (hb : IsBody b) : s.layBody (s.layBody b) = s.layBody b := by
  obtain ⟨hlift, hspaced, haligned⟩ := layBody_fixed (s := s) hb
  have hkept : s.keptBody (s.layBody b) = s.layBody b := by
    unfold keptBody
    split
    · exact unlifted_eq_self (hlift ‹_›)
    · rfl
  rw [layBody_eq s (s.layBody b), hkept]
  split_ifs with halign hspace hspace
  · rw [hspaced hspace, haligned halign]
  · exact haligned halign
  · exact hspaced hspace
  · rfl

theorem isLoneBlock_layBody (hb : IsBody b) :
    isLoneBlock (s.layBody b) = isLoneBlock (s.keptBody b) := by
  have hkept := keptBody_isBody (s := s) hb
  rw [layBody_eq]
  split_ifs
  · rw [hkept.spaceBlocks.isLoneBlock_alignInline, isLoneBlock_spaceBlocks]
  · exact hkept.isLoneBlock_alignInline
  · exact isLoneBlock_spaceBlocks _
  · rfl

theorem ink_layBody (s : Style) (b : Text) : ink (s.layBody b) = ink (s.keptBody b) := by
  rw [layBody_eq]
  split_ifs <;> simp [ink_alignInline, ink_spaceBlocks]

theorem pipeGap_layBody (around : Bool) (hb : IsBody b) :
    pipeGap around (s.layBody b) = pipeGap around (s.keptBody b) := by
  rw [pipeGap, pipeGap,
    (keptBody_isBody hb).isEmpty_congr (layBody_isBody hb) (ink_layBody s b)]

theorem layGap_layGap (s : Style) (v b : Text) : s.layGap (s.layGap v b) b = s.layGap v b := by
  unfold layGap
  split_ifs <;> rfl

theorem isBlank_of_mem_pipeGap (around : Bool) (b : Text) : ∀ c ∈ pipeGap around b, isBlank c = true := by
  unfold pipeGap
  split <;> simp [isBlank]

theorem isBlank_of_mem_layGap {v : Text} (hv : ∀ c ∈ v, isBlank c = true) (b : Text) :
    ∀ c ∈ s.layGap v b, isBlank c = true := by
  unfold layGap
  split_ifs
  · simp [isBlank]
  · exact isBlank_of_mem_pipeGap _ b
  · exact isBlank_of_mem_pipeGap _ b
  · exact hv

theorem keptBody_eq_nil (hb : IsBody b) (hnil : s.keptBody b = []) : b = [] := by
  unfold keptBody at hnil
  split_ifs at hnil
  exacts [hb.eq_nil_of_unlifted hnil, hnil]

/-- No gap is left behind the pipe of an alternative without text. -/
theorem gap_layBody_eq_nil {v : Text} (hb : IsBody b) (hgap : b = [] → v = [])
    (hnil : s.layBody b = []) : s.layGap v (s.layBody b) = [] ∧
      (if isLoneBlock (s.layBody b) && (s.spacesOperators || s.alignsActions) then [space] else v)
        = [] := by
  have hkept := (keptBody_isBody hb).isEmpty_congr (layBody_isBody hb) (ink_layBody s b)
  rw [hnil] at hkept
  have hv := hgap (keptBody_eq_nil hb (List.isEmpty_iff.1 hkept.symm))
  have hlone : isLoneBlock [] = false := by
    simp [isLoneBlock, splitInline?_eq_none_of_clear Clear.nil]
  rw [hnil, layGap, hlone, hv]
  simp [pipeGap]

section Alternatives

variable {w v : Text} (hw : ∀ c ∈ w, isBlank c = true) (hv : ∀ c ∈ v, isBlank c = true)
include hw hv

theorem spaceProduction_alternative (style : SpacingStyle) (i : Nat) (hb : IsBody b) :
    spaceProduction style (i + 1) (alternative w v b)
      = alternative w
          (if isLoneBlock b && style.aroundEquals then [space] else pipeGap style.aroundPipe b)
          (if style.aroundEquals then spaceBlocks b else b) := by
  have hpiped : (decide (0 < i + 1) && hasPipe (alternative w v b)) = true := by
    simp [hasPipe_alternative hw]
  rw [spaceProduction, hpiped, if_pos rfl, spacePipe_alternative hw hv _ hb,
    spaceBlocks_alternative hw (isBlank_of_mem_pipeGap _ b)]
  cases style.aroundEquals <;> simp

theorem keptBody_alternative (i : Nat) (hb : IsBody b) :
    (if s.indent.enabled then
        indentProduction s.indent.unit (i + 1) (unlifted (alternative w v b)) else alternative w v b)
      = alternative (if s.indent.enabled then s.indent.unit else w)
          (if s.indent.enabled then pipeGap true (s.keptBody b) else v) (s.keptBody b) := by
  unfold keptBody
  split_ifs
  · rw [unlifted_alternative hw hv hb, indentProduction_alternative hw hv i hb.unlifted]
  · rfl

theorem spacedBody_alternative (i : Nat) (hb : IsBody b) :
    (if s.spacing.enabled then spaceProduction s.spacing (i + 1) (alternative w v b)
        else alternative w v b)
      = alternative w
          (if isLoneBlock b && s.spacesOperators then [space]
            else if s.spacing.enabled then pipeGap s.spacing.aroundPipe b else v)
          (if s.spacesOperators then spaceBlocks b else b) := by
  rw [spaceProduction_alternative hw hv _ i hb]
  unfold spacesOperators
  cases s.spacing.enabled <;> simp

theorem lined_alternative {indent : Text} (piped : Bool) (i : Nat) (hb : IsBody b)
    (hgap : b = [] → v = []) :
    (if s.alignsPipes && !piped && decide (0 < i + 1) && hasPipe (alternative w v b)
        then indent ++ trim (alternative w v b) else alternative w v b)
      = alternative (if s.alignsPipes && !piped then indent else w) v b := by
  rw [hasPipe_alternative hw, trim_alternative hw hv hb.trimmed hgap]
  cases s.alignsPipes && !piped <;> simp [alternative]

/-- All passes over an alternative, part by part. -/
theorem layProduction_alternative {indent : Text} (hindent : ∀ c ∈ indent, isBlank c = true)
    (piped : Bool) (i : Nat) (hb : IsBody b) (hgap : b = [] → v = []) :
    s.layProduction indent piped (i + 1) (alternative w v b)
      = alternative
          (if s.alignsPipes && !piped then indent else if s.indent.enabled then s.indent.unit else w)
          (s.layGap v (s.layBody b)) (s.layBody b) := by
  have hkept := keptBody_isBody (s := s) hb
  have hlone := isLoneBlock_layBody (s := s) hb
  have hpipe := fun around => pipeGap_layBody (s := s) around hb
  have hnil : s.keptBody b = [] → (if s.indent.enabled then pipeGap true (s.keptBody b) else v) = [] := by
    intro hnil
    rw [hnil]
    split_ifs with henabled
    · rfl
    · exact hgap (keptBody_eq_nil hb hnil)
  have hblank : ∀ c ∈ (if s.indent.enabled then s.indent.unit else w), isBlank c = true := by
    split_ifs
    exacts [s.indent.isBlank_of_mem_unit, hw]
  have hgaps : ∀ c ∈ (if s.indent.enabled then pipeGap true (s.keptBody b) else v),
      isBlank c = true := by
    split_ifs
    exacts [isBlank_of_mem_pipeGap true _, hv]
  rw [layProduction, keptBody_alternative hw hv i hb]
  rw [layBody_eq] at hlone hpipe ⊢
  unfold layGap
  rw [hlone, hpipe, hpipe]
  generalize s.keptBody b = x at *
  generalize (if s.indent.enabled then s.indent.unit else w) = w₁ at *
  generalize (if s.indent.enabled then pipeGap true x else v) = v₁ at *
  have hspaced : IsBody (if s.spacesOperators then spaceBlocks x else x) := by
    split_ifs
    exacts [hkept.spaceBlocks, hkept]
  have hlone' : isLoneBlock (if s.spacesOperators then spaceBlocks x else x) = isLoneBlock x := by
    split_ifs
    exacts [isLoneBlock_spaceBlocks x, rfl]
  set v₂ := if isLoneBlock x && s.spacesOperators then [space]
    else if s.spacing.enabled then pipeGap s.spacing.aroundPipe x else v₁ with hv₂
  have hgaps₂ : ∀ c ∈ v₂, isBlank c = true := by
    rw [hv₂]
    split_ifs
    exacts [by simp [isBlank], isBlank_of_mem_pipeGap _ x, hgaps]
  have hnil₂ : (if s.spacesOperators then spaceBlocks x else x) = [] → v₂ = [] := by
    intro hempty
    have hx : x = [] := by
      have := hkept.isEmpty_congr hspaced (by split_ifs <;> simp [ink_spaceBlocks])
      rw [hempty] at this
      exact List.isEmpty_iff.1 this.symm
    rw [hv₂, hnil hx, hx]
    simp [isLoneBlock, splitInline?_eq_none_of_clear Clear.nil, pipeGap]
  rw [spacedBody_alternative hblank hgaps i hkept, ← hv₂,
    lined_alternative hblank hgaps₂ piped i hspaced hnil₂]
  have hblank₂ : ∀ c ∈ (if s.alignsPipes && !piped then indent else w₁), isBlank c = true := by
    split_ifs
    exacts [hindent, hblank]
  rw [alignInline_alternative hblank₂ hgaps₂ hspaced, hlone', hv₂]
  cases isLoneBlock x <;> cases s.spacesOperators <;> cases s.alignsActions <;> simp

/-- All passes over a first production with a pipe: the pipe and its gap are left alone. -/
theorem layProduction_zero_alternative (indent : Text) (piped : Bool) (hb : IsBody b)
    (hgap : b = [] → v = []) :
    s.layProduction indent piped 0 (alternative w v b)
      = alternative (if s.indent.enabled then [] else w)
          (if isLoneBlock (s.layBody b) && (s.spacesOperators || s.alignsActions) then [space] else v)
          (s.layBody b) := by
  have hkept := keptBody_isBody (s := s) hb
  have hlone := isLoneBlock_layBody (s := s) hb
  have hindented : (if s.indent.enabled then
        indentProduction s.indent.unit 0 (unlifted (alternative w v b)) else alternative w v b)
      = alternative (if s.indent.enabled then [] else w) v (s.keptBody b) := by
    unfold keptBody
    split_ifs
    · rw [unlifted_alternative hw hv hb, indentProduction_eq, if_pos rfl,
        trim_alternative hw hv hb.unlifted.trimmed fun hnil => hgap (hb.eq_nil_of_unlifted hnil)]
      rfl
    · rfl
  have hblank : ∀ c ∈ (if s.indent.enabled then [] else w), isBlank c = true := by
    split_ifs
    exacts [by simp, hw]
  rw [layProduction, hindented]
  rw [layBody_eq] at hlone ⊢
  rw [hlone]
  generalize s.keptBody b = x at *
  generalize (if s.indent.enabled then [] else w) = w₁ at *
  have hspaced : (if s.spacing.enabled then spaceProduction s.spacing 0 (alternative w₁ v x)
        else alternative w₁ v x)
      = alternative w₁ (if isLoneBlock x && s.spacesOperators then [space] else v)
          (if s.spacesOperators then spaceBlocks x else x) := by
    unfold spaceProduction spacesOperators
    cases s.spacing.enabled <;> cases s.spacing.aroundEquals <;>
      simp [spaceBlocks_alternative hblank hv]
  have hfirst : ∀ p, (s.alignsPipes && !piped && decide (0 < 0) && hasPipe p) = false := by simp
  rw [hspaced, hfirst, if_neg Bool.false_ne_true]
  cases s.spacesOperators with
  | true =>
    have hgap₁ : ∀ c ∈ (if isLoneBlock x then [space] else v), isBlank c = true := by
      split_ifs
      exacts [by simp [isBlank], hv]
    have halign := alignInline_alternative hblank hgap₁ hkept.spaceBlocks
    rw [isLoneBlock_spaceBlocks] at halign
    simp only [Bool.and_true, Bool.true_or, if_true, halign]
    cases s.alignsActions <;> cases isLoneBlock x <;> rfl
  | false =>
    have halign := alignInline_alternative hblank hv hkept
    simp only [Bool.and_false, Bool.false_or, if_false, Bool.false_eq_true, halign]
    cases s.alignsActions <;> cases isLoneBlock x <;> rfl

end Alternatives

/-- The first production without a pipe is its text. -/
theorem layProduction_zero_body (indent : Text) (piped : Bool) (hb : IsBody b) :
    s.layProduction indent piped 0 b = s.layBody b := by
  have hindented : (if s.indent.enabled then indentProduction s.indent.unit 0 (unlifted b) else b)
      = s.keptBody b := by
    unfold keptBody
    split_ifs
    · rw [indentProduction_eq, if_pos rfl, hb.unlifted.trimmed]
    · rfl
  have hspaced : ∀ x, (if s.spacing.enabled then spaceProduction s.spacing 0 x else x)
      = if s.spacesOperators then spaceBlocks x else x := by
    intro x
    unfold spaceProduction spacesOperators
    cases s.spacing.enabled <;> simp
  have hfirst : ∀ p, (s.alignsPipes && !piped && decide (0 < 0) && hasPipe p) = false := by simp
  rw [layProduction, hindented, hspaced, hfirst, if_neg Bool.false_ne_true, layBody_eq]

end Style

/-! ## Productions -/

/-- Production `i` of a rule: an alternative, or a first production without a pipe. -/
inductive IsProduction : Nat → Text → Prop where
  /-- A pipe stands in front of the text. -/
  | alternative (i : Nat) {w v b : Text} (hw : ∀ c ∈ w, isBlank c = true)
      (hv : ∀ c ∈ v, isBlank c = true) (hb : IsBody b) (hgap : b = [] → v = []) :
      IsProduction i (alternative w v b)
  /-- There is the text alone. -/
  | first {b : Text} (hb : IsBody b) : IsProduction 0 b

namespace IsProduction

variable {i : Nat} {p : Text} (h : IsProduction i p) (s : Style) {indent : Text}
  (hindent : ∀ c ∈ indent, isBlank c = true) (piped : Bool)
include h hindent

/-- What all passes make of a production is one. -/
theorem layProduction : IsProduction i (s.layProduction indent piped i p) := by
  cases h with
  | @first b hb =>
    rw [Style.layProduction_zero_body indent piped hb]
    exact .first (Style.layBody_isBody hb)
  | @alternative _ w v b hw hv hb hgap =>
    have hnil := Style.gap_layBody_eq_nil hb hgap (s := s)
    cases i with
    | zero =>
      rw [Style.layProduction_zero_alternative hw hv indent piped hb hgap]
      refine .alternative 0 ?_ ?_ (Style.layBody_isBody hb) fun hempty => (hnil hempty).2
      · split_ifs
        exacts [by simp, hw]
      · split_ifs
        exacts [by simp [isBlank], hv]
    | succ i =>
      rw [Style.layProduction_alternative hw hv hindent piped i hb hgap]
      refine .alternative (i + 1) ?_ (Style.isBlank_of_mem_layGap hv _) (Style.layBody_isBody hb)
        fun hempty => (hnil hempty).1
      split_ifs
      exacts [hindent, s.indent.isBlank_of_mem_unit, hw]

/-- No pass adds a pipe to a production, or takes one from it. -/
theorem hasPipe_layProduction : hasPipe (s.layProduction indent piped i p) = hasPipe p := by
  cases h with
  | @first b hb =>
    rw [Style.layProduction_zero_body indent piped hb, (Style.layBody_isBody hb).unpiped, hb.unpiped]
  | @alternative _ w v b hw hv hb hgap =>
    rw [hasPipe_alternative hw]
    cases i with
    | zero =>
      rw [Style.layProduction_zero_alternative hw hv indent piped hb hgap, hasPipe_alternative]
      split_ifs
      exacts [by simp, hw]
    | succ i =>
      rw [Style.layProduction_alternative hw hv hindent piped i hb hgap, hasPipe_alternative]
      split_ifs
      exacts [hindent, s.indent.isBlank_of_mem_unit, hw]

/-- What all passes leave of a production has no block to take out. -/
theorem liftable?_layProduction (henabled : s.indent.enabled = true) :
    liftable? (s.layProduction indent piped i p) = none := by
  have hbare : ∀ {w v b : Text}, (∀ c ∈ w, isBlank c = true) → (∀ c ∈ v, isBlank c = true) →
      IsBody b → liftable? (s.layBody b) = none →
      liftable? (GrammarLayout.alternative w v (s.layBody b)) = none := by
    intro w v b hw hv hb hnone
    have hbody := Style.layBody_isBody (s := s) hb
    rw [liftable?_eq_none_iff] at hnone ⊢
    rwa [bare_alternative hw hv hbody, ← hbody.bare_eq]
  cases h with
  | @first b hb =>
    rw [Style.layProduction_zero_body indent piped hb]
    exact (Style.layBody_fixed hb).1 henabled
  | @alternative _ w v b hw hv hb hgap =>
    have hnone := (Style.layBody_fixed (s := s) hb).1 henabled
    cases i with
    | zero =>
      rw [Style.layProduction_zero_alternative hw hv indent piped hb hgap]
      refine hbare ?_ ?_ hb hnone
      · split_ifs
        exact by simp
      · split_ifs
        exacts [by simp [isBlank], hv]
    | succ i =>
      rw [Style.layProduction_alternative hw hv hindent piped i hb hgap]
      refine hbare ?_ (Style.isBlank_of_mem_layGap hv _) hb hnone
      split_ifs
      exacts [hindent, s.indent.isBlank_of_mem_unit]

/-- Running all passes over a production twice is running them once. -/
theorem layProduction_layProduction : s.layProduction indent piped i (s.layProduction indent piped i p)
    = s.layProduction indent piped i p := by
  cases h with
  | @first b hb =>
    rw [Style.layProduction_zero_body indent piped hb,
      Style.layProduction_zero_body indent piped (Style.layBody_isBody hb), Style.layBody_layBody hb]
  | @alternative _ w v b hw hv hb hgap =>
    have hbody := Style.layBody_isBody (s := s) hb
    have hnil := Style.gap_layBody_eq_nil hb hgap (s := s)
    cases i with
    | zero =>
      rw [Style.layProduction_zero_alternative hw hv indent piped hb hgap,
        Style.layProduction_zero_alternative ?_ ?_ indent piped hbody fun hempty => (hnil hempty).2,
        Style.layBody_layBody hb]
      · split_ifs <;> rfl
      · split_ifs
        exacts [by simp, hw]
      · split_ifs
        exacts [by simp [isBlank], hv]
    | succ i =>
      rw [Style.layProduction_alternative hw hv hindent piped i hb hgap,
        Style.layProduction_alternative ?_ (Style.isBlank_of_mem_layGap hv _) hindent piped i hbody
          fun hempty => (hnil hempty).1,
        Style.layBody_layBody hb, Style.layGap_layGap]
      · split_ifs <;> rfl
      · split_ifs
        exacts [hindent, s.indent.isBlank_of_mem_unit, hw]

end IsProduction

end GrammarLayout
