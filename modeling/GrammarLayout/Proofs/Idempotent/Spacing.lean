import GrammarLayout.Proofs.Grammar.Blocks
import GrammarLayout.Proofs.Grammar.Cut
import GrammarLayout.Proofs.Pass.NormalForm
import GrammarLayout.Proofs.Pass.Spacing

/-!
# Spacing a document twice

The spacing pass leaves alone what it has written.  A line of code is in normal
form once its operators are spaced, and the parts that the pass cuts a
production or an action into are found again around them.

What is proved here:

* `spaceBlocks_spaceBlocks` — the blocks of a production;
* `spaceProduction_spaceProduction` — a production with its pipe;
* `Action.spaceLines_spaceLines` — the lines of an action;
* `operator_spacing_normal_form` — the form of a line with spaced operators, and
  the pass as a whole.
-/

namespace GrammarLayout

open Ascii Text

/-! ## Code inside braces -/

theorem filter_isBrace_spaceOperators (line : Text) :
    (spaceOperators line).filter isBrace = line.filter isBrace := by
  have hbraces : ∀ s : Text, s.filter isBrace = (s.filter (!isBlank ·)).filter isBrace := by
    intro s
    rw [List.filter_filter]
    refine List.filter_congr fun c _ => ?_
    by_cases hc : isBlank c = true
    · have : isBrace c = false := by
        rcases (by simpa [isBlank] using hc : c = space ∨ c = tab) with rfl | rfl <;> rfl
      simp [this]
    · simp [hc]
  rw [hbraces, filter_spaceOperators, ← hbraces]

/-- The code inside a block as the pass writes it. -/
def blockCode (inner : Text) : Text := spaceOperators (trim inner)

theorem trim_blockCode (inner : Text) : trim (blockCode inner) = blockCode inner :=
  trim_spaceOperators (trim_trim inner)

theorem blockCode_padded_blockCode (inner : Text) :
    blockCode (padded (blockCode inner)) = blockCode inner := by
  rw [blockCode, trim_padded, trim_blockCode, blockCode, spaceOperators_spaceOperators]

theorem Closed.blockCode {inner : Text} (h : Closed inner) : Closed (blockCode inner) :=
  h.congr ((filter_isBrace_spaceOperators _).trans (filter_isBrace_trim inner))

theorem spaceBlock_eq (inner : Text) : spaceBlock inner = padded (blockCode inner) := rfl

theorem spaceBlock_spaceBlock (inner : Text) : spaceBlock (spaceBlock inner) = spaceBlock inner := by
  rw [spaceBlock_eq, spaceBlock_eq, blockCode_padded_blockCode]

theorem Closed.spaceBlock {inner : Text} (h : Closed inner) : Closed (spaceBlock inner) :=
  h.blockCode.congr (filter_isBrace_padded _)

/-! ## Blocks of productions -/

theorem spaceBlocks_of_splitInline? {p before inner : Text}
    (h : splitInline? p = some (before, inner)) :
    spaceBlocks p = joinInline before (blockCode inner) := by
  rw [spaceBlocks, h]
  rfl

/-- Spacing the operators in the blocks of a production twice is spacing them once. -/
theorem spaceBlocks_spaceBlocks (p : Text) : spaceBlocks (spaceBlocks p) = spaceBlocks p := by
  cases hsplit : splitInline? p with
  | some parts =>
    obtain ⟨before, inner⟩ := parts
    obtain ⟨b, rest, hblock, -, rfl, rfl⟩ := splitInline?_eq hsplit
    obtain ⟨-, hclear, hclosed⟩ := firstBlock?_eq_some_iff.1 hblock
    have hagain := splitInline?_joinInline hclear.trimBlanksEnd hclosed.blockCode
    rw [trimBlanksEnd_trimBlanksEnd] at hagain
    rw [spaceBlocks_of_splitInline? hsplit, spaceBlocks_of_splitInline? hagain,
      blockCode_padded_blockCode]
  | none =>
    have hmap : spaceBlocks p = mapBlocks spaceBlock p := by rw [spaceBlocks, hsplit]
    have hagain : splitInline? (mapBlocks spaceBlock p) = none := by
      cases hblock : firstBlock? p with
      | none => rw [mapBlocks_of_none spaceBlock hblock, hsplit]
      | some found =>
        obtain ⟨b, rest⟩ := found
        rw [splitInline?_of_firstBlock? hblock] at hsplit
        rw [splitInline?_of_firstBlock? (firstBlock?_mapBlocks (fun _ => Closed.spaceBlock) hblock)]
        have hrest : isSpaces (mapBlocks spaceBlock rest) = isSpaces rest := by
          rw [Bool.eq_iff_iff, ← ink_eq_nil_iff, ← ink_eq_nil_iff, ink_mapBlocks ink_spaceBlock]
        rw [hrest]
        split_ifs at hsplit ⊢
        rfl
    rw [hmap, spaceBlocks, hagain]
    have htwice : spaceBlock ∘ spaceBlock = spaceBlock := by
      funext inner
      rw [Function.comp_apply, spaceBlock_spaceBlock]
    rw [mapBlocks_mapBlocks fun _ => Closed.spaceBlock, htwice]

theorem hasPipe_spaceBlocks (p : Text) : hasPipe (spaceBlocks p) = hasPipe p := by
  rw [Bool.eq_iff_iff, Rule.hasPipe_iff, Rule.hasPipe_iff, ink_spaceBlocks]

/-! ## Pipes -/

/-- A pipe with a space behind it, or none. -/
def pipeSign (around : Bool) : Text := if around then [pipe, space] else [pipe]

/-- The text of an alternative behind its pipe. -/
def pipeRest (p : Text) : Text := trim (dropStart [pipe] (trimBlanksStart p))

theorem spacePipe_eq (around : Bool) (p : Text) : spacePipe around p
    = leadingBlanks p ++ if (pipeRest p).isEmpty then [pipe] else pipeSign around ++ pipeRest p := by
  have hsign : bytes "| " = [pipe, space] := rfl
  unfold spacePipe pipeRest pipeSign
  by_cases hempty : (trim (dropStart [pipe] (trimBlanksStart p))).isEmpty = true
  · simp [hempty]
  · cases around <;> simp [hempty, hsign]

section Pipe

variable {indent : Text} (hindent : ∀ c ∈ indent, isBlank c = true) (around : Bool)
include hindent

theorem clear_indent_pipeSign : Clear (indent ++ pipeSign around) := by
  refine (Clear.append_iff (.of_isSpaces (isSpaces_of_blanks hindent))).2 (.of_neutral ?_)
  cases around <;> decide +kernel

theorem spacePipe_append {w rest : Text} (hw : ∀ c ∈ w, isBlank c = true) (hrest : trim rest = rest) :
    spacePipe around (indent ++ pipe :: (w ++ rest))
      = indent ++ if rest.isEmpty then [pipe] else pipeSign around ++ rest := by
  have hsign : ∀ c ∈ (pipe :: (w ++ rest)).head?, isBlank c = false := by
    rintro _ ⟨⟩
    rfl
  have hdrop : dropStart [pipe] (pipe :: (w ++ rest)) = w ++ rest := by
    simp [dropStart, startsWith]
  rw [spacePipe_eq, pipeRest, leadingBlanks_append hindent hsign,
    trimBlanksStart_append hindent hsign, hdrop, trim_blanks_append hw, hrest]

end Pipe

theorem exists_spacePipe (around : Bool) (p : Text) :
    ∃ indent rest, (∀ c ∈ indent, isBlank c = true) ∧ trim rest = rest ∧
      spacePipe around p = indent ++ if rest.isEmpty then [pipe] else pipeSign around ++ rest :=
  ⟨leadingBlanks p, pipeRest p, fun _ hc => List.mem_takeWhile_imp hc, trim_trim _,
    spacePipe_eq around p⟩

theorem pipeSign_eq (around : Bool) : ∃ w, pipeSign around = pipe :: w ∧ ∀ c ∈ w, isBlank c = true := by
  cases around
  · exact ⟨[], rfl, by simp⟩
  · exact ⟨[space], rfl, List.forall_mem_singleton.2 rfl⟩

/-- Spacing a pipe twice is spacing it once. -/
theorem spacePipe_spacePipe (around : Bool) (p : Text) :
    spacePipe around (spacePipe around p) = spacePipe around p := by
  obtain ⟨indent, rest, hindent, hrest, hp⟩ := exists_spacePipe around p
  rw [hp]
  split_ifs with hempty
  · have hnone : ∀ c ∈ ([] : Text), isBlank c = true := by simp
    have hempty := spacePipe_append hindent around hnone (show trim ([] : Text) = [] from rfl)
    simpa using hempty
  · obtain ⟨w, hsign, hw⟩ := pipeSign_eq around
    have := spacePipe_append hindent around hw hrest
    rw [if_neg hempty] at this
    rwa [hsign, List.cons_append] at this ⊢

/-! ## Alternatives with a pipe -/

theorem endsVisible_mapBlocks (f : Text → Text) {s : Text} (h : EndsVisible s) :
    EndsVisible (mapBlocks f s) := by
  induction s using firstBlock?_induction with
  | tail s hblock => rwa [mapBlocks_of_none f hblock]
  | block s b rest hblock ih =>
    have hrest : EndsVisible rest := by
      rw [firstBlock?_eq hblock, ← List.append_assoc] at h
      exact (endsVisible_append_cons (by decide) (by decide)).1 h
    rw [mapBlocks_of_firstBlock? f hblock, ← List.append_assoc]
    exact (endsVisible_append_cons (by decide) (by decide)).2 (ih hrest)

/-- A trimmed text stays trimmed when its blocks are changed. -/
theorem trim_mapBlocks (f : Text → Text) {s : Text} (h : trim s = s) :
    trim (mapBlocks f s) = mapBlocks f s := by
  have hends := trim_eq_self_iff.1 h
  refine trim_eq_self_iff.2 ⟨?_, endsVisible_mapBlocks f hends.2⟩
  cases hblock : firstBlock? s with
  | none =>
    rw [mapBlocks_of_none f hblock]
    exact hends.1
  | some found =>
    have hstart := hends.1
    rw [firstBlock?_eq hblock, List.cons_append] at hstart
    rw [mapBlocks_of_firstBlock? f hblock, List.cons_append]
    exact (startsVisible_append_cons (by decide) (by decide)).2
      ((startsVisible_append_cons (by decide) (by decide)).1 hstart)

section Alternative

variable {indent rest : Text} (hindent : ∀ c ∈ indent, isBlank c = true) (around : Bool)
  (hrest : trim rest = rest)
include hindent

/-- Blanks behind a pipe are set by the style. -/
theorem spacePipe_text {w : Text} (hw : ∀ c ∈ w, isBlank c = true) (hrest : trim rest = rest)
    (hne : rest ≠ []) : spacePipe around (indent ++ (pipe :: w ++ rest))
      = indent ++ (pipeSign around ++ rest) := by
  rw [List.cons_append, spacePipe_append hindent around hw hrest, if_neg (by simpa using hne)]

theorem spacePipe_pipeSign (hrest : trim rest = rest) (hne : rest ≠ []) :
    spacePipe around (indent ++ (pipeSign around ++ rest)) = indent ++ (pipeSign around ++ rest) := by
  obtain ⟨w, hsign, hw⟩ := pipeSign_eq around
  conv_lhs => rw [hsign]
  exact spacePipe_text hindent around hw hrest hne

/-- A block that follows its pipe is set off by a space, whatever the style. -/
theorem spaceBlocks_pipe_block {inner : Text} (hinner : Closed inner) :
    spaceBlocks (indent ++ (pipeSign around ++ (openBrace :: inner ++ [closeBrace])))
      = indent ++ (pipe :: [space] ++ paddedBlock (blockCode inner)) := by
  obtain ⟨w, hsign, hw⟩ := pipeSign_eq around
  have htext : trimBlanksEnd (indent ++ pipeSign around) = indent ++ [pipe] := by
    rw [hsign, trimBlanksEnd, trimEndWhile_append_cons (by decide), trimEndWhile_eq_nil_iff.2 hw]
  have hsplit := splitInline?_block (clear_indent_pipeSign hindent around) hinner
  rw [← List.append_assoc, spaceBlocks_of_splitInline? hsplit, htext, joinInline_append (by simp)]
  simp

/-- An alternative without a block at its end keeps its pipe when its other blocks are spaced. -/
theorem spacePipe_spaceBlocks_of_none (hrest : trim rest = rest) (hne : rest ≠ [])
    (hsplit : splitInline? (indent ++ (pipeSign around ++ rest)) = none) :
    spacePipe around (spaceBlocks (indent ++ (pipeSign around ++ rest)))
      = spaceBlocks (indent ++ (pipeSign around ++ rest)) := by
  have hmap : spaceBlocks (indent ++ (pipeSign around ++ rest))
      = indent ++ (pipeSign around ++ mapBlocks spaceBlock rest) := by
    rw [spaceBlocks, hsplit]
    dsimp only
    rw [← List.append_assoc, mapBlocks_clear_append spaceBlock (clear_indent_pipeSign hindent around),
      List.append_assoc]
  have hkept : mapBlocks spaceBlock rest ≠ [] := by
    intro hnil
    have hink := ink_mapBlocks ink_spaceBlock rest
    rw [hnil, ink_nil, eq_comm, ink_eq_nil_iff, ← trim_eq_nil_iff, hrest] at hink
    exact hne hink
  rw [hmap]
  exact spacePipe_pipeSign hindent around (trim_mapBlocks spaceBlock hrest) hkept

/-- A pipe is kept when the block at the end is spaced and there is text in front of the block. -/
theorem spacePipe_spaceBlocks_of_text {text inner : Text} (htext : StartsVisible text)
    (hne : text ≠ []) (hsplit : splitInline? (indent ++ (pipeSign around ++ rest))
      = some (indent ++ pipeSign around ++ text, inner)) :
    spacePipe around (spaceBlocks (indent ++ (pipeSign around ++ rest)))
      = spaceBlocks (indent ++ (pipeSign around ++ rest)) := by
  have hspaced : spaceBlocks (indent ++ (pipeSign around ++ rest))
      = indent ++ (pipeSign around ++ (text ++ [space] ++ paddedBlock (blockCode inner))) := by
    rw [spaceBlocks_of_splitInline? hsplit, joinInline_append (by simp [hne])]
    simp
  have hstart : StartsVisible (text ++ [space]) :=
    (StartsVisible.of_append_cons (by decide) hne).2 htext
  rw [hspaced]
  exact spacePipe_pipeSign hindent around (trim_append_paddedBlock hstart _) (by simp)

/-- A space between a pipe and its block comes back when the style takes it away. -/
theorem spaceBlocks_spacePipe_pipe_block {inner : Text} (hinner : Closed inner) :
    let spaced := spaceBlocks (indent ++ (pipeSign around ++ (openBrace :: inner ++ [closeBrace])))
    spaceBlocks (spacePipe around spaced) = spaced := by
  intro spaced
  have hspaced : spaced = indent ++ (pipe :: [space] ++ paddedBlock (blockCode inner)) :=
    spaceBlocks_pipe_block hindent around hinner
  have hpadded : Closed (padded (blockCode inner)) := hinner.blockCode.congr (filter_isBrace_padded _)
  have hpipe : spacePipe around spaced = indent ++ (pipeSign around ++ paddedBlock (blockCode inner)) := by
    rw [hspaced]
    exact spacePipe_text hindent around (List.forall_mem_singleton.2 rfl)
      (trim_append_paddedBlock startsVisible_nil _) (by simp [paddedBlock])
  rw [hpipe, hspaced, paddedBlock, spaceBlocks_pipe_block hindent around hpadded,
    blockCode_padded_blockCode]
  rfl

/-- The blocks of an alternative are left as they are when its pipe is spaced again. -/
theorem spaceBlocks_pipeSign (hrest : trim rest = rest) (hne : rest ≠ []) :
    let spaced := spaceBlocks (indent ++ (pipeSign around ++ rest))
    spaceBlocks (spacePipe around spaced) = spaced := by
  intro spaced
  cases hsplit : splitInline? (indent ++ (pipeSign around ++ rest)) with
  | none =>
    rw [spacePipe_spaceBlocks_of_none hindent around hrest hne hsplit, spaceBlocks_spaceBlocks]
  | some parts =>
    obtain ⟨before, inner⟩ := parts
    obtain ⟨b, after, hblock, hafter, rfl, rfl⟩ := splitInline?_eq hsplit
    rw [← List.append_assoc, firstBlock?_clear_append (clear_indent_pipeSign hindent around),
      Option.map_eq_some_iff] at hblock
    obtain ⟨⟨⟨before, inner⟩, after⟩, hblock, hparts⟩ := hblock
    obtain ⟨rfl, rfl⟩ := Prod.mk.inj hparts
    obtain ⟨hs, -, hclosed⟩ := firstBlock?_eq_some_iff.1 hblock
    have hends := trim_eq_self_iff.1 hrest
    by_cases hnil : before = []
    · have hend : EndsVisible after := by
        rw [hs, ← List.append_assoc] at hends
        exact (endsVisible_append_cons (by decide) (by decide)).1 hends.2
      obtain rfl : before = [] := hnil
      obtain rfl : after = [] := eq_nil_of_isSpaces hafter (Or.inr hend)
      obtain rfl : rest = openBrace :: inner ++ [closeBrace] := hs
      exact spaceBlocks_spacePipe_pipe_block hindent around hclosed
    · have hstart : StartsVisible before := by
        rw [hs, List.cons_append] at hends
        exact (startsVisible_append_cons (by decide) (by decide)).1 hends.1
      obtain ⟨hkept, hvisible⟩ := hstart.trimBlanksEnd hnil
      have htext : trimBlanksEnd (indent ++ pipeSign around ++ before)
          = indent ++ pipeSign around ++ trimBlanksEnd before :=
        trimEndWhile_append_of_ne_nil hkept _
      dsimp only at hsplit
      rw [htext] at hsplit
      rw [spacePipe_spaceBlocks_of_text hindent around hvisible hkept hsplit, spaceBlocks_spaceBlocks]

end Alternative

theorem spaceBlocks_spacePipe_spaceBlocks (around : Bool) (p : Text) :
    spaceBlocks (spacePipe around (spaceBlocks (spacePipe around p)))
      = spaceBlocks (spacePipe around p) := by
  obtain ⟨indent, rest, hindent, hrest, hp⟩ := exists_spacePipe around p
  by_cases hempty : rest.isEmpty = true
  · have hclear : Clear (indent ++ [pipe]) := clear_indent_pipeSign hindent false
    have hnone : firstBlock? (indent ++ [pipe]) = none := by
      rw [firstBlock?, hclear.brace]
      rfl
    rw [if_pos hempty] at hp
    have hkept : spaceBlocks (spacePipe around p) = spacePipe around p := by
      rw [hp, spaceBlocks, splitInline?, hnone]
      exact mapBlocks_of_none spaceBlock hnone
    rw [hkept, spacePipe_spacePipe, hkept]
  · rw [hp, if_neg hempty]
    exact spaceBlocks_pipeSign hindent around hrest (by simpa using hempty)

theorem hasPipe_spacePipe (around : Bool) (p : Text) : hasPipe (spacePipe around p) = true := by
  have hpipe : ∀ t, (ink (leadingBlanks p ++ pipe :: t)).head? = some pipe := by
    intro t
    rw [ink_leadingBlanks_append, ink_pipe]
    rfl
  obtain ⟨w, hsign, -⟩ := pipeSign_eq around
  rw [Rule.hasPipe_iff, spacePipe_eq, hsign]
  split_ifs
  exacts [hpipe [], hpipe _]

/-- Spacing a production twice is spacing it once. -/
theorem spaceProduction_spaceProduction (style : SpacingStyle) (i : Nat) (p : Text) :
    spaceProduction style i (spaceProduction style i p) = spaceProduction style i p := by
  unfold spaceProduction
  cases hpiped : (decide (0 < i) && hasPipe p) with
  | false =>
    have hblocks : (decide (0 < i) && hasPipe (spaceBlocks p)) = false := by
      rw [hasPipe_spaceBlocks, hpiped]
    cases style.aroundEquals with
    | true => simp [hblocks, spaceBlocks_spaceBlocks]
    | false => simp [hpiped]
  | true =>
    obtain ⟨hlater, -⟩ := Bool.and_eq_true_iff.1 hpiped
    cases style.aroundEquals with
    | true => simp [hlater, hasPipe_spaceBlocks, hasPipe_spacePipe, spaceBlocks_spacePipe_spaceBlocks]
    | false => simp [hlater, hasPipe_spacePipe, spacePipe_spacePipe]

/-! ## Lines of actions -/

/-- A line of an action that holds no code of its own. -/
def isFrameLine (l : Text) : Bool :=
  (trim l).isEmpty || trim l = [openBrace] || trim l = [closeBrace]

theorem spaceActionLine_of_frame {l : Text} (h : isFrameLine l = true) : spaceActionLine l = l :=
  if_pos h

theorem spaceActionLine_of_code {l : Text} (h : isFrameLine l = false) :
    spaceActionLine l = leadingBlanks l ++ spaceOperators (trimBlanksStart l) :=
  if_neg (by simpa [isFrameLine] using h)

theorem isFrameLine_trimLayout (l : Text) :
    isFrameLine (trimEndWhile isLayout l) = isFrameLine l := by
  rw [isFrameLine, isFrameLine, trim_trimLayout]

/-- Code behind blanks, with its operators spaced, is left as it is. -/
theorem spaceActionLine_append {w code : Text} (hw : ∀ c ∈ w, isBlank c = true)
    (hcode : spaceOperators code = code) (hstart : ∀ c ∈ code.head?, isBlank c = false) :
    spaceActionLine (w ++ code) = w ++ code := by
  cases hframe : isFrameLine (w ++ code) with
  | true => exact spaceActionLine_of_frame hframe
  | false =>
    rw [spaceActionLine_of_code hframe, leadingBlanks_append hw hstart,
      trimBlanksStart_append hw hstart, hcode]

theorem head?_spaceOperators_trimBlanksStart (l : Text) :
    ∀ c ∈ (spaceOperators (trimBlanksStart l)).head?, isBlank c = false := by
  intro c hc
  cases hl : trimBlanksStart l with
  | nil =>
    rw [hl] at hc
    exact absurd hc (by simp [spaceOperators, spaceFrom, collapseBlanks, trimEndWhile])
  | cons b t =>
    have hb := head?_trimBlanksStart l b (by rw [hl]; rfl)
    have hhead := head?_spaceOperators hb (show (trimBlanksStart l).head? = some b by rw [hl]; rfl)
    rw [hhead] at hc
    exact Option.some.inj hc ▸ hb

/-- A line with spaced operators is left as it is, also without the layout at its end. -/
theorem spaceActionLine_spaceActionLine (l : Text) :
    spaceActionLine (spaceActionLine l) = spaceActionLine l ∧
      spaceActionLine (trimEndWhile isLayout (spaceActionLine l))
        = trimEndWhile isLayout (spaceActionLine l) := by
  have hblanks : ∀ c ∈ leadingBlanks l, isBlank c = true := fun c hc => List.mem_takeWhile_imp hc
  cases hframe : isFrameLine l with
  | true =>
    rw [spaceActionLine_of_frame hframe]
    exact ⟨spaceActionLine_of_frame hframe,
      spaceActionLine_of_frame ((isFrameLine_trimLayout l).trans hframe)⟩
  | false =>
    rw [spaceActionLine_of_code hframe]
    have hstart := head?_spaceOperators_trimBlanksStart l
    refine ⟨spaceActionLine_append hblanks (spaceOperators_spaceOperators _) hstart, ?_⟩
    by_cases hcut : trimEndWhile isLayout (spaceOperators (trimBlanksStart l)) = []
    · have hnil : trimEndWhile isLayout (leadingBlanks l ++ spaceOperators (trimBlanksStart l))
          = [] := by
        rw [trimEndWhile_append_of_forall (trimEndWhile_eq_nil_iff.1 hcut)]
        refine trimEndWhile_eq_nil_iff.2 fun c hc => ?_
        rw [isLayout, hblanks c hc]
        rfl
      rw [hnil]
      rfl
    · rw [trimEndWhile_append_of_ne_nil hcut]
      refine spaceActionLine_append hblanks ?_ fun c hc => hstart c ?_
      · rw [spaceOperators_trimLayout, spaceOperators_spaceOperators]
      · obtain ⟨w, hsplit, -⟩ :=
          exists_trimEndWhile isLayout (spaceOperators (trimBlanksStart l))
        rw [hsplit]
        obtain ⟨b, t, ht⟩ := List.exists_cons_of_ne_nil hcut
        rw [ht] at hc ⊢
        exact hc

theorem mem_spaceActionLine {l : Text} {c : UInt8} (h : c ∈ spaceActionLine l) :
    c = space ∨ c ∈ l := by
  cases hframe : isFrameLine l with
  | true =>
    rw [spaceActionLine_of_frame hframe] at h
    exact Or.inr h
  | false =>
    rw [spaceActionLine_of_code hframe, List.mem_append] at h
    rcases h with h | h
    · exact Or.inr ((List.takeWhile_sublist _).subset h)
    · exact (mem_spaceOperators h).imp_right fun h => (List.dropWhile_sublist _).subset h

theorem head?_spaceActionLine {l : Text} {c : UInt8} (hc : isBlank c = false)
    (hl : l.head? = some c) : (spaceActionLine l).head? = some c := by
  cases hframe : isFrameLine l with
  | true => rwa [spaceActionLine_of_frame hframe]
  | false =>
    obtain ⟨t, rfl⟩ := List.head?_eq_some_iff.1 hl
    have hstart : trimBlanksStart (c :: t) = c :: t := by simp [trimBlanksStart, hc]
    have hlead : leadingBlanks (c :: t) = [] := by simp [leadingBlanks, hc]
    rw [spaceActionLine_of_code hframe, hlead, hstart]
    exact head?_spaceOperators hc rfl

/-! ## Actions -/

/-- The lines of a body, spaced. -/
def spacedBody (body : Text) : Text := joinLines ((splitLines body).map spaceActionLine)

theorem splitLines_spacedBody (body : Text) :
    splitLines (spacedBody body) = (splitLines body).map spaceActionLine := by
  refine splitLines_joinLines (by simp [splitLines_ne_nil]) fun l hl hmem => ?_
  obtain ⟨m, hm, rfl⟩ := List.mem_map.1 hl
  rcases mem_spaceActionLine hmem with h | h
  · exact absurd h (by decide)
  · exact newline_notMem_of_mem_splitLines hm h

/-- A body with spaced lines is left as it is, also without the layout at its end. -/
theorem spacedBody_trimLayout_spacedBody (body : Text) :
    spacedBody (trimEndWhile isLayout (spacedBody body))
      = trimEndWhile isLayout (spacedBody body) := by
  have hkept : ∀ l ∈ splitLines (trimEndWhile isLayout (spacedBody body)),
      spaceActionLine l = l := by
    intro l hl
    have hspaced : ∀ m ∈ splitLines (spacedBody body), ∃ n, m = spaceActionLine n := by
      intro m hm
      rw [splitLines_spacedBody] at hm
      obtain ⟨n, -, hn⟩ := List.mem_map.1 hm
      exact ⟨n, hn.symm⟩
    rcases mem_splitLines_trimEndWhile hl with hl | ⟨m, hm, rfl⟩
    · obtain ⟨n, rfl⟩ := hspaced l hl
      exact (spaceActionLine_spaceActionLine n).1
    · obtain ⟨n, rfl⟩ := hspaced m hm
      exact (spaceActionLine_spaceActionLine n).2
  rw [spacedBody, List.map_congr_left hkept, List.map_id', joinLines_splitLines]

theorem mem_spacedBody {body : Text} {c : UInt8} (h : c ∈ spacedBody body) :
    c = newline ∨ c = space ∨ c ∈ body := by
  refine (mem_joinLines h).imp_right fun ⟨l, hl, hc⟩ => ?_
  obtain ⟨m, hm, rfl⟩ := List.mem_map.1 hl
  exact (mem_spaceActionLine hc).imp_right (mem_of_mem_splitOn hm c)

/-- A visible byte at the start of a body stays there. -/
theorem head?_spacedBody {c : UInt8} (hc : isLayout c = false) (t : Text) :
    ∃ t', spacedBody (c :: t) = c :: t' := by
  have hblank : isBlank c = false := (Bool.or_eq_false_iff.1 (Bool.or_eq_false_iff.1 hc).1).1
  have hnewline : c ≠ newline := by
    rintro rfl
    exact absurd hc (by decide)
  obtain ⟨l, ls, hls⟩ := List.exists_cons_of_ne_nil (splitLines_ne_nil t)
  obtain ⟨l', hl'⟩ := List.head?_eq_some_iff.1
    (head?_spaceActionLine hblank (show (c :: l).head? = some c from rfl))
  obtain ⟨back, hback⟩ := exists_joinLines_cons (c :: l') (ls.map spaceActionLine)
  refine ⟨l' ++ back, ?_⟩
  rw [spacedBody, splitLines_cons hnewline hls, List.map_cons, hl', hback]
  rfl

theorem Action.Cut.spacedBody {lead body : Text} (h : Cut lead body) :
    Cut lead (spacedBody body) := by
  refine h.congr ?_ fun hmem => ?_
  · cases body with
    | nil => rfl
    | cons c t =>
      obtain ⟨t', ht'⟩ := head?_spacedBody (h.start c rfl) t
      rw [ht']
      rfl
  · rcases mem_spacedBody hmem with h | h | h
    · exact absurd h (by decide)
    · exact absurd h (by decide)
    · exact h

/-- Spacing the lines of an action twice is spacing them once. -/
theorem Action.spaceLines_spaceLines (a : Action) : a.spaceLines.spaceLines = a.spaceLines := by
  have hcut := a.cut.spacedBody
  have hspaced : ∀ b : Action, b.spaceLines = b.setText (b.lead ++ spacedBody b.body) := fun _ => rfl
  refine Action.setText_eq_self ?_
  rw [hspaced a]
  by_cases hnil : spacedBody a.body = []
  · obtain ⟨htext, hlead, hbody⟩ := hcut.setText_nil hnil a
    rw [htext, hlead, hbody]
    rfl
  · obtain ⟨htext, hlead, hbody⟩ := hcut.setText hnil a
    obtain ⟨c, t, -, -, htrim⟩ := hcut.exists_trimLayout hnil
    rw [htext, hlead, hbody]
    change trimEndWhile isLayout (a.lead ++ spacedBody _) = _
    rw [spacedBody_trimLayout_spacedBody, trimEndWhile_append_of_ne_nil, trimEndWhile_trimEndWhile]
    rw [trimEndWhile_trimEndWhile, htrim]
    simp

/-! ## The pass -/

theorem Rule.spaceSigns_spaceSigns (style : SpacingStyle) (r : Rule) :
    (r.spaceSigns style).spaceSigns style = r.spaceSigns style := by
  have hproductions : (r.productions.mapIdx (spaceProduction style)).mapIdx (spaceProduction style)
      = r.productions.mapIdx (spaceProduction style) :=
    mapIdx_mapIdx_eq_self (spaceProduction_spaceProduction style) r.productions
  simp only [spaceSigns, hproductions]
  congr 1
  split
  · rw [List.map_map]
    exact List.map_congr_left fun a _ => a.spaceLines_spaceLines
  · rfl

/-- Spacing operators puts a line in normal form: its visible bytes are kept, what is left of its
blanks are single spaces between them, and doing it again changes nothing.  So the spacing pass
changes nothing when it is run a second time. -/
theorem operator_spacing_normal_form :
    (∀ line : Text,
      (spaceOperators line).filter (!isBlank ·) = line.filter (!isBlank ·) ∧
        tab ∉ spaceOperators line ∧ ¬[space, space] <:+: spaceOperators line ∧
        (spaceOperators line).getLast? ≠ some space ∧
        spaceOperators (spaceOperators line) = spaceOperators line) ∧
      ∀ (style : Style) (d : Document), (d.spaceSigns style).spaceSigns style = d.spaceSigns style := by
  refine ⟨fun line => ⟨filter_spaceOperators line, tab_notMem_spaceOperators line,
    not_infix_spaceOperators line, fun h => ?_, spaceOperators_spaceOperators line⟩, fun style d => ?_⟩
  · exact absurd (getLast?_spaceOperators line space h) (by decide)
  · exact Document.mapRules_mapRules fun r _ => r.spaceSigns_spaceSigns style.spacing

end GrammarLayout
