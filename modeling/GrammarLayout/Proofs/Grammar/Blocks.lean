import GrammarLayout.Proofs.Grammar.Balance
import GrammarLayout.Proofs.Text.Lines
import GrammarLayout.Proofs.Text.Ends

/-!
# Complete blocks of a line

The first complete block of a line is found at the first brace outside
literals, and it ends where the braces balance.  So the text in front of it
only has to be clear of braces, and the text inside may be changed as long as
its braces stay.

What is proved here:

* `firstBlock?_eq_some_iff` — a line with a complete block, by its parts;
* `Clear.append_iff`, `Clear.of_neutral`, `Clear.trim` — texts without a block;
* `Closed.congr` — only the braces inside a block matter;
* `firstBlock?_clear_append`, `firstBlock?_append_neutral` — the first block
  behind and in front of such texts;
* `firstBlock?_induction` — induction over the blocks of a line;
* `blockLine_mapBlocks`, `mapBlocks_mapBlocks` — changing the blocks of a line,
  once and twice.
-/

namespace GrammarLayout

open Ascii Text

/-! ## Literals -/

namespace Quoting

/-- The state after reading a text. -/
def after (q : Quoting) (s : Text) : Quoting := s.foldl next q

@[simp] theorem after_nil (q : Quoting) : q.after [] = q := rfl

@[simp] theorem after_cons (q : Quoting) (c : UInt8) (s : Text) :
    q.after (c :: s) = (q.next c).after s := rfl

@[simp] theorem after_append (q : Quoting) (s t : Text) :
    q.after (s ++ t) = (q.after s).after t := List.foldl_append

/-- A literal is closed by a quote. -/
def Quoted : Quoting → Prop
  | .code => True
  | .literal q => isQuote q = true
  | .escape q => isQuote q = true

theorem Quoted.next {q : Quoting} (h : q.Quoted) (c : UInt8) : (q.next c).Quoted := by
  match q with
  | .code =>
    rw [Quoting.next]
    split_ifs with hquote
    exacts [hquote, trivial]
  | .literal b =>
    have hquote : isQuote b = true := h
    rw [Quoting.next]
    split_ifs
    exacts [hquote, trivial, hquote]
  | .escape b => exact h

theorem Quoted.after {q : Quoting} (h : q.Quoted) (s : Text) : (q.after s).Quoted := by
  induction s generalizing q with
  | nil => exact h
  | cons c s ih => exact ih (h.next c)

end Quoting

theorem isQuote_ne {q : UInt8} (hq : isQuote q = true) :
    q ≠ openBrace ∧ q ≠ backslash ∧ q ≠ newline := by
  simp only [isQuote, Bool.or_eq_true, beq_iff_eq] at hq
  rcases hq with rfl | rfl <;> decide

theorem next_quote {q : UInt8} (hq : isQuote q = true) : Quoting.next (.literal q) q = .code := by
  rw [Quoting.next, if_neg (isQuote_ne hq).2.1, if_pos rfl]

/-- A byte that opens and closes neither literals nor blocks. -/
def isNeutral (c : UInt8) : Bool := !isQuote c && c != openBrace && c != closeBrace

theorem isNeutral_spec {c : UInt8} (hc : isNeutral c = true) :
    isQuote c = false ∧ c ≠ openBrace ∧ c ≠ closeBrace := by
  simpa [isNeutral, and_assoc] using hc

/-- A neutral byte is read in code if code is read behind it. -/
theorem Quoting.Quoted.next_eq_code_iff {q : Quoting} (h : q.Quoted) {c : UInt8}
    (hc : isNeutral c = true) : q.next c = .code ↔ q = .code := by
  have hquote := (isNeutral_spec hc).1
  match q with
  | .code => simp [Quoting.next, hquote]
  | .escape b => simp [Quoting.next]
  | .literal b =>
    have hne : c ≠ b := by
      rintro rfl
      exact absurd hquote (by simp [show isQuote c = true from h])
    simp only [Quoting.next, if_neg hne]
    split_ifs <;> simp

theorem Quoting.Quoted.after_eq_code_iff {q : Quoting} (h : q.Quoted) {w : Text}
    (hw : ∀ c ∈ w, isNeutral c = true) : q.after w = .code ↔ q = .code := by
  induction w generalizing q with
  | nil => exact Iff.rfl
  | cons c w ih =>
    exact (ih (h.next c) fun b hb => hw b (List.mem_cons_of_mem c hb)).trans
      (h.next_eq_code_iff (hw c List.mem_cons_self))

theorem isNeutral_of_isSpaces {w : Text} (hw : isSpaces w = true) :
    ∀ c ∈ w, isNeutral c = true := by
  intro c hc
  have hnot : ∀ b : UInt8, b < 0x80 → isWhiteSpace b.toNat = false → c ≠ b := by
    rintro b hb hv rfl
    have := mem_ink hb hv hc
    rw [ink_of_isSpaces hw] at this
    exact absurd this (by simp)
  have h₁ := hnot singleQuote (by decide) (by decide)
  have h₂ := hnot doubleQuote (by decide) (by decide)
  have h₃ := hnot openBrace (by decide) (by decide)
  have h₄ := hnot closeBrace (by decide) (by decide)
  simp [isNeutral, isQuote, h₁, h₂, h₃, h₄]

/-! ## Texts without a block -/

theorem openingBraceFrom_append (q : Quoting) (s t : Text) :
    openingBraceFrom q (s ++ t) = match openingBraceFrom q s with
      | some i => some i
      | none => (openingBraceFrom (q.after s) t).map (· + s.length) := by
  induction s generalizing q with
  | nil => simp [openingBraceFrom]
  | cons c s ih =>
    rw [List.cons_append, openingBraceFrom, openingBraceFrom]
    split_ifs with hc
    · rfl
    · rw [ih]
      cases openingBraceFrom (q.next c) s with
      | some i => rfl
      | none =>
        simp only [Option.map_none, Option.map_map, Quoting.after_cons, List.length_cons]
        rfl

/-- No block opens in the text, and one may open behind it. -/
structure Clear (s : Text) : Prop where
  /-- No brace stands outside literals. -/
  brace : openingBrace? s = none
  /-- Every literal is closed. -/
  code : Quoting.code.after s = .code

namespace Clear

theorem nil : Clear [] := ⟨rfl, rfl⟩

theorem openingBrace?_append {s : Text} (hs : Clear s) (t : Text) :
    openingBrace? (s ++ t) = (openingBrace? t).map (· + s.length) := by
  rw [openingBrace?, openingBraceFrom_append, show openingBraceFrom .code s = none from hs.brace,
    hs.code]
  rfl

theorem append_iff {s t : Text} (hs : Clear s) : Clear (s ++ t) ↔ Clear t := by
  have hbrace := hs.openingBrace?_append t
  have hcode : Quoting.code.after (s ++ t) = Quoting.code.after t := by
    rw [Quoting.after_append, hs.code]
  constructor
  · intro h
    exact ⟨Option.map_eq_none_iff.1 (hbrace ▸ h.brace), hcode ▸ h.code⟩
  · intro h
    exact ⟨by rw [hbrace, h.brace]; rfl, hcode.trans h.code⟩

theorem of_neutral {w : Text} (hw : ∀ c ∈ w, isNeutral c = true) : Clear w := by
  refine ⟨?_, ((show Quoting.code.Quoted from trivial).after_eq_code_iff hw).2 rfl⟩
  unfold openingBrace?
  induction w with
  | nil => rfl
  | cons c w ih =>
    have hc := hw c List.mem_cons_self
    have hnext : Quoting.code.next c = .code :=
      ((show Quoting.code.Quoted from trivial).next_eq_code_iff hc).2 rfl
    rw [openingBraceFrom, if_neg fun h => (isNeutral_spec hc).2.1 h.2, hnext,
      ih fun b hb => hw b (List.mem_cons_of_mem c hb)]
    rfl

theorem of_isSpaces {w : Text} (hw : isSpaces w = true) : Clear w :=
  of_neutral (isNeutral_of_isSpaces hw)

/-- Neutral bytes at the end may be cut off. -/
theorem of_append {s w : Text} (hw : ∀ c ∈ w, isNeutral c = true) (h : Clear (s ++ w)) :
    Clear s := by
  have hquoted : (Quoting.code.after s).Quoted := (show Quoting.code.Quoted from trivial).after s
  refine ⟨?_, (hquoted.after_eq_code_iff hw).1 (Quoting.after_append .code s w ▸ h.code)⟩
  have hbrace : openingBraceFrom .code (s ++ w) = none := h.brace
  rw [openingBraceFrom_append] at hbrace
  cases hs : openingBraceFrom .code s with
  | none => exact hs
  | some i => rw [hs] at hbrace; exact absurd hbrace (by simp)

theorem trimBlanksEnd {s : Text} (h : Clear s) : Clear (trimBlanksEnd s) := by
  obtain ⟨w, hs, hw⟩ := exists_trimEndWhile isBlank s
  exact of_append (isNeutral_of_isSpaces (isSpaces_of_blanks hw)) (hs ▸ h)

theorem trim {s : Text} (h : Clear s) : Clear (trim s) := by
  obtain ⟨w₁, w₂, hs, hw₁, hw₂, -⟩ := trim_split s
  rw [hs] at h
  exact of_append (isNeutral_of_isSpaces hw₂) ((append_iff (of_isSpaces hw₁)).1 h)

end Clear

/-! ## The text inside a block -/

/-- A brace. -/
def isBrace (c : UInt8) : Bool := c == openBrace || c == closeBrace

/-- The braces of the text balance, and none of them closes a brace in front of the text. -/
structure Closed (inner : Text) : Prop where
  /-- An open brace stays open. -/
  inside : closingBraceFrom 1 inner = none
  /-- No other brace is left open. -/
  balance : braceBalance inner = 0

theorem closingBraceFrom_filter_isBrace (d : Int) (s : Text) :
    closingBraceFrom d (s.filter isBrace) = none ↔ closingBraceFrom d s = none := by
  induction s generalizing d with
  | nil => exact Iff.rfl
  | cons c s ih =>
    cases hc : isBrace c with
    | true =>
      rw [List.filter_cons_of_pos hc, closingBraceFrom, closingBraceFrom]
      split_ifs <;> simp [ih]
    | false =>
      have hsides : c ≠ openBrace ∧ c ≠ closeBrace := by simpa [isBrace] using hc
      rw [List.filter_cons_of_neg (by simp [hc]), ih, closingBraceFrom, if_neg hsides.1,
        if_neg hsides.2, Option.map_eq_none_iff]

theorem braceBalance_filter_isBrace (s : Text) :
    braceBalance (s.filter isBrace) = braceBalance s := by
  rw [braceBalance, braceBalance, List.count_filter rfl, List.count_filter rfl]

/-- Only the braces of a text matter. -/
theorem Closed.congr {s t : Text} (h : Closed s) (hst : t.filter isBrace = s.filter isBrace) :
    Closed t := by
  refine ⟨?_, ?_⟩
  · rw [← closingBraceFrom_filter_isBrace, hst, closingBraceFrom_filter_isBrace]
    exact h.inside
  · rw [← braceBalance_filter_isBrace, hst, braceBalance_filter_isBrace]
    exact h.balance

theorem filter_isBrace_of_isSpaces {w : Text} (hw : isSpaces w = true) : w.filter isBrace = [] := by
  rw [List.filter_eq_nil_iff]
  intro c hc
  obtain ⟨-, hopen, hclose⟩ := isNeutral_spec (isNeutral_of_isSpaces hw c hc)
  simp [isBrace, hopen, hclose]

theorem filter_isBrace_trim (s : Text) : (trim s).filter isBrace = s.filter isBrace := by
  obtain ⟨w₁, w₂, hs, hw₁, hw₂, -⟩ := trim_split s
  conv_rhs => rw [hs, List.filter_append, List.filter_append, filter_isBrace_of_isSpaces hw₁,
    filter_isBrace_of_isSpaces hw₂, List.append_nil, List.nil_append]

/-! ## The first block -/

theorem positions_of_firstBlock? {s rest : Text} {b : Block}
    (h : firstBlock? s = some (b, rest)) :
    openingBraceFrom .code s = some b.before.length ∧
      closingBraceFrom 0 (s.drop b.before.length) = some (b.inner.length + 1) := by
  simp only [firstBlock?, Option.bind_eq_bind, Option.bind_eq_some_iff, Option.some.injEq,
    Prod.mk.injEq] at h
  obtain ⟨i, hi, j, hj, rfl, -⟩ := h
  obtain ⟨after, hopen, hlt⟩ := openingBraceFrom_eq hi
  obtain ⟨k, hk, rfl⟩ := Option.map_eq_some_iff.1 hj
  obtain ⟨-, -, hklt⟩ := closingBraceFrom_eq hk
  have hbefore : (s.take i).length = i := by
    rw [List.length_take]
    omega
  have hpos : 0 < k := by
    rw [Nat.pos_iff_ne_zero]
    rintro rfl
    rw [hopen, List.drop_left' hbefore, closingBraceFrom, if_pos rfl] at hk
    exact absurd hk (by simp)
  have hinner : ((s.take (k + i)).drop (i + 1)).length = k - 1 := by
    rw [List.length_drop] at hklt
    rw [List.length_drop, List.length_take]
    omega
  simp only [hbefore, hinner]
  exact ⟨hi, by rw [hk]; congr 1; omega⟩

theorem clear_of_openingBraceFrom {before t : Text}
    (h : openingBraceFrom .code (before ++ openBrace :: t) = some before.length) :
    Clear before := by
  rw [openingBraceFrom_append] at h
  cases hbefore : openingBraceFrom .code before with
  | some i =>
    obtain ⟨-, -, hlt⟩ := openingBraceFrom_eq hbefore
    rw [hbefore] at h
    exact absurd (Option.some.inj h) (by omega)
  | none =>
    rw [hbefore, openingBraceFrom] at h
    refine ⟨hbefore, by_contra fun hcode => ?_⟩
    rw [if_neg fun hboth => hcode hboth.1] at h
    obtain ⟨i, hi, hlen⟩ := Option.map_eq_some_iff.1 h
    obtain ⟨j, -, rfl⟩ := Option.map_eq_some_iff.1 hi
    omega

/-- In front of the brace that closes what is open, none does. -/
theorem inside_of_closingBraceFrom {d : Int} {inner t : Text}
    (h : closingBraceFrom d (inner ++ closeBrace :: t) = some inner.length) :
    closingBraceFrom d inner = none := by
  rw [closingBraceFrom_append] at h
  cases hinner : closingBraceFrom d inner with
  | none => rfl
  | some k =>
    obtain ⟨-, -, hlt⟩ := closingBraceFrom_eq hinner
    rw [hinner, Option.some.injEq] at h
    omega

/-- The first complete block of a line, by its parts. -/
theorem firstBlock?_eq_some_iff {s rest : Text} {b : Block} :
    firstBlock? s = some (b, rest) ↔
      s = b.before ++ (openBrace :: b.inner ++ closeBrace :: rest) ∧ Clear b.before ∧
        Closed b.inner := by
  constructor
  · intro h
    have hs := firstBlock?_eq h
    obtain ⟨hopen, hclose⟩ := positions_of_firstBlock? h
    refine ⟨hs, clear_of_openingBraceFrom (by rwa [hs] at hopen), ?_, firstBlock?_balance h⟩
    rw [hs, List.drop_left, List.cons_append, closingBraceFrom, if_pos rfl, Int.zero_add] at hclose
    obtain ⟨k, hk, hlen⟩ := Option.map_eq_some_iff.1 hclose
    obtain rfl : k = b.inner.length := by omega
    exact inside_of_closingBraceFrom hk
  · rintro ⟨rfl, hclear, hclosed⟩
    obtain ⟨before, inner⟩ := b
    have hopen : openingBrace? (before ++ (openBrace :: inner ++ closeBrace :: rest))
        = some before.length := by
      rw [openingBrace?, openingBraceFrom_append,
        show openingBraceFrom .code before = none from hclear.brace, hclear.code]
      simp [openingBraceFrom]
    have hclose : closingBraceFrom 0 (openBrace :: inner ++ closeBrace :: rest)
        = some (inner.length + 1) := by
      rw [List.cons_append, closingBraceFrom, if_pos rfl, Int.zero_add, closingBraceFrom_append,
        hclosed.inside, hclosed.balance]
      simp [closingBraceFrom, show (closeBrace : UInt8) ≠ openBrace by decide]
    simp only [firstBlock?, hopen, matchingBrace?, List.drop_left, hclose, Option.map_some,
      Option.bind_eq_bind, Option.bind_some, Option.some.injEq, Prod.mk.injEq, Block.mk.injEq]
    refine ⟨⟨?_, ?_⟩, ?_⟩
    · simp
    · rw [show inner.length + 1 + before.length = before.length + (inner.length + 1) by omega,
        List.take_length_add_append, ← List.drop_drop, List.drop_left' rfl]
      simp
    · rw [show inner.length + 1 + before.length + 1 = before.length + (inner.length + 2) by omega,
        List.drop_length_add_append]
      simp

theorem openingBrace?_ne_none {before : Text} (h : Clear before) (t : Text) :
    openingBrace? (before ++ openBrace :: t) ≠ none := by
  rw [h.openingBrace?_append]
  simp [openingBrace?, openingBraceFrom]

/-- Clear text in front only belongs to what stands before the block. -/
theorem firstBlock?_clear_append {w : Text} (hw : Clear w) (s : Text) :
    firstBlock? (w ++ s) = (firstBlock? s).map fun b => (⟨w ++ b.1.before, b.1.inner⟩, b.2) := by
  refine Option.ext fun ⟨⟨before, inner⟩, rest⟩ => ?_
  rw [Option.map_eq_some_iff, firstBlock?_eq_some_iff]
  constructor
  · rintro ⟨hs, hclear, hclosed⟩
    rcases List.append_eq_append_iff.1 hs with ⟨a, rfl, rfl⟩ | ⟨a, rfl, ha⟩
    · exact ⟨(⟨a, inner⟩, rest), firstBlock?_eq_some_iff.2
        ⟨rfl, (Clear.append_iff hw).1 hclear, hclosed⟩, rfl⟩
    · cases a with
      | nil =>
        rw [List.append_nil] at hw ⊢
        exact ⟨(⟨[], inner⟩, rest), firstBlock?_eq_some_iff.2 ⟨ha.symm, .nil, hclosed⟩, by simp⟩
      | cons c a =>
        obtain ⟨rfl, -⟩ := List.cons.inj ha
        exact absurd hw.brace (openingBrace?_ne_none hclear a)
  · rintro ⟨⟨⟨before', inner'⟩, rest'⟩, hblock, hparts⟩
    obtain ⟨⟨rfl, rfl⟩, rfl⟩ := by simpa using hparts
    obtain ⟨rfl, hclear, hclosed⟩ := firstBlock?_eq_some_iff.1 hblock
    exact ⟨by simp, (Clear.append_iff hw).2 hclear, hclosed⟩

/-- A block that is complete in the first half of a text is the first block. -/
theorem firstBlock?_append {s rest : Text} {b : Block} (h : firstBlock? s = some (b, rest))
    (t : Text) : firstBlock? (s ++ t) = some (b, rest ++ t) := by
  obtain ⟨rfl, hclear, hclosed⟩ := firstBlock?_eq_some_iff.1 h
  exact firstBlock?_eq_some_iff.2 ⟨by simp, hclear, hclosed⟩

/-- Neutral bytes at the end only belong to what stands behind the block. -/
theorem firstBlock?_append_neutral {w : Text} (hw : ∀ c ∈ w, isNeutral c = true) (s : Text) :
    firstBlock? (s ++ w) = (firstBlock? s).map fun b => (b.1, b.2 ++ w) := by
  refine Option.ext fun ⟨⟨before, inner⟩, rest⟩ => ?_
  rw [Option.map_eq_some_iff, firstBlock?_eq_some_iff]
  constructor
  · rintro ⟨hs, hclear, hclosed⟩
    have hcut : s ++ w = (before ++ (openBrace :: inner)) ++ closeBrace :: rest := by
      rw [hs]
      simp
    rcases List.append_eq_append_iff.1 hcut with ⟨a, -, ha⟩ | ⟨a, rfl, ha⟩
    · -- The closing brace is not one of the neutral bytes.
      have hmem : closeBrace ∈ w := by rw [ha]; simp
      exact absurd rfl (isNeutral_spec (hw closeBrace hmem)).2.2
    · cases a with
      | nil =>
        have hmem : closeBrace ∈ w := by rw [← List.nil_append w, ← ha]; simp
        exact absurd rfl (isNeutral_spec (hw closeBrace hmem)).2.2
      | cons c a =>
        obtain ⟨rfl, rfl⟩ := List.cons.inj ha
        exact ⟨(⟨before, inner⟩, a),
          firstBlock?_eq_some_iff.2 ⟨by simp, hclear, hclosed⟩, rfl⟩
  · rintro ⟨⟨⟨before', inner'⟩, rest'⟩, hblock, hparts⟩
    obtain ⟨⟨rfl, rfl⟩, rfl⟩ := by simpa using hparts
    obtain ⟨rfl, hclear, hclosed⟩ := firstBlock?_eq_some_iff.1 hblock
    exact ⟨by simp, hclear, hclosed⟩

/-! ## Changing the blocks -/

/-- A bound on the number of blocks that is large enough does not matter. -/
theorem blockLineWithin_eq_blockLine {fuel : Nat} {s : Text} (h : s.length ≤ fuel) :
    blockLineWithin fuel s = blockLine s := by
  have hboth : ∀ (fuel fuel' : Nat) (s : Text), s.length ≤ fuel → s.length ≤ fuel' →
      blockLineWithin fuel s = blockLineWithin fuel' s := by
    intro fuel
    induction fuel with
    | zero =>
      intro fuel' s hs _
      obtain rfl : s = [] := List.length_eq_zero_iff.1 (Nat.le_zero.1 hs)
      cases fuel' <;> rfl
    | succ fuel ih =>
      intro fuel' s hs hs'
      cases fuel' with
      | zero =>
        obtain rfl : s = [] := List.length_eq_zero_iff.1 (Nat.le_zero.1 hs')
        rfl
      | succ fuel' =>
        rw [blockLineWithin, blockLineWithin]
        cases hblock : firstBlock? s with
        | none => rfl
        | some found =>
          obtain ⟨b, rest⟩ := found
          have hlen := firstBlock?_length hblock
          simp only
          rw [ih fuel' rest (by omega) (by omega)]
  exact hboth fuel s.length s h (Nat.le_refl _)

theorem blockLine_of_firstBlock? {s rest : Text} {b : Block} (h : firstBlock? s = some (b, rest)) :
    blockLine s = ⟨b :: (blockLine rest).blocks, (blockLine rest).tail⟩ := by
  have hlen := firstBlock?_length h
  obtain ⟨n, hn⟩ : ∃ n, s.length = n + 1 := ⟨s.length - 1, by omega⟩
  rw [blockLine, hn, blockLineWithin, h]
  simp only [blockLineWithin_eq_blockLine (show rest.length ≤ n by omega)]

theorem length_tail_le (s : Text) : (blockLine s).tail.length ≤ s.length := by
  have hs := congrArg List.length (blockLine_eq s)
  rw [List.length_append] at hs
  omega

theorem unclosedBrace?_of_block {s rest : Text} {b : Block} (h : firstBlock? s = some (b, rest)) :
    unclosedBrace? s = (unclosedBrace? rest).map (· + (s.length - rest.length)) := by
  have hlen := firstBlock?_length h
  have htail := length_tail_le rest
  rw [unclosedBrace?, unclosedBrace?, blockLine_of_firstBlock? h, Option.map_map]
  congr 1
  funext i
  simp only [Function.comp_apply]
  omega

/-- A line is gone through block by block: it has no complete block, or it is the first of them with
the line behind it. -/
@[elab_as_elim]
theorem firstBlock?_induction {motive : Text → Prop}
    (tail : ∀ s, firstBlock? s = none → motive s)
    (block : ∀ s b rest, firstBlock? s = some (b, rest) → motive rest → motive s) (s : Text) :
    motive s := by
  induction hlen : s.length using Nat.strongRecOn generalizing s with
  | _ n ih =>
    cases h : firstBlock? s with
    | none => exact tail s h
    | some found =>
      obtain ⟨b, rest⟩ := found
      exact block s b rest h (ih rest.length (hlen ▸ firstBlock?_length h) rest rfl)

section MapBlocks

variable (f : Text → Text)

theorem mapBlocks_of_firstBlock? {s rest : Text} {b : Block}
    (h : firstBlock? s = some (b, rest)) :
    mapBlocks f s = b.before ++ (openBrace :: f b.inner ++ closeBrace :: mapBlocks f rest) := by
  rw [mapBlocks_eq, mapBlocks_eq, blockLine_of_firstBlock? h]
  simp [Block.text]

theorem mapBlocks_of_none {s : Text} (h : firstBlock? s = none) : mapBlocks f s = s := by
  rw [mapBlocks_eq, blockLine_of_firstBlock?_eq_none h]
  rfl

theorem mapBlocks_clear_append {w : Text} (hw : Clear w) (s : Text) :
    mapBlocks f (w ++ s) = w ++ mapBlocks f s := by
  cases h : firstBlock? s with
  | none =>
    rw [mapBlocks_of_none f h, mapBlocks_of_none]
    rw [firstBlock?_clear_append hw, h]
    rfl
  | some found =>
    obtain ⟨b, rest⟩ := found
    have hboth : firstBlock? (w ++ s) = some (⟨w ++ b.before, b.inner⟩, rest) := by
      rw [firstBlock?_clear_append hw, h]
      rfl
    rw [mapBlocks_of_firstBlock? f h, mapBlocks_of_firstBlock? f hboth, List.append_assoc]

variable {f}

/-- A line with changed blocks has its first block where it was. -/
theorem firstBlock?_mapBlocks (hf : ∀ t, Closed t → Closed (f t)) {s rest : Text} {b : Block}
    (h : firstBlock? s = some (b, rest)) :
    firstBlock? (mapBlocks f s) = some (⟨b.before, f b.inner⟩, mapBlocks f rest) := by
  obtain ⟨-, hclear, hclosed⟩ := firstBlock?_eq_some_iff.1 h
  rw [mapBlocks_of_firstBlock? f h]
  exact firstBlock?_eq_some_iff.2 ⟨rfl, hclear, hf _ hclosed⟩

/-- A change that keeps what is inside a block closed changes the inner texts of a line, and nothing
else. -/
theorem blockLine_mapBlocks (hf : ∀ t, Closed t → Closed (f t)) (s : Text) :
    blockLine (mapBlocks f s)
      = ⟨(blockLine s).blocks.map fun b => ⟨b.before, f b.inner⟩, (blockLine s).tail⟩ := by
  induction s using firstBlock?_induction with
  | tail s h => rw [mapBlocks_of_none f h, blockLine_of_firstBlock?_eq_none h, List.map_nil]
  | block s b rest h ih =>
    rw [blockLine_of_firstBlock? (firstBlock?_mapBlocks hf h), ih, blockLine_of_firstBlock? h,
      List.map_cons]

/-- Two changes, one after the other, are one change on all blocks of a line. -/
theorem mapBlocks_mapBlocks (hf : ∀ t, Closed t → Closed (f t)) (g : Text → Text) (s : Text) :
    mapBlocks g (mapBlocks f s) = mapBlocks (g ∘ f) s := by
  rw [mapBlocks_eq, blockLine_mapBlocks hf, mapBlocks_eq, List.flatMap_map]
  rfl

end MapBlocks

/-! ## A block at the end -/

theorem splitInline?_of_firstBlock? {p rest : Text} {b : Block}
    (h : firstBlock? p = some (b, rest)) :
    splitInline? p = if isSpaces rest then some (trimBlanksEnd b.before, b.inner) else none := by
  rw [splitInline?, h]
  rfl

/-- A block with a space inside each brace. -/
def padded (inner : Text) : Text := if inner.isEmpty then [space] else space :: inner ++ [space]

theorem trim_padded (inner : Text) : trim (padded inner) = trim inner := by
  unfold padded
  split_ifs with h
  · rw [List.isEmpty_iff.1 h]
    rfl
  · rw [show space :: inner ++ [space] = [space] ++ (inner ++ [space]) from rfl,
      trim_blanks_append (List.forall_mem_singleton.2 rfl),
      trim_append_spaces (List.forall_mem_singleton.2 rfl)]

theorem filter_isBrace_padded (inner : Text) :
    (padded inner).filter isBrace = inner.filter isBrace := by
  unfold padded
  split_ifs with h
  · rw [List.isEmpty_iff.1 h]
    rfl
  · have hspace : ¬isBrace space = true := by decide
    rw [List.filter_append, List.filter_cons_of_neg hspace, List.filter_cons_of_neg hspace,
      List.filter_nil, List.append_nil]

theorem joinInline_eq (text inner : Text) : joinInline text inner
    = (if text.isEmpty then [] else text ++ [space]) ++ (openBrace :: padded inner ++ [closeBrace]) := by
  have hopen : bytes "\x7b " = [openBrace, space] := rfl
  have hclose : bytes " \x7d" = [space, closeBrace] := rfl
  have hboth : bytes "\x7b \x7d" = [openBrace, space, closeBrace] := rfl
  unfold joinInline padded
  split_ifs <;> simp [hopen, hclose, hboth]

theorem splitInline?_block {before inner : Text} (hbefore : Clear before) (hinner : Closed inner) :
    splitInline? (before ++ (openBrace :: inner ++ [closeBrace]))
      = some (trimBlanksEnd before, inner) := by
  have hblock : firstBlock? (before ++ (openBrace :: inner ++ [closeBrace]))
      = some (⟨before, inner⟩, []) := firstBlock?_eq_some_iff.2 ⟨rfl, hbefore, hinner⟩
  rw [splitInline?_of_firstBlock? hblock]
  rfl

theorem trimBlanksEnd_concat_space (s : Text) : trimBlanksEnd (s ++ [space]) = trimBlanksEnd s := by
  rw [trimBlanksEnd, trimBlanksEnd, trimEndWhile, trimEndWhile, List.reverse_append]
  rfl

/-- A production that was joined from a text and a block is cut into them again. -/
theorem splitInline?_joinInline {text inner : Text} (htext : Clear text) (hinner : Closed inner) :
    splitInline? (joinInline text inner) = some (trimBlanksEnd text, padded inner) := by
  have hclosed : Closed (padded inner) := hinner.congr (filter_isBrace_padded inner)
  rw [joinInline_eq]
  split_ifs with h
  · rw [splitInline?_block .nil hclosed, List.isEmpty_iff.1 h]
  · rw [splitInline?_block ((Clear.append_iff htext).2 (.of_neutral (List.forall_mem_singleton.2 rfl)))
      hclosed,
      trimBlanksEnd_concat_space]

/-- A block with its braces, written with a space inside each of them. -/
def paddedBlock (inner : Text) : Text := openBrace :: padded inner ++ [closeBrace]

theorem trim_append_paddedBlock {before : Text} (h : StartsVisible before) (inner : Text) :
    trim (before ++ paddedBlock inner) = before ++ paddedBlock inner := by
  refine trim_eq_self_iff.2 ⟨?_, ?_⟩
  · exact (startsVisible_append_cons (by decide) (by decide)).2 h
  · rw [paddedBlock, ← List.append_assoc]
    exact (endsVisible_append_cons (by decide) (by decide)).2 endsVisible_nil

theorem joinInline_append {text : Text} (h : text ≠ []) (inner : Text) :
    joinInline text inner = text ++ space :: paddedBlock inner := by
  rw [joinInline_eq, if_neg (by simpa using h), List.append_assoc]
  rfl

/-- A text and a block that are joined are trimmed if the text starts with a visible character. -/
theorem trim_joinInline {text : Text} (h : StartsVisible text) (inner : Text) :
    trim (joinInline text inner) = joinInline text inner := by
  by_cases hnil : text = []
  · have hblock : joinInline text inner = [] ++ paddedBlock inner := by
      rw [joinInline_eq, if_pos (by simpa using hnil)]
      rfl
    rw [hblock]
    exact trim_append_paddedBlock startsVisible_nil inner
  · have hspace : StartsVisible (text ++ [space]) :=
      (StartsVisible.of_append_cons (by decide) hnil).2 h
    rw [joinInline_append hnil, List.append_cons]
    exact trim_append_paddedBlock hspace inner

end GrammarLayout
