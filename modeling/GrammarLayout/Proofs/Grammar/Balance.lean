import GrammarLayout.Proofs.Grammar.Braces
import GrammarLayout.Proofs.Text.Lines

/-!
# Balanced braces

`closingBraceFrom` follows the depth of braces through a text and stops where a
closing brace brings it back to zero; `braceBalance` is the depth that a whole
text adds.  Here the two are brought together.

What is proved here:

* `braceBalance_ink` — the balance of a text does not depend on white space;
* `closingBraceFrom_append` — looking for the closing brace in two halves;
* `closingBraceFrom_eq_some` — up to the brace found the text is balanced;
* `balance_pos_of_closingBraceFrom`, `closingBraceFrom_eq_none_iff` — when none
  is found, braces are open;
* `firstBlock?_balance`, `unclosedBrace?_drop` — the inner text of a complete
  block is balanced, and an unclosed block is not closed on its line.
-/

namespace GrammarLayout

open Ascii Text

/-! ## The balance of a text -/

@[simp] theorem braceBalance_nil : braceBalance [] = 0 := rfl

@[simp] theorem braceBalance_append (s t : Text) :
    braceBalance (s ++ t) = braceBalance s + braceBalance t := by
  simp only [braceBalance, List.count_append]
  omega

@[simp] theorem braceBalance_openBrace (s : Text) :
    braceBalance (openBrace :: s) = braceBalance s + 1 := by
  rw [braceBalance, braceBalance, List.count_cons_self, List.count_cons_of_ne (by decide)]
  omega

@[simp] theorem braceBalance_closeBrace (s : Text) :
    braceBalance (closeBrace :: s) = braceBalance s - 1 := by
  rw [braceBalance, braceBalance, List.count_cons_self, List.count_cons_of_ne (by decide)]
  omega

theorem braceBalance_cons {c : UInt8} (h₁ : c ≠ openBrace) (h₂ : c ≠ closeBrace) (s : Text) :
    braceBalance (c :: s) = braceBalance s := by
  simp only [braceBalance, List.count_cons_of_ne h₁, List.count_cons_of_ne h₂]

@[simp] theorem braceBalance_newline (s : Text) :
    braceBalance (newline :: s) = braceBalance s := braceBalance_cons (by decide) (by decide) s

@[simp] theorem braceBalance_space (s : Text) :
    braceBalance (space :: s) = braceBalance s := braceBalance_cons (by decide) (by decide) s

/-- White space has no part in the balance of a text. -/
theorem braceBalance_ink (s : Text) : braceBalance (ink s) = braceBalance s := by
  rw [braceBalance, braceBalance, count_ink (by decide) (by decide),
    count_ink (by decide) (by decide)]

theorem braceBalance_of_ink {s t : Text} (h : ink s = ink t) : braceBalance s = braceBalance t := by
  rw [← braceBalance_ink, h, braceBalance_ink]

theorem braceBalance_of_isSpaces {w : Text} (h : isSpaces w = true) : braceBalance w = 0 := by
  rw [← braceBalance_ink, ink_of_isSpaces h, braceBalance_nil]

/-! ## The closing brace -/

/-- The closing brace of a text in two halves is in the first half, or it is the one that closes
what the first half leaves open. -/
theorem closingBraceFrom_append (d : Int) (s t : Text) :
    closingBraceFrom d (s ++ t) = match closingBraceFrom d s with
      | some k => some k
      | none => (closingBraceFrom (d + braceBalance s) t).map (· + s.length) := by
  induction s generalizing d with
  | nil => simp [closingBraceFrom]
  | cons c s ih =>
    -- One byte in front shifts every position by one.
    have hshift : ∀ d' e : Int, d' + braceBalance s = e →
        (closingBraceFrom d' (s ++ t)).map (· + 1) =
          match (closingBraceFrom d' s).map (· + 1) with
          | some k => some k
          | none => (closingBraceFrom e t).map (· + (c :: s).length) := by
      rintro d' e rfl
      rw [ih]
      cases closingBraceFrom d' s with
      | some k => rfl
      | none => simp [Option.map_map, Function.comp_def, Nat.add_assoc]
    rw [List.cons_append, closingBraceFrom, closingBraceFrom]
    by_cases hopen : c = openBrace
    · rw [if_pos hopen, if_pos hopen]
      exact hshift _ _ (by rw [hopen, braceBalance_openBrace]; omega)
    · rw [if_neg hopen, if_neg hopen]
      by_cases hclose : c = closeBrace
      · rw [if_pos hclose, if_pos hclose]
        by_cases hd : d = 1
        · rw [if_pos hd, if_pos hd]
        · rw [if_neg hd, if_neg hd]
          exact hshift _ _ (by rw [hclose, braceBalance_closeBrace]; omega)
      · rw [if_neg hclose, if_neg hclose]
        exact hshift _ _ (by rw [braceBalance_cons hopen hclose])

theorem closingBraceFrom_eq_none {s : Text} (h : closeBrace ∉ s) (d : Int) :
    closingBraceFrom d s = none := by
  cases hs : closingBraceFrom d s with
  | none => rfl
  | some k =>
    obtain ⟨rest, hrest, -⟩ := closingBraceFrom_eq hs
    exact absurd (by rw [hrest]; simp) h

/-- Where no brace closes what is open, none does in a part from the start. -/
theorem closingBraceFrom_of_prefix {d : Int} {s t : Text} (h : closingBraceFrom d t = none)
    (hs : s <+: t) : closingBraceFrom d s = none := by
  obtain ⟨u, rfl⟩ := hs
  rw [closingBraceFrom_append] at h
  cases hclose : closingBraceFrom d s with
  | none => rfl
  | some k =>
    rw [hclose] at h
    exact absurd h (by simp)

/-- The text is cut in three at the closing brace. -/
theorem closingBraceFrom_cut {d : Int} {s : Text} {k : Nat} (h : closingBraceFrom d s = some k) :
    s = s.take k ++ closeBrace :: s.drop (k + 1) ∧ (s.take k).length = k := by
  obtain ⟨rest, hs, hk⟩ := closingBraceFrom_eq h
  have htake : (s.take k).length = k := by
    rw [List.length_take]
    omega
  have hrest : s.drop (k + 1) = rest := by
    conv => lhs; rw [hs]
    rw [← List.drop_drop, List.drop_left' htake]
    rfl
  exact ⟨by rw [hrest]; exact hs, htake⟩

/-- What follows the last closing brace makes no difference. -/
theorem closingBraceFrom_append_of_notMem {t : Text} (h : closeBrace ∉ t) (d : Int) (s : Text) :
    closingBraceFrom d (s ++ t) = closingBraceFrom d s := by
  rw [closingBraceFrom_append]
  cases closingBraceFrom d s with
  | some k => rfl
  | none => simp [closingBraceFrom_eq_none h]

/-- White space in front moves the closing brace. -/
theorem closingBraceFrom_isSpaces_append {w : Text} (hw : isSpaces w = true) (d : Int) (s : Text) :
    closingBraceFrom d (w ++ s) = (closingBraceFrom d s).map (· + w.length) := by
  have hnone : closeBrace ∉ w := by
    intro hmem
    have := mem_ink (c := closeBrace) (by decide) (by decide) hmem
    rw [ink_of_isSpaces hw] at this
    simp at this
  rw [closingBraceFrom_append, closingBraceFrom_eq_none hnone, braceBalance_of_isSpaces hw,
    Int.add_zero]

/-- Before the closing brace one brace is open, so up to it the text is balanced. -/
theorem closingBraceFrom_eq_some {d : Int} {s : Text} {k : Nat}
    (h : closingBraceFrom d s = some k) : d + braceBalance (s.take k) = 1 := by
  induction s generalizing d k with
  | nil => simp [closingBraceFrom] at h
  | cons c s ih =>
    have hstep : ∀ {d' : Int}, (closingBraceFrom d' s).map (· + 1) = some k →
        d' + braceBalance ((c :: s).take k) = 1 + braceBalance [c] := by
      intro d' hd
      obtain ⟨j, hj, rfl⟩ := Option.map_eq_some_iff.1 hd
      have := ih hj
      rw [List.take_succ_cons, ← List.singleton_append, braceBalance_append]
      omega
    rw [closingBraceFrom] at h
    by_cases hopen : c = openBrace
    · rw [if_pos hopen] at h
      have := hstep h
      rw [hopen, braceBalance_openBrace, braceBalance_nil] at this
      rw [hopen]
      omega
    · rw [if_neg hopen] at h
      by_cases hclose : c = closeBrace
      · rw [if_pos hclose] at h
        by_cases hd : d = 1
        · rw [if_pos hd, Option.some.injEq] at h
          rw [hd, ← h, List.take_zero, braceBalance_nil, Int.add_zero]
        · rw [if_neg hd] at h
          have := hstep h
          rw [hclose, braceBalance_closeBrace, braceBalance_nil] at this
          rw [hclose]
          omega
      · rw [if_neg hclose] at h
        have := hstep h
        rwa [braceBalance_cons hopen hclose, braceBalance_nil, Int.add_zero] at this

/-- Where no brace closes what is open, something stays open. -/
theorem balance_pos_of_closingBraceFrom {d : Int} {s : Text} (hd : 0 < d)
    (h : closingBraceFrom d s = none) : 0 < d + braceBalance s := by
  induction s generalizing d with
  | nil => simpa using hd
  | cons c s ih =>
    rw [closingBraceFrom] at h
    by_cases hopen : c = openBrace
    · rw [if_pos hopen, Option.map_eq_none_iff] at h
      have := ih (by omega) h
      rw [hopen, braceBalance_openBrace]
      omega
    · rw [if_neg hopen] at h
      by_cases hclose : c = closeBrace
      · rw [if_pos hclose] at h
        by_cases hone : d = 1
        · rw [if_pos hone] at h
          exact absurd h (by simp)
        · rw [if_neg hone, Option.map_eq_none_iff] at h
          have := ih (by omega) h
          rw [hclose, braceBalance_closeBrace]
          omega
      · rw [if_neg hclose, Option.map_eq_none_iff] at h
        rw [braceBalance_cons hopen hclose]
        exact ih hd h

/-- No brace closes what is open exactly when every part of the text from its start leaves something
open. -/
theorem closingBraceFrom_eq_none_iff {d : Int} {s : Text} (hd : 0 < d) :
    closingBraceFrom d s = none ↔ ∀ t, t <+: s → 0 < d + braceBalance t := by
  constructor
  · intro h t ht
    have hnone := closingBraceFrom_of_prefix h ht
    exact balance_pos_of_closingBraceFrom hd hnone
  · intro h
    cases hclose : closingBraceFrom d s with
    | none => rfl
    | some k =>
      -- The part that ends with the closing brace leaves nothing open.
      have hs := (closingBraceFrom_cut hclose).1
      have hpart : s.take k ++ [closeBrace] <+: s := ⟨s.drop (k + 1), by simpa using hs.symm⟩
      have hpos := h _ hpart
      have hone := closingBraceFrom_eq_some hclose
      rw [braceBalance_append, braceBalance_closeBrace, braceBalance_nil] at hpos
      omega

/-! ## Blocks -/

/-- The text inside a complete block is balanced. -/
theorem firstBlock?_balance {s rest : Text} {b : Block} (h : firstBlock? s = some (b, rest)) :
    braceBalance b.inner = 0 := by
  simp only [firstBlock?, Option.bind_eq_bind, Option.bind_eq_some_iff, Option.some.injEq,
    Prod.mk.injEq] at h
  obtain ⟨i, hi, j, hj, rfl, -⟩ := h
  obtain ⟨after, hopen, hlt⟩ := openingBraceFrom_eq hi
  obtain ⟨k, hk, rfl⟩ := Option.map_eq_some_iff.1 hj
  have hdrop : s.drop i = openBrace :: after := by
    conv => lhs; rw [hopen]
    rw [List.drop_left' (by rw [List.length_take]; omega)]
  have hbalance := closingBraceFrom_eq_some hk
  have hinner : (s.drop i).take k = openBrace :: (s.take (k + i)).drop (i + 1) ∨ k = 0 := by
    cases k with
    | zero => exact Or.inr rfl
    | succ m =>
      refine Or.inl ?_
      rw [List.drop_take, show m + 1 + i - (i + 1) = m by omega, ← List.drop_drop, hdrop]
      rfl
  rcases hinner with hinner | rfl
  · rw [hinner, braceBalance_openBrace] at hbalance
    simp only at hbalance ⊢
    omega
  · rw [List.take_zero, braceBalance_nil] at hbalance
    omega

/-- What follows the complete blocks of a line has no complete block. -/
theorem firstBlock?_tail_blockLineWithin {fuel : Nat} {s : Text} (h : s.length ≤ fuel) :
    firstBlock? (blockLineWithin fuel s).tail = none := by
  induction fuel generalizing s with
  | zero =>
    obtain rfl : s = [] := List.length_eq_zero_iff.1 (Nat.le_zero.1 h)
    rfl
  | succ fuel ih =>
    rw [blockLineWithin]
    split
    · rename_i hnone
      exact hnone
    · rename_i b rest hb
      have := firstBlock?_length hb
      exact ih (by omega)

/-- The block at the position of an unclosed brace is not closed on the line. -/
theorem unclosedBrace?_drop {s : Text} {i : Nat} (h : unclosedBrace? s = some i) :
    closingBraceFrom 0 (s.drop i) = none := by
  obtain ⟨j, hj, rfl⟩ := Option.map_eq_some_iff.1 h
  have hs := blockLine_eq s
  have hnone : firstBlock? (blockLine s).tail = none :=
    firstBlock?_tail_blockLineWithin (Nat.le_refl s.length)
  have hclose : closingBraceFrom 0 ((blockLine s).tail.drop j) = none := by
    simp only [firstBlock?, hj, Option.bind_eq_bind, Option.bind_some, Option.bind_eq_none_iff] at hnone
    cases hmatch : closingBraceFrom 0 ((blockLine s).tail.drop j) with
    | none => rfl
    | some k => exact absurd (hnone (k + j) (by rw [matchingBrace?, hmatch]; rfl)) (by simp)
  generalize (blockLine s).blocks.flatMap (Block.text id) = front at hs
  generalize (blockLine s).tail = tail at hs hclose hj
  have hlen : s.length - tail.length = front.length := by
    rw [hs, List.length_append]
    omega
  rw [hlen, hs, Nat.add_comm, ← List.drop_drop, List.drop_left]
  exact hclose

theorem exists_drop_unclosedBrace? {s : Text} {i : Nat} (h : unclosedBrace? s = some i) :
    ∃ rest, s.drop i = openBrace :: rest := by
  obtain ⟨rest, hrest⟩ := unclosedBrace?_eq h
  have hlen : i ≤ s.length := by
    by_contra hlt
    rw [List.take_of_length_le (by omega)] at hrest
    exact absurd (congrArg List.length hrest) (by simp)
  refine ⟨rest, ?_⟩
  conv => lhs; rw [hrest]
  rw [List.drop_left' (by rw [List.length_take]; omega)]

/-- An unclosed brace leaves something open. -/
theorem unclosedBrace?_balance {s : Text} {i : Nat} (h : unclosedBrace? s = some i) :
    0 < braceBalance (s.drop i) := by
  obtain ⟨rest, hdrop⟩ := exists_drop_unclosedBrace? h
  have hnone := unclosedBrace?_drop h
  rw [hdrop, closingBraceFrom, if_pos rfl, Option.map_eq_none_iff] at hnone
  rw [hdrop, braceBalance_openBrace]
  have := balance_pos_of_closingBraceFrom (by decide) hnone
  omega

/-- The count of open braces, which is taken once more before a block is opened, rejects none. -/
theorem filter_unclosedBrace?_eq (line : Text) :
    ((unclosedBrace? line).filter fun i => 0 < braceBalance (line.drop i))
      = unclosedBrace? line := by
  cases h : unclosedBrace? line with
  | none => rfl
  | some i => simp [Option.filter_some, unclosedBrace?_balance h]

end GrammarLayout
