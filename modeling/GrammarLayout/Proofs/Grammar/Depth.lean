import GrammarLayout.Proofs.Grammar.Unquoted
import GrammarLayout.Proofs.Grammar.Balanced

/-!
# Positions outside literals

A sign of the grammar counts where it stands outside the quoted literals of its
line, and the pipes and hashes among them only where no brace is open.  Here
these places are described by the literals in front of them: a quote opens a
literal, the next quote of the same kind closes it, and in between a backslash
takes any byte behind it along.  The braces in literals do not add to the depth
of a place.

What is proved here:

* `atDepth_iff`, `outside_iff` — the places that a scan of the line reaches
  outside literals, and their depth;
* `openingBrace?_eq_some_iff`, `openingBrace?_eq_none_iff` — the opening brace
  of a line is the first one outside literals;
* `matchingBrace?_eq_some_iff` — the brace that closes it is the one with a
  balanced text in between.
-/

namespace GrammarLayout

open Ascii Text

/-! ## Literals -/

/-- What may stand in a literal between its quotes `q`. -/
inductive InsideLiteral (q : UInt8) : Text → Prop where
  /-- Nothing. -/
  | nil : InsideLiteral q []
  /-- A byte that neither closes the literal nor starts an escape. -/
  | byte {c : UInt8} {t : Text} (hescape : c ≠ backslash) (hquote : c ≠ q)
      (ht : InsideLiteral q t) : InsideLiteral q (c :: t)
  /-- A backslash and the byte behind it, whatever it is. -/
  | escape {c : UInt8} {t : Text} (ht : InsideLiteral q t) : InsideLiteral q (backslash :: c :: t)

/-- The place behind the text is outside literals, and the braces outside literals in front of it open
`depth` more than they close. -/
inductive AtDepth : Text → Int → Prop where
  /-- The start of a line. -/
  | nil : AtDepth [] 0
  /-- A byte outside literals. -/
  | byte {c : UInt8} {s : Text} {d : Int} (hc : isQuote c = false) (hs : AtDepth s d) :
      AtDepth (c :: s) (braceBalance [c] + d)
  /-- A literal with its quotes. -/
  | literal {q : UInt8} {t s : Text} {d : Int} (hq : isQuote q = true) (ht : InsideLiteral q t)
      (hs : AtDepth s d) : AtDepth (q :: (t ++ q :: s)) d

/-- The place behind the text is outside literals. -/
def Outside (s : Text) : Prop := ∃ d, AtDepth s d

section Literal

variable {q : UInt8} (hq : isQuote q = true)
include hq

/-- A scan that has read the quote of a literal goes on behind it. -/
theorem InsideLiteral.after {t : Text} (ht : InsideLiteral q t) (s : Text) :
    (Quoting.literal q).after (t ++ q :: s) = Quoting.code.after s := by
  induction ht with
  | nil => rw [List.nil_append, Quoting.after_cons, next_quote hq]
  | byte hescape hquote _ ih =>
    rw [List.cons_append, Quoting.after_cons, Quoting.next, if_neg hescape, if_neg hquote, ih]
  | escape _ ih =>
    rw [List.cons_append, List.cons_append, Quoting.after_cons, Quoting.after_cons, Quoting.next,
      if_pos rfl, Quoting.next, ih]

/-- Nothing of a literal stands outside it. -/
theorem InsideLiteral.unquotedFrom {t : Text} (ht : InsideLiteral q t) (s : Text) :
    unquotedFrom (.literal q) (t ++ q :: s) = unquoted s := by
  induction ht with
  | nil => simp [GrammarLayout.unquotedFrom, next_quote hq, unquoted]
  | byte hescape hquote _ ih =>
    simpa [GrammarLayout.unquotedFrom, Quoting.next, hescape, hquote] using ih
  | escape _ ih => simpa [GrammarLayout.unquotedFrom, Quoting.next] using ih

end Literal

/-- A literal that a scan comes out of is closed by a quote. -/
theorem exists_insideLiteral {q : UInt8} {s : Text} (h : (Quoting.literal q).after s = .code) :
    ∃ t u, s = t ++ q :: u ∧ InsideLiteral q t := by
  -- Behind a backslash, one byte more is read before the rest of the literal.
  have hboth : ((Quoting.literal q).after s = .code → ∃ t u, s = t ++ q :: u ∧ InsideLiteral q t) ∧
      ((Quoting.escape q).after s = .code →
        ∃ c t u, s = c :: (t ++ q :: u) ∧ InsideLiteral q t) := by
    clear h
    induction s with
    | nil => simp
    | cons c s ih =>
      rw [Quoting.after_cons, Quoting.after_cons, Quoting.next, Quoting.next]
      constructor
      · intro h
        by_cases hescape : c = backslash
        · rw [if_pos hescape] at h
          obtain ⟨b, t, u, rfl, ht⟩ := ih.2 h
          exact ⟨c :: b :: t, u, rfl, hescape ▸ .escape ht⟩
        · rw [if_neg hescape] at h
          by_cases hquote : c = q
          · exact ⟨[], s, by rw [hquote]; rfl, .nil⟩
          · rw [if_neg hquote] at h
            obtain ⟨t, u, rfl, ht⟩ := ih.1 h
            exact ⟨c :: t, u, rfl, .byte hescape hquote ht⟩
      · intro h
        obtain ⟨t, u, rfl, ht⟩ := ih.1 h
        exact ⟨c, t, u, rfl, ht⟩
  exact hboth.1 h

theorem braceBalance_quote {q : UInt8} (hq : isQuote q = true) : braceBalance [q] = 0 := by
  simp only [isQuote, Bool.or_eq_true, beq_iff_eq] at hq
  rcases hq with rfl | rfl <;> rfl

/-! ## Places -/

theorem braceBalance_unquoted_cons (c : UInt8) (s : Text) : braceBalance (unquoted (c :: s))
    = braceBalance [c] + braceBalance (unquotedFrom (Quoting.code.next c) s) := by
  rw [unquoted, braceBalance_unquotedFrom_cons, byteDepth, if_pos rfl]

/-- The places outside literals are those that a scan of the line reaches in code, and their depth is
the balance of the bytes outside literals. -/
theorem atDepth_iff {s : Text} {d : Int} :
    AtDepth s d ↔ Quoting.code.after s = .code ∧ braceBalance (unquoted s) = d := by
  constructor
  · intro h
    induction h with
    | nil => exact ⟨rfl, rfl⟩
    | @byte c s d hc _ ih =>
      have hnext : Quoting.code.next c = .code := by simp [Quoting.next, hc]
      refine ⟨by rw [Quoting.after_cons, hnext, ih.1], ?_⟩
      rw [braceBalance_unquoted_cons, hnext, ← ih.2]
      rfl
    | @literal q t s d hq ht _ ih =>
      have hnext : Quoting.code.next q = .literal q := by simp [Quoting.next, hq]
      refine ⟨by rw [Quoting.after_cons, hnext, ht.after hq, ih.1], ?_⟩
      rw [braceBalance_unquoted_cons, hnext, ht.unquotedFrom hq, braceBalance_quote hq,
        Int.zero_add, ih.2]
  · rintro ⟨hcode, rfl⟩
    induction hlen : s.length using Nat.strongRecOn generalizing s with
    | _ n ih =>
      cases s with
      | nil => exact .nil
      | cons c s =>
        rw [Quoting.after_cons] at hcode
        cases hc : isQuote c with
        | false =>
          have hnext : Quoting.code.next c = .code := by simp [Quoting.next, hc]
          rw [hnext] at hcode
          rw [braceBalance_unquoted_cons, hnext]
          exact .byte hc (ih s.length (by simp [← hlen]) hcode rfl)
        | true =>
          have hnext : Quoting.code.next c = .literal c := by simp [Quoting.next, hc]
          rw [hnext] at hcode
          obtain ⟨t, u, rfl, ht⟩ := exists_insideLiteral hcode
          rw [ht.after hc] at hcode
          rw [braceBalance_unquoted_cons, hnext, ht.unquotedFrom hc, braceBalance_quote hc,
            Int.zero_add]
          refine .literal hc ht (ih u.length ?_ hcode rfl)
          simp only [List.length_cons, List.length_append] at hlen
          omega

theorem outside_iff {s : Text} : Outside s ↔ Quoting.code.after s = .code := by
  simp [Outside, atDepth_iff]

/-! ## The opening brace -/

/-- Position `i` of the line holds an opening brace outside literals. -/
def OpensAt (s : Text) (i : Nat) : Prop := s[i]? = some openBrace ∧ Outside (s.take i)

/-- Position `i` of the line holds the first opening brace outside literals. -/
structure OpensFirst (s : Text) (i : Nat) : Prop where
  /-- It holds such a brace. -/
  opens : OpensAt s i
  /-- No position before it does. -/
  first : ∀ k < i, ¬OpensAt s k

/-- On a text that is read from state `q`, position `i` holds an opening brace outside literals. -/
def OpensFrom (q : Quoting) (s : Text) (i : Nat) : Prop :=
  s[i]? = some openBrace ∧ q.after (s.take i) = .code

theorem opensFrom_zero {q : Quoting} {c : UInt8} {s : Text} :
    OpensFrom q (c :: s) 0 ↔ q = .code ∧ c = openBrace := by
  simp [OpensFrom, and_comm]

theorem opensFrom_succ {q : Quoting} {c : UInt8} {s : Text} {i : Nat} :
    OpensFrom q (c :: s) (i + 1) ↔ OpensFrom (q.next c) s i := by
  simp [OpensFrom]

theorem opensAt_iff {s : Text} {i : Nat} : OpensAt s i ↔ OpensFrom .code s i := by
  rw [OpensAt, outside_iff, OpensFrom]

theorem openingBraceFrom_eq_some_iff {q : Quoting} {s : Text} {i : Nat} :
    openingBraceFrom q s = some i ↔ OpensFrom q s i ∧ ∀ k < i, ¬OpensFrom q s k := by
  induction s generalizing q i with
  | nil => simp [openingBraceFrom, OpensFrom]
  | cons c s ih =>
    rw [openingBraceFrom]
    split_ifs with hc
    · constructor
      · intro h
        obtain rfl : 0 = i := Option.some.inj h
        exact ⟨opensFrom_zero.2 hc, fun k hk => absurd hk (Nat.not_lt_zero k)⟩
      · rintro ⟨-, hfirst⟩
        rcases Nat.eq_zero_or_pos i with rfl | hpos
        · rfl
        · exact absurd (opensFrom_zero.2 hc) (hfirst 0 hpos)
    · cases i with
      | zero => simp [opensFrom_zero, hc]
      | succ i =>
        rw [Nat.forall_lt_succ_left, opensFrom_zero]
        simp only [opensFrom_succ]
        simp [ih, hc]

theorem openingBraceFrom_eq_none_iff {q : Quoting} {s : Text} :
    openingBraceFrom q s = none ↔ ∀ i, ¬OpensFrom q s i := by
  induction s generalizing q with
  | nil => simp [openingBraceFrom, OpensFrom]
  | cons c s ih =>
    rw [openingBraceFrom]
    split_ifs with hc
    · exact iff_of_false (by simp) fun h => h 0 (opensFrom_zero.2 hc)
    · rw [Option.map_eq_none_iff, ih]
      constructor
      · intro h i
        cases i with
        | zero => rwa [opensFrom_zero]
        | succ i => rw [opensFrom_succ]; exact h i
      · intro h i
        rw [← opensFrom_succ]
        exact h (i + 1)

/-- The opening brace of a line is the first one outside literals. -/
theorem openingBrace?_eq_some_iff {s : Text} {i : Nat} :
    openingBrace? s = some i ↔ OpensFirst s i := by
  rw [openingBrace?, openingBraceFrom_eq_some_iff]
  simp only [← opensAt_iff]
  exact ⟨fun h => ⟨h.1, h.2⟩, fun h => ⟨h.opens, h.first⟩⟩

/-- A line has no opening brace when none stands outside literals. -/
theorem openingBrace?_eq_none_iff {s : Text} : openingBrace? s = none ↔ ∀ i, ¬OpensAt s i := by
  rw [openingBrace?, openingBraceFrom_eq_none_iff]
  simp only [opensAt_iff]

/-- A text is clear when it has no opening brace outside literals and closes its literals. -/
theorem clear_iff {s : Text} : Clear s ↔ (∀ i, ¬OpensAt s i) ∧ Outside s := by
  rw [← openingBrace?_eq_none_iff, outside_iff]
  exact ⟨fun h => ⟨h.brace, h.code⟩, fun h => ⟨h.1, h.2⟩⟩

/-! ## The closing brace -/

/-- Position `j` of the line holds the brace that closes the one at position `i`. -/
structure ClosesAt (s : Text) (i j : Nat) : Prop where
  /-- It stands behind it. -/
  behind : i < j
  /-- It is a closing brace. -/
  brace : s[j]? = some closeBrace
  /-- The text in between is balanced. -/
  balanced : Balanced ((s.take j).drop (i + 1))

/-- The brace that closes one open brace is the one with a balanced text in front of it. -/
theorem closingBraceFrom_one_eq_some_iff {t : Text} {k : Nat} :
    closingBraceFrom 1 t = some k ↔ t[k]? = some closeBrace ∧ Balanced (t.take k) := by
  constructor
  · intro h
    obtain ⟨hcut, hlen⟩ := closingBraceFrom_cut h
    have hinside : closingBraceFrom 1 (t.take k) = none :=
      inside_of_closingBraceFrom (t := t.drop (k + 1)) (by rw [← hcut, h, hlen])
    have hone := closingBraceFrom_eq_some h
    refine ⟨?_, closed_iff_balanced.1 ⟨hinside, by omega⟩⟩
    rw [hcut, List.getElem?_append_right (by omega), hlen, Nat.sub_self]
    rfl
  · rintro ⟨hbrace, hbalanced⟩
    obtain ⟨hlt, hget⟩ := List.getElem?_eq_some_iff.1 hbrace
    have hclosed := closed_iff_balanced.2 hbalanced
    have hcut : t = t.take k ++ closeBrace :: t.drop (k + 1) := by
      rw [← hget, ← List.drop_eq_getElem_cons hlt, List.take_append_drop]
    rw [hcut, closingBraceFrom_append, hclosed.inside, hclosed.balance]
    simp [closingBraceFrom, show (closeBrace : UInt8) ≠ openBrace by decide, Nat.le_of_lt hlt]

theorem matchingBrace?_eq_some_iff {s : Text} {i j : Nat} (hi : s[i]? = some openBrace) :
    matchingBrace? s i = some j ↔ ClosesAt s i j := by
  obtain ⟨hlt, hget⟩ := List.getElem?_eq_some_iff.1 hi
  have hdrop : s.drop i = openBrace :: s.drop (i + 1) := by
    rw [List.drop_eq_getElem_cons hlt, hget]
  rw [matchingBrace?, hdrop, closingBraceFrom, if_pos rfl, Int.zero_add, Option.map_map,
    Option.map_eq_some_iff]
  simp only [closingBraceFrom_one_eq_some_iff, List.getElem?_drop, Function.comp_apply]
  constructor
  · rintro ⟨k, ⟨hbrace, hbalanced⟩, rfl⟩
    refine ⟨by omega, by rw [← hbrace]; congr 1; omega, ?_⟩
    rwa [List.drop_take, show k + 1 + i - (i + 1) = k by omega]
  · intro h
    have hbehind := h.behind
    refine ⟨j - (i + 1), ⟨?_, ?_⟩, by omega⟩
    · rw [← h.brace]
      congr 1
      omega
    · have := h.balanced
      rwa [List.drop_take] at this

end GrammarLayout
