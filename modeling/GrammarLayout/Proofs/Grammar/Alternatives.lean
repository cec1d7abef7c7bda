import GrammarLayout.Grammar.Parser
import GrammarLayout.Proofs.Grammar.Depth

/-!
# Where a line is cut into alternatives

One scan of a line follows the literals and the depth of braces, looks for the
hash that starts a comment, and cuts the line at the pipes in front of it.  The
places of the cuts can be told without the scan: they are the pipes outside
literals where no brace is open, as far as no such hash stands before them.

What is proved here:

* `alternativesFrom_cons` — the alternatives of a text byte by byte;
* `mem_cuts_alternativesFrom` — where a text is cut that is read from any state
  and depth;
* `join_alternatives`, `take_first_two` — what the parts make up, all of them
  and the first two;
* `alternatives_cut_at_pipes` — the alternatives of a line, by the places where
  it is cut.
-/

namespace GrammarLayout

open Ascii Text

/-! ## Signs outside literals and blocks -/

/-- On a text that is read from state `q` at depth `depth`, position `i` holds the byte `sign` outside
literals at a place where no brace is open. -/
def SignAt (sign : UInt8) (q : Quoting) (depth : Int) (s : Text) (i : Nat) : Prop :=
  s[i]? = some sign ∧ q.after (s.take i) = .code ∧
    depth + braceBalance (unquotedFrom q (s.take i)) ≤ 0

theorem signAt_zero {sign : UInt8} {q : Quoting} {d : Int} {c : UInt8} {s : Text} :
    SignAt sign q d (c :: s) 0 ↔ q = .code ∧ c = sign ∧ d ≤ 0 := by
  simp [SignAt, and_left_comm]

theorem signAt_succ {sign : UInt8} {q : Quoting} {d : Int} {c : UInt8} {s : Text} {i : Nat} :
    SignAt sign q d (c :: s) (i + 1) ↔ SignAt sign (q.next c) (d + byteDepth q c) s i := by
  rw [SignAt, SignAt, List.take_succ_cons, braceBalance_unquotedFrom_cons, Quoting.after_cons,
    List.getElem?_cons_succ, Int.add_assoc]

/-- The alternatives of a text byte by byte: a hash outside literals and blocks ends them, a pipe there
starts the next one, and every other byte belongs to the first. -/
theorem alternativesFrom_cons (q : Quoting) (d : Int) (c : UInt8) (s : Text) :
    alternativesFrom q d (c :: s) =
      if q = .code ∧ c = hash ∧ d ≤ 0 then (c :: s, [])
      else
        let r := alternativesFrom (q.next c) (d + byteDepth q c) s
        if q = .code ∧ c = pipe ∧ d ≤ 0 then ([], r.1 :: r.2) else (c :: r.1, r.2) := by
  rw [alternativesFrom]
  by_cases hq : q ≠ .code ∨ isQuote c = true
  · -- A byte of a literal, its quotes among them.
    have hsign : ∀ b, isQuote b = false → ¬(q = .code ∧ c = b ∧ d ≤ 0) := by
      rintro b hb ⟨hcode, rfl, -⟩
      exact absurd (hq.resolve_left (not_not_intro hcode)) (by simp [hb])
    have hbyte : byteDepth q c = 0 := by
      rw [byteDepth]
      split_ifs with hcode
      · have hc := hq.resolve_left (not_not_intro hcode)
        rw [braceBalance_cons (by rintro rfl; exact absurd hc (by decide))
          (by rintro rfl; exact absurd hc (by decide)), braceBalance_nil]
      · rfl
    rw [if_pos hq, if_neg (hsign hash rfl), hbyte, Int.add_zero]
    simp only [if_neg (hsign pipe rfl)]
  · obtain ⟨rfl, hquote⟩ : q = .code ∧ isQuote c = false := by simpa using hq
    have hnext : Quoting.next .code c = .code := by simp [Quoting.next, hquote]
    rw [if_neg hq, hnext, byteDepth, if_pos rfl]
    by_cases hopen : c = openBrace
    · subst hopen
      simp [show (openBrace : UInt8) ≠ hash by decide, show (openBrace : UInt8) ≠ pipe by decide]
    by_cases hclose : c = closeBrace
    · subst hclose
      simp [show (closeBrace : UInt8) ≠ hash by decide, show (closeBrace : UInt8) ≠ pipe by decide,
        show (closeBrace : UInt8) ≠ openBrace by decide, Int.sub_eq_add_neg]
    · rw [if_neg hopen, if_neg hclose, braceBalance_cons hopen hclose, braceBalance_nil, Int.add_zero]
      simp only [true_and]

/-! ## Cuts -/

/-- The positions of the separators when the parts `first` and `later` are joined by one byte. -/
def cuts : Text → List Text → List Nat
  | _, [] => []
  | first, next :: later => first.length :: (cuts next later).map (· + (first.length + 1))

theorem cuts_cons (c : UInt8) (first : Text) (later : List Text) :
    cuts (c :: first) later = (cuts first later).map (· + 1) := by
  cases later with
  | nil => rfl
  | cons next later => simp [cuts, Nat.add_assoc, Function.comp_def]

theorem cuts_nil_cons (next : Text) (later : List Text) :
    cuts [] (next :: later) = 0 :: (cuts next later).map (· + 1) := rfl

/-- A text is cut at the pipes outside literals and blocks that have no such hash before them. -/
theorem mem_cuts_alternativesFrom {q : Quoting} {d : Int} {s : Text} {i : Nat} :
    i ∈ cuts (alternativesFrom q d s).1 (alternativesFrom q d s).2
      ↔ SignAt pipe q d s i ∧ ∀ k < i, ¬SignAt hash q d s k := by
  induction s generalizing q d i with
  | nil => simp [alternativesFrom, cuts, SignAt]
  | cons c s ih =>
    rw [alternativesFrom_cons]
    split_ifs with hhash hpipe
    · -- The comment is not cut, and this byte is no pipe.
      refine iff_of_false (by simp [cuts]) ?_
      rintro ⟨hcut, hlive⟩
      cases i with
      | zero =>
        have hboth := hhash.2.1.symm.trans (signAt_zero.1 hcut).2.1
        exact absurd hboth (by decide)
      | succ i => exact hlive 0 (Nat.succ_pos i) (signAt_zero.2 hhash)
    · cases i with
      | zero => simp [cuts_nil_cons, signAt_zero, hpipe]
      | succ i =>
        rw [Nat.forall_lt_succ_left, signAt_zero]
        simp only [signAt_succ]
        simp [cuts_nil_cons, ih, hhash]
    · cases i with
      | zero => simp [cuts_cons, signAt_zero, hpipe]
      | succ i =>
        rw [Nat.forall_lt_succ_left, signAt_zero]
        simp only [signAt_succ]
        simp [cuts_cons, ih, hhash]

/-! ## Places -/

/-- The place behind the text is outside literals, and no brace is open there; more braces may have been
closed than opened. -/
def TopLevel (front : Text) : Prop := ∃ d, AtDepth front d ∧ d ≤ 0

/-- Position `i` of the line holds a pipe between two alternatives. -/
structure Divides (s : Text) (i : Nat) : Prop where
  /-- It holds a pipe. -/
  pipe : s[i]? = some pipe
  /-- The pipe stands outside literals and blocks. -/
  top : TopLevel (s.take i)
  /-- No hash that starts a comment stands before it. -/
  live : ∀ k < i, s[k]? = some hash → ¬TopLevel (s.take k)

theorem signAt_iff {sign : UInt8} {s : Text} {i : Nat} :
    SignAt sign .code 0 s i ↔ s[i]? = some sign ∧ TopLevel (s.take i) := by
  simp [SignAt, TopLevel, atDepth_iff, unquoted]

theorem divides_iff {s : Text} {i : Nat} :
    Divides s i ↔ SignAt pipe .code 0 s i ∧ ∀ k < i, ¬SignAt hash .code 0 s k := by
  simp only [signAt_iff, not_and]
  exact ⟨fun h => ⟨⟨h.pipe, h.top⟩, h.live⟩, fun h => ⟨h.1.1, h.1.2, h.2⟩⟩

/-! ## Parts -/

theorem join_eq_append_flatMap (sep : UInt8) (first : Text) (later : List Text) :
    join [sep] (first :: later) = first ++ later.flatMap (sep :: ·) := by
  induction later generalizing first with
  | nil => simp [join]
  | cons next later ih => simp [join_cons, ih]

theorem join_alternatives (s : Text) :
    join [pipe] ((alternatives s).1 :: (alternatives s).2) = s := by
  rw [join_eq_append_flatMap, ← alternatives_eq]

/-- The first two parts and the pipe between them are the front of the line. -/
theorem take_first_two {s first second : Text} {others : List Text}
    (h : alternatives s = (first, second :: others)) :
    first.length + 1 + second.length ≤ s.length ∧
      s.take (first.length + 1 + second.length) = first ++ pipe :: second := by
  have hfront : first ++ pipe :: second <+: s := by
    have hs := alternatives_eq s
    rw [h] at hs
    exact ⟨others.flatMap (pipe :: ·), by simpa using hs.symm⟩
  have hlen : (first ++ pipe :: second).length = first.length + 1 + second.length := by
    simp
    omega
  rw [← hlen]
  exact ⟨hfront.length_le, (List.prefix_iff_eq_take.1 hfront).symm⟩

/-- Where a line starts with a pipe, its first alternative keeps the front of the line. -/
theorem head?_readyAlternatives {s first second : Text} {others : List Text}
    (h : alternatives s = (first, second :: others)) (hfirst : isSpaces first = true)
    (header : Bool) :
    (readyAlternatives s header).head? = some (s.take (first.length + 1 + second.length)) := by
  rw [(take_first_two h).2, readyAlternatives, h]
  simp [hfirst]

/-- The alternatives of a line are its parts between pipes, and it is cut at every pipe outside literals
where no brace is open, before the first such hash.  So when the first part is blank and there is a
second one, the front of the line that holds both is there to be taken, and it is the first
alternative that is read. -/
theorem alternatives_cut_at_pipes (s : Text) :
    join [pipe] ((alternatives s).1 :: (alternatives s).2) = s ∧
      (∀ i, i ∈ cuts (alternatives s).1 (alternatives s).2 ↔ Divides s i) ∧
      ∀ first second others, alternatives s = (first, second :: others) → isSpaces first = true →
        first.length + 1 + second.length ≤ s.length ∧
          s.take (first.length + 1 + second.length) = first ++ pipe :: second ∧
          ∀ header, (readyAlternatives s header).head?
            = some (s.take (first.length + 1 + second.length)) := by
  refine ⟨join_alternatives s, fun i => ?_, fun first second others h hfirst => ?_⟩
  · rw [divides_iff]
    exact mem_cuts_alternativesFrom
  · exact ⟨(take_first_two h).1, (take_first_two h).2, head?_readyAlternatives h hfirst⟩

/-- A pipe in front of a literal, a block and a comment that hold pipes too. -/
theorem alternatives_cut_at_pipes_leading :
    alternatives (bytes " | '|' \x7b | \x7d b | c # |")
        = (bytes " ", [bytes " '|' \x7b | \x7d b ", bytes " c # |"]) ∧
      isSpaces (bytes " ") = true ∧
      (bytes " | '|' \x7b | \x7d b | c # |").take (1 + 1 + 13)
        = bytes " | '|' \x7b | \x7d b " ∧
      (readyAlternatives (bytes " | '|' \x7b | \x7d b | c # |") false).head?
        = some (bytes " | '|' \x7b | \x7d b ") := by
  have hparts : alternatives (bytes " | '|' \x7b | \x7d b | c # |")
      = (bytes " ", [bytes " '|' \x7b | \x7d b ", bytes " c # |"]) := by decide
  have hblank : isSpaces (bytes " ") = true := by decide
  obtain ⟨-, -, hfront⟩ := alternatives_cut_at_pipes (bytes " | '|' \x7b | \x7d b | c # |")
  obtain ⟨-, htake, hready⟩ := hfront _ _ _ hparts hblank
  exact ⟨hparts, hblank, htake, (hready false).trans (congrArg some htake)⟩

end GrammarLayout
