import GrammarLayout.Proofs.Stable.Legible

/-!
# Lines of a written rule

One lemma for each line that a rule is written with: its header, a production,
the line that opens a block, the lines of the block.  Each says what the reader
makes of the line, from an explicit state.

What is proved here:

* `Scan.line_named` — the header;
* `Scan.line_legible`, `Scan.line_openedBehind` — a production, and a production
  with the start of its block;
* `Scan.line_opened`, `Scan.line_namedOpened` — the start of a block on a line of
  its own, and behind a header;
* `Scan.reads_closing` — the other lines of a block.
-/

namespace GrammarLayout

open Ascii Text

/-! ## Productions -/

theorem alternativesFrom_snd_append {q : Quoting} {d : Int} {s w : Text} (hw : pipe ∉ w)
    (h : (alternativesFrom q d s).2 = []) : (alternativesFrom q d (s ++ w)).2 = [] := by
  induction s generalizing q d with
  | nil =>
    have heq := alternativesFrom_eq q d w
    cases hrest : (alternativesFrom q d w).2 with
    | nil => exact hrest
    | cons x xs =>
      rw [hrest] at heq
      exact absurd (by rw [heq]; simp) hw
  | cons c s ih =>
    rw [List.cons_append, alternativesFrom_cons]
    rw [alternativesFrom_cons] at h
    split_ifs at h ⊢
    · rfl
    · exact ih h

/-- A text is not cut at a pipe when it is not cut between the white space around it. -/
theorem alternatives_eq_self {s : Text} (h : (alternatives (trim s)).2 = []) :
    alternatives s = (s, []) := by
  obtain ⟨w₁, w₂, hs, hw₁, hw₂, -⟩ := trim_split s
  have hpipe : pipe ∉ w₂ := by
    intro hmem
    have hink := pipe_mem_ink hmem
    rw [ink_of_isSpaces hw₂] at hink
    exact absurd hink (by simp)
  have hrest : (alternatives s).2 = [] := by
    rw [hs, alternatives, alternativesFrom_isSpaces_append hw₁]
    exact alternativesFrom_snd_append hpipe h
  have heq := alternatives_eq s
  rw [hrest, List.flatMap_nil, List.append_nil] at heq
  exact Prod.ext heq.symm hrest

/-- A line with no pipe but the one in front holds one alternative. -/
theorem readyAlternatives_eq_self {l : Text} (h : (alternatives (bare l)).2 = []) (header : Bool) :
    readyAlternatives l header = [l] := by
  cases hpipe : hasPipe l with
  | false =>
    rw [bare_of_hasPipe_eq_false hpipe] at h
    rw [readyAlternatives, alternatives_eq_self h]
  | true =>
    obtain ⟨t, ht⟩ := exists_of_hasPipe hpipe
    obtain ⟨w₁, w₂, hl, hw₁, hw₂, -⟩ := trim_split l
    rw [bare_of_trim_eq ht, ← trim_append_of_isSpaces hw₂ t] at h
    rw [ht, List.cons_append] at hl
    have hrest : alternativesFrom .code 0 (t ++ w₂) = (t ++ w₂, []) := alternatives_eq_self h
    have hcut : alternatives l = (w₁, [t ++ w₂]) := by
      rw [hl, alternatives, alternativesFrom_isSpaces_append hw₁, alternativesFrom_cons,
        if_neg (by decide)]
      have hnext : alternativesFrom (Quoting.code.next pipe) (0 + byteDepth .code pipe) (t ++ w₂)
          = (t ++ w₂, []) := hrest
      rw [hnext]
      simp
    simp [readyAlternatives, hcut, hw₁, ← hl]

/-- A line that is read as one production, however it is indented. -/
structure IsLegible (l : Text) : Prop extends IsBodyLine l where
  /-- The end of the line is visible. -/
  visible : EndsVisible l
  /-- No brace closes at the start. -/
  unclosing : (ink l).head? ≠ some closeBrace
  /-- No semicolon stands at the start. -/
  unfinished : (ink l).head? ≠ some semicolon
  /-- No semicolon stands at the end. -/
  unstopped : (ink l).getLast? ≠ some semicolon
  /-- All blocks and literals on the line are complete. -/
  complete : Clear (blockLine l).tail
  /-- No pipe but the one in front divides the line. -/
  uncut : (alternatives (bare l)).2 = []

namespace IsLegible

variable {l v : Text} (h : IsLegible l) (hv : ∀ c ∈ v, isBlank c = true)
include h

theorem isSpaces_eq_false : isSpaces l = false := by
  rw [← Bool.not_eq_true, ← ink_eq_nil_iff]
  exact h.inked

theorem unclosedBrace?_eq_none : unclosedBrace? l = none := by
  rw [unclosedBrace?, Option.map_eq_none_iff]
  exact h.complete.brace

include hv

theorem trimBlanksEnd_append : trimBlanksEnd (l ++ v) = l := by
  rw [trimBlanksEnd, trimEndWhile_append_of_forall hv]
  exact h.visible.trimBlanksEnd

/-- The line is read as its production, which starts with a pipe or is the first. -/
theorem readProductions {r : Rule} (hfirst : hasPipe l = true ∨ r.productions = []) :
    r.readProductions (l ++ v) false
      = .ok (r.addProduction (if hasPipe l then l else trim l)) := by
  have htrim : trim (l ++ v) = trim l := trim_append_of_isSpaces (isSpaces_of_blanks hv) l
  have hbare : bare (l ++ v) = bare l := by rw [bare, htrim, bare]
  have hready : readyAlternatives (l ++ v) false = [l ++ v] :=
    readyAlternatives_eq_self (by rw [hbare]; exact h.uncut) false
  have hink : (trim l).isEmpty = false := by rw [isEmpty_trim, h.isSpaces_eq_false]
  have hheader : header? (trim l) = none := header?_eq_none_of_ink (by rw [ink_trim]; exact h.noHeader)
  have hread : r.readAlternative (l ++ v) false
      = .ok (r.addProduction (if hasPipe l then l else trim l)) := by
    unfold Rule.readAlternative
    simp only [htrim, hink, hasPipe_trim, h.trimBlanksEnd_append hv, hheader]
    cases hpipe : hasPipe l with
    | true => rfl
    | false =>
      have hnil : r.productions = [] := hfirst.resolve_left (by rw [hpipe]; decide)
      simp [hnil]
  rw [Rule.readProductions, hready, List.foldlM_cons, hread]
  rfl

end IsLegible

/-! ## The first line of a block -/

/-- A line that opens a block and does not close it. -/
structure IsOpening (l : Text) : Prop where
  /-- A brace comes first. -/
  opened : l.head? = some openBrace
  /-- Its block is not closed. -/
  unclosed : closingBraceFrom 0 l = none
  /-- It is one line. -/
  single : IsSingleLine l

/-- Behind complete blocks the first open brace is the one that opens the block. -/
theorem IsOpening.unclosedBrace?_append {l₀ : Text} (h₀ : IsOpening l₀) {v : Text}
    (hv : isSpaces v = true) (s : Text) (hs : Clear (blockLine s).tail) :
    unclosedBrace? (s ++ (v ++ l₀)) = some (s ++ v).length := by
  obtain ⟨t, rfl⟩ := List.head?_eq_some_iff.1 h₀.opened
  induction s using firstBlock?_induction with
  | tail s hnone =>
    rw [blockLine_of_firstBlock?_eq_none hnone] at hs
    have hclear : Clear (s ++ v) := hs.append_iff.2 (.of_isSpaces hv)
    have hfirst : firstBlock? (openBrace :: t) = none := by
      rw [firstBlock?, show openingBrace? (openBrace :: t) = some 0 from rfl, Option.bind_eq_bind,
        Option.bind_some, matchingBrace?, List.drop_zero, h₀.unclosed]
      rfl
    have hblock : firstBlock? (s ++ v ++ openBrace :: t) = none := by
      rw [firstBlock?_clear_append hclear, hfirst]
      rfl
    rw [← List.append_assoc, unclosedBrace?_of_firstBlock? hblock, hclear.openingBrace?_append,
      show openingBrace? (openBrace :: t) = some 0 from rfl, Option.map_some, Nat.zero_add]
  | block s b rest hblock ih =>
    rw [blockLine_of_firstBlock? hblock] at hs
    have hlength := (firstBlock?_length hblock).le
    rw [unclosedBrace?_of_block (firstBlock?_append hblock _), ih hs, Option.map_some]
    simp only [List.length_append]
    congr 1
    omega

namespace IsOpening

variable {l v l₀ : Text} (hv : ∀ c ∈ v, isBlank c = true) (h₀ : IsOpening l₀)
include hv h₀

theorem ink_append (l : Text) : ∃ t, l₀ = openBrace :: t ∧
    ink (l ++ (v ++ l₀)) = ink l ++ openBrace :: ink t := by
  obtain ⟨t, rfl⟩ := List.head?_eq_some_iff.1 h₀.opened
  refine ⟨t, rfl, ?_⟩
  rw [← List.append_assoc, ink_append_openBrace, ink_append_spaces fun c hc =>
    isAsciiSpace_of_isBlank (hv c hc)]

theorem isSingleLine_append (h : IsSingleLine l) : IsSingleLine (l ++ (v ++ l₀)) :=
  over_append.2 ⟨h, over_append.2 ⟨isSingleLine_of_blanks hv, h₀.single⟩⟩

/-- The start of a block is read in the body of a rule. -/
theorem isBodyLine : IsBodyLine (v ++ l₀) := by
  obtain ⟨t, rfl, hink⟩ := h₀.ink_append hv []
  have hline : ink (v ++ openBrace :: t) = openBrace :: ink t := hink
  have hsingle : IsSingleLine (v ++ openBrace :: t) := h₀.isSingleLine_append hv over_nil
  refine ⟨hsingle, ?_, ?_, ?_, ?_, ?_⟩ <;> rw [hline]
  · exact List.cons_ne_nil _ _
  · intro hhead
    exact absurd (Option.some.inj hhead) (by decide)
  · rintro ⟨x, hx⟩
    exact absurd (List.cons.inj hx).1 (by decide)
  · exact header?_append_openBrace (s := []) rfl _
  · intro heq
    exact absurd (List.cons.inj heq).1 (by decide)

/-- A line of the body of a rule is one with the start of a block behind it. -/
theorem isBodyLine_append (h : IsBodyLine l) : IsBodyLine (l ++ (v ++ l₀)) := by
  obtain ⟨t, -, hink⟩ := h₀.ink_append hv l
  have hbrace : openBrace ∈ ink (l ++ (v ++ l₀)) := by
    rw [hink]
    simp
  refine ⟨h₀.isSingleLine_append hv h.single, List.ne_nil_of_mem hbrace, ?_, ?_, ?_, ?_⟩
  · rw [hink, List.head?_append_of_ne_nil _ h.inked]
    exact h.noComment
  · rintro ⟨x, hx⟩
    rw [hink] at hx
    rcases List.append_eq_append_iff.1 hx with ⟨y, hy, -⟩ | ⟨y, hy, hrest⟩
    · exact h.noMarker ⟨y, hy.symm⟩
    · cases y with
      | nil => exact h.noMarker ⟨[], by rw [hy]; simp⟩
      | cons c y =>
        obtain ⟨rfl, -⟩ := List.cons.inj hrest
        have hmem : openBrace ∈ bytes "----" := by rw [hy]; simp
        exact absurd hmem (by decide)
  · rw [hink]
    exact header?_append_openBrace h.noHeader _
  · intro heq
    rw [heq] at hbrace
    exact absurd hbrace (by decide)

end IsOpening

namespace Scan

variable {closed : List Entry} {r : OpenRule} {n : Nat} {l l₀ v w : Text} {rule : Rule}

/-! ## Lines read in the body of a rule -/

/-- A line with one production. -/
theorem line_legible (h : IsLegible l) (hread : r.rule.readProductions l false = .ok rule) :
    (⟨closed, .body r, n⟩ : Scan).line (l ++ [newline])
      = .ok ⟨closed, .body { r with rule := rule }, n + 1⟩ := by
  have hend : endsWith [semicolon] (trim l) = false := by
    rw [← Bool.not_eq_true, endsWith_singleton_iff]
    rintro ⟨t, ht⟩
    refine h.unstopped ?_
    have hink : ink (trim l) = ink t ++ [semicolon] := by rw [ht, ink_append_semicolon, ink_nil]
    rw [← ink_trim, hink, List.getLast?_concat]
  refine line_of_isBodyLine h.toIsBodyLine ?_
  simp [bodyLine, startsWith_trim_eq_false h.unclosing, startsWith_trim_eq_false h.unfinished,
    h.unclosedBrace?_eq_none, hend, h.isSpaces_eq_false, readProductions, hread, withRule]

/-- A line with one production and the start of its block. -/
theorem line_openedBehind (h : IsLegible l) (hv : ∀ c ∈ v, isBlank c = true) (h₀ : IsOpening l₀)
    (hread : r.rule.readProductions (l ++ v) false = .ok rule) :
    (⟨closed, .body r, n⟩ : Scan).line (l ++ (v ++ l₀) ++ [newline])
      = .ok ⟨closed, .action { r with rule := rule }
          ⟨v ++ l₀, braceBalance l₀, (rule.productions.length : Int) - 1, n + 1⟩, n + 1⟩ := by
  have hbrace := h₀.unclosedBrace?_append (isSpaces_of_blanks hv) l h.complete
  have htake : (l ++ (v ++ l₀)).take (l ++ v).length = l ++ v := by
    rw [← List.append_assoc, List.take_left]
  have hdrop : (l ++ (v ++ l₀)).drop (l ++ v).length = l₀ := by
    rw [← List.append_assoc, List.drop_left]
  have hhead : ∀ c, (ink l).head? ≠ some c → startsWith [c] (trim (l ++ (v ++ l₀))) = false := by
    intro c hc
    obtain ⟨t, -, hink⟩ := h₀.ink_append hv l
    refine startsWith_trim_eq_false ?_
    rw [hink, List.head?_append_of_ne_nil _ h.inked]
    exact hc
  have hbefore : isSpaces (l ++ v) = false := by
    rw [← Bool.not_eq_true, ← ink_eq_nil_iff, ink_append_spaces fun c hc =>
      isAsciiSpace_of_isBlank (hv c hc)]
    exact h.inked
  refine line_of_isBodyLine (h₀.isBodyLine_append hv h.toIsBodyLine) ?_
  rw [← htake] at hbefore hread
  rw [bodyLine_opening (hhead _ h.unclosing) (hhead _ h.unfinished) hbrace hbefore hread, htake, hdrop,
    h.trimBlanksEnd_append hv, List.drop_left]
  rfl

/-- The start of a block on a line of its own. -/
theorem line_opened (hv : ∀ c ∈ v, isBlank c = true) (h₀ : IsOpening l₀) :
    (⟨closed, .body r, n⟩ : Scan).line (v ++ l₀ ++ [newline])
      = .ok ⟨closed, .action r
          ⟨newline :: (v ++ l₀), braceBalance l₀, (r.rule.productions.length : Int) - 1, n + 1⟩,
          n + 1⟩ := by
  have hbrace : unclosedBrace? (v ++ l₀) = some v.length := by
    simpa using h₀.unclosedBrace?_append (isSpaces_of_blanks hv) [] .nil
  have hopen : ((unclosedBrace? (v ++ l₀)).filter fun i => 0 < braceBalance ((v ++ l₀).drop i))
      = some v.length := by
    rw [filter_unclosedBrace?_eq, hbrace]
  have hhead : ∀ c, c ≠ openBrace → startsWith [c] (trim (v ++ l₀)) = false := by
    intro c hc
    obtain ⟨t, -, hink⟩ := h₀.ink_append hv []
    refine startsWith_trim_eq_false ?_
    rw [show ink (v ++ l₀) = openBrace :: ink t from hink, List.head?_cons, Ne, Option.some.injEq]
    exact Ne.symm hc
  refine line_of_isBodyLine (h₀.isBodyLine hv) ?_
  simp [bodyLine, hhead closeBrace (by decide), hhead semicolon (by decide), hopen,
    isSpaces_of_blanks hv, openAction, pure, Except.pure]

end Scan

/-! ## Headers -/

theorem isSingleLine_of_words {name : Text} (h : ∀ p ∈ pieces name, p.isWord = true) :
    IsSingleLine name := by
  intro c hc
  have hheader : header? (name ++ colon :: []) = some (name, []) :=
    header?_words h (List.ne_nil_of_mem hc) (v := []) (w := []) (by simp) (by simp) []
  have hword := isWordByte_of_mem_name hheader c hc
  refine ⟨?_, ?_⟩ <;> rintro rfl <;> exact absurd (hword (by decide)) (by decide)

theorem isSingleLine_of_spaces {w : Text} (hw : ∀ c ∈ w, c = space) : IsSingleLine w := by
  intro c hc
  rw [hw c hc]
  decide

/-- A header line is neither blank nor a comment, and it does not open the sections after the
grammar. -/
theorem aside_of_words {name : Text} (hname : ∀ p ∈ pieces name, p.isWord = true) (hne : name ≠ [])
    {w : Text} (hw : ∀ c ∈ w, c = space) (rest : Text) :
    isSpaces (name ++ (w ++ colon :: rest)) = false ∧
      startsWith [hash] (trim (name ++ (w ++ colon :: rest))) = false ∧
      isFooterMarker (name ++ (w ++ colon :: rest)) = false := by
  have hspaces : ∀ c ∈ w, isAsciiSpace c = true := by
    intro c hc
    rw [hw c hc]
    decide
  have hink : ink (name ++ (w ++ colon :: rest)) = name ++ colon :: ink rest := by
    rw [← List.append_assoc, ink_append_colon, ink_append_spaces hspaces, ink_of_words hname]
  obtain ⟨b, t, hcons⟩ := List.exists_cons_of_ne_nil hne
  have hb : ∀ c, c < 0x80 → isWordByte c = false → b ≠ c := by
    rintro c hascii hc rfl
    rw [isWordByte_of_head? hname (by rw [hcons]; rfl) hascii] at hc
    exact absurd hc (by decide)
  refine ⟨?_, startsWith_trim_eq_false ?_, isFooterMarker_eq_false ?_⟩
  · rw [← Bool.not_eq_true, ← ink_eq_nil_iff, hink]
    simp
  · rw [hink, hcons, List.cons_append, List.head?_cons, Ne, Option.some.injEq]
    exact hb hash (by decide) (by decide)
  · rintro ⟨x, hx⟩
    rw [hink, hcons] at hx
    exact hb minus (by decide) (by decide) (List.cons.inj hx).1.symm

namespace Scan

variable {closed : List Entry} {r : OpenRule} {n : Nat} {name l₀ v w : Text}
  (hname : ∀ p ∈ pieces name, p.isWord = true) (hne : name ≠ []) (hw : ∀ c ∈ w, c = space)
include hname hne hw

/-- What stands behind the colon of a header is read next. -/
theorem grammarLine_named {rest : Text} (hline : IsSingleLine (name ++ (w ++ colon :: rest)))
    (hcomment : (ink rest).head? ≠ some hash) :
    (⟨closed, .outside, n⟩ : Scan).grammarLine (name ++ (w ++ colon :: rest) ++ [newline])
      = if isSpaces rest then .ok (⟨closed, .body ⟨{ name := name, line := n }, []⟩, n⟩, none)
        else (⟨closed, .body ⟨{ name := name, line := n }, []⟩, n⟩ : Scan).bodyLine
          ⟨{ name := name, line := n }, []⟩ rest true := by
  have hspaces : ∀ c ∈ w, isHeaderSpace c = true := by
    intro c hc
    rw [hw c hc]
    decide
  have hheader : header? (name ++ (w ++ colon :: rest)) = some (name, rest) :=
    header?_words hname hne (v := []) (by simp) hspaces rest
  obtain ⟨hinked, hhash, hmarker⟩ := aside_of_words hname hne hw rest
  have hterm := hline.trimTerminator_eq
  generalize name ++ (w ++ colon :: rest) = line at *
  simp [grammarLine, hterm, hinked, hhash, hmarker, hheader, isEmpty_trim, -List.isEmpty_iff,
    startsWith_trim_eq_false hcomment, leave, entries, openRule?]

/-- The header of a rule opens it. -/
theorem line_named : (⟨closed, .outside, n⟩ : Scan).line (name ++ (w ++ [colon]) ++ [newline])
    = .ok ⟨closed, .body ⟨{ name := name, line := n + 1 }, []⟩, n + 1⟩ := by
  have hline : IsSingleLine (name ++ (w ++ colon :: [])) := by
    refine over_append.2 ⟨isSingleLine_of_words hname, over_append.2 ⟨isSingleLine_of_spaces hw, ?_⟩⟩
    exact over_cons.2 ⟨by decide, over_nil⟩
  refine line_of_segment ?_
  rw [segment, grammarLine_named hname hne hw hline (by decide)]
  rfl

/-- The header of a rule with the start of a block behind it. -/
theorem line_namedOpened (hv : ∀ c ∈ v, isBlank c = true) (h₀ : IsOpening l₀) :
    (⟨closed, .outside, n⟩ : Scan).line (name ++ (w ++ colon :: (v ++ l₀)) ++ [newline])
      = .ok ⟨closed, .action ⟨{ name := name, line := n + 1 }, []⟩
          ⟨v ++ l₀, braceBalance l₀, -1, n + 1⟩, n + 1⟩ := by
  have hrest := h₀.isBodyLine hv
  have hline : IsSingleLine (name ++ (w ++ colon :: (v ++ l₀))) := by
    refine over_append.2 ⟨isSingleLine_of_words hname, over_append.2 ⟨isSingleLine_of_spaces hw, ?_⟩⟩
    exact over_cons.2 ⟨by decide, hrest.single⟩
  have hinked : isSpaces (v ++ l₀) = false := by
    rw [← Bool.not_eq_true, ← ink_eq_nil_iff]
    exact hrest.inked
  have hbrace : unclosedBrace? (v ++ l₀) = some v.length := by
    simpa using h₀.unclosedBrace?_append (isSpaces_of_blanks hv) [] .nil
  have hopen : ((unclosedBrace? (v ++ l₀)).filter fun i => 0 < braceBalance ((v ++ l₀).drop i))
      = some v.length := by
    rw [filter_unclosedBrace?_eq, hbrace]
  have hread : ∀ r : Rule, r.readProductions v true = .ok r := fun r =>
    r.readProductions_of_isSpaces (isSpaces_of_blanks hv) true
  have htrim : trimBlanksEnd v = [] := trimEndWhile_eq_nil_iff.2 hv
  have hhead : ∀ c, c ≠ openBrace → startsWith [c] (trim (v ++ l₀)) = false := by
    intro c hc
    obtain ⟨t, -, hink⟩ := h₀.ink_append hv []
    refine startsWith_trim_eq_false ?_
    rw [show ink (v ++ l₀) = openBrace :: ink t from hink, List.head?_cons, Ne, Option.some.injEq]
    exact Ne.symm hc
  refine line_of_segment ?_
  rw [segment, grammarLine_named hname hne hw hline hrest.noComment, hinked]
  simp [bodyLine, hhead closeBrace (by decide), hhead semicolon (by decide), hopen, hread, htrim,
    readProductions, openAction, pure, Except.pure, bind, Except.bind]

end Scan

/-! ## The other lines of a block -/

/-- With `depth` braces open, the lines close their block with the last of them, and no semicolon
stands behind its last brace. -/
def Closes (depth : Int) : List Text → Prop
  | [] => False
  | [l] => depth + braceBalance l = 0 ∧ ¬ bytes "\x7d;" <:+ ink l
  | l :: next :: ls => 0 < depth + braceBalance l ∧ Closes (depth + braceBalance l) (next :: ls)

theorem Closes.ne_nil {depth : Int} {ls : List Text} (h : Closes depth ls) : ls ≠ [] := by
  rintro rfl
  exact h

namespace Scan

variable (closed : List Entry) (r : OpenRule)

/-- The line that closes a block. -/
theorem line_ending {l : Text} (a : OpenAction) (n : Nat) (hline : IsSingleLine l) (hend : IsEndLine l)
    (hbalance : a.balance + braceBalance l = 0) (hsemicolon : ¬ bytes "\x7d;" <:+ ink l) :
    (⟨closed, .action r a, n⟩ : Scan).line (l ++ [newline])
      = .ok ⟨closed, .body { r with rule := r.rule.addAction ⟨a.text ++ newline :: l, a.owner, a.line⟩ },
          n + 1⟩ := by
  have hblanks : trimBlanksEnd l = l :=
    trimEndWhile_eq_self_of_imp (fun c hc => by rw [isLayout, hc, Bool.true_or, Bool.true_or])
      hend.trimLayout
  have hterminated : (endsWith [semicolon] l
      && endsWith [closeBrace] (trimBlanksEnd (dropEnd [semicolon] l))) = false := by
    rw [← Bool.not_eq_true, Bool.and_eq_true, endsWith_singleton_iff, endsWith_singleton_iff]
    rintro ⟨⟨t, rfl⟩, u, hu⟩
    rw [dropEnd_concat] at hu
    refine hsemicolon ⟨ink u, ?_⟩
    rw [ink_append_semicolon, ← ink_trimBlanksEnd t, hu, ink_append_closeBrace]
    simp [show bytes "\x7d;" = [closeBrace, semicolon] from rfl]
  have htext : Action.ofText (a.text ++ newline :: l) a.owner a.line
      = ⟨a.text ++ newline :: l, a.owner, a.line⟩ := by
    have htrim : trimEndWhile isLayout (a.text ++ [newline] ++ l) = a.text ++ [newline] ++ l := by
      rw [trimEndWhile_append_of_ne_nil (by rw [hend.trimLayout]; exact hend.ne_nil), hend.trimLayout]
    rw [List.append_assoc] at htrim
    exact congrArg (Action.mk · a.owner a.line) htrim
  refine line_of_segment ?_
  simp [segment, hline.trimTerminator_eq, actionLine, hbalance, hblanks, hterminated, htext,
    Except.map, withRule]

/-- The lines of a block are read up to the one that closes it. -/
theorem reads_closing {ls : List Text} (a : OpenAction) (n : Nat) (hcloses : Closes a.balance ls)
    (hlines : ∀ l ∈ ls, IsSingleLine l) (hend : ∀ l ∈ ls.getLast?, IsEndLine l) :
    ∃ n', ∀ rest s', Reads ⟨closed, .body ⟨r.rule.addAction
        ⟨a.text ++ newline :: joinLines ls, a.owner, a.line⟩, r.after⟩, n'⟩ (Text.lines rest) s' →
      Reads ⟨closed, .action r a, n⟩ (Text.lines (joinLines ls ++ newline :: rest)) s' := by
  induction ls generalizing a n with
  | nil => exact hcloses.elim
  | cons l ls ih =>
    have hl := hlines l List.mem_cons_self
    cases ls with
    | nil =>
      refine ⟨n + 1, fun rest s' hrest => ?_⟩
      exact reads_line hl.oneLine (line_ending closed r a n hl (hend l rfl) hcloses.1 hcloses.2) hrest
    | cons next ls =>
      have hjoin := joinLines_cons (List.cons_ne_nil next ls) l
      obtain ⟨n', hn'⟩ := ih ⟨a.text ++ newline :: l, a.balance + braceBalance l, a.owner, a.line⟩ (n + 1)
        hcloses.2 (fun x hx => hlines x (List.mem_cons_of_mem l hx)) hend
      refine ⟨n', fun rest s' hrest => ?_⟩
      rw [hjoin, List.append_assoc, List.cons_append]
      refine reads_line hl.oneLine (line_content hl.oneLine ?_ hcloses.1) (hn' rest s' ?_)
      · exact fun hlast => (isSingleLine_iff.1 hl).2 (List.mem_of_getLast? hlast)
      · rw [hjoin] at hrest
        simpa using hrest

end Scan

end GrammarLayout
