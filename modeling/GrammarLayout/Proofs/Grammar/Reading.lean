import GrammarLayout.Grammar.Parser
import GrammarLayout.Proofs.Except
import GrammarLayout.Proofs.Grammar.Braces
import GrammarLayout.Proofs.Text.Lines

/-!
# What reading one line can do

The reader is a state machine: `Scan.segment` takes a state and a line and
gives the next state, or text after a semicolon that is still to be read.  This
file lists once everything that such a step can do, with the conditions under
which it does it; later files argue from the list and do not open the reader.

What is proved here:

* `Scan.bodyLine_cases` — the five things a line of a rule's body can do;
* `Scan.actionLine_cases` — the three things a line of a block can do;
* `Scan.segment_cases` — the ten things a line can do;
* `Scan.line_lineSteps` — a line is read step after step to its end: the bound
  on the number of steps is never met;
* `Document.parse_cases` — a text is read line after line.
-/

namespace GrammarLayout

open Ascii Text

/-! ## Productions of a line -/

theorem pipe_mem_ink {s : Text} (h : pipe ∈ s) : pipe ∈ ink s := mem_ink (by decide) (by decide) h

theorem alternatives_of_isSpaces {s : Text} (h : isSpaces s = true) : alternatives s = (s, []) := by
  have hs := alternatives_eq s
  cases hrest : (alternatives s).2 with
  | nil =>
    rw [hrest, List.flatMap_nil, List.append_nil] at hs
    exact Prod.ext hs.symm hrest
  | cons p ps =>
    have hmem : pipe ∈ s := by
      rw [hs, hrest, List.flatMap_cons]
      simp
    have := pipe_mem_ink hmem
    rw [ink_of_isSpaces h] at this
    simp at this

/-- What an alternative does to its rule: nothing when it is blank; it starts a production, or it
continues the last one. -/
theorem Rule.readAlternative_cases {r r' : Rule} {text : Text} {header : Bool}
    (h : r.readAlternative text header = .ok r') :
    (isSpaces text = true ∧ r' = r) ∨
    (isSpaces text = false ∧ (r.productions = [] ∨ hasPipe text = true) ∧
      ∃ p, (p = trim text ∨ p = trimBlanksEnd text) ∧ r' = r.addProduction p) ∨
    (isSpaces text = false ∧ r.productions ≠ [] ∧ hasPipe text = false ∧
      r' = r.extendProduction (trim text)) := by
  have hpipe : hasPipe (trim text) = hasPipe text := by
    rw [Bool.eq_iff_iff]
    unfold hasPipe
    rw [startsWith_trim_iff, startsWith_trim_iff, ink_trim]
  simp only [readAlternative, isEmpty_trim, hpipe] at h
  split at h
  · rename_i hblank
    exact Or.inl ⟨hblank, (Except.ok.inj h).symm⟩
  · rename_i hblank
    right
    split at h
    · rename_i hp
      refine Or.inl ⟨by simpa using hblank, Or.inr hp, _, ?_, (Except.ok.inj h).symm⟩
      cases header
      · exact Or.inr rfl
      · exact Or.inl rfl
    · rename_i hp
      split at h
      · rename_i hempty
        split at h
        · exact absurd h (by simp)
        · exact Or.inl ⟨by simpa using hblank, Or.inl (List.isEmpty_iff.1 hempty), _, Or.inl rfl,
            (Except.ok.inj h).symm⟩
      · rename_i hempty
        refine Or.inr ⟨by simpa using hblank, ?_, by simpa using hp, (Except.ok.inj h).symm⟩
        rw [List.isEmpty_iff] at hempty
        exact hempty

/-- A blank line adds no production. -/
theorem Rule.readProductions_of_isSpaces (r : Rule) {text : Text} (h : isSpaces text = true)
    (header : Bool) : r.readProductions text header = .ok r := by
  have hready : readyAlternatives text header = [text] := by
    simp [readyAlternatives, alternatives_of_isSpaces h]
  rw [readProductions, hready]
  simp only [List.foldlM_cons, List.foldlM_nil, readAlternative, isEmpty_trim, h, if_true]
  rfl

namespace Scan

theorem readProductions_eq_ok {s : Scan} {r : OpenRule} {text : Text} {header : Bool} {rule : Rule} :
    s.readProductions r text header = .ok rule ↔ r.rule.readProductions text header = .ok rule := by
  unfold readProductions
  cases r.rule.readProductions text header with
  | ok rule' => simp
  | error fault => simp [fail]

/-- Reading the productions of a line and going on with `k`; a blank line has none to read. -/
theorem readProductions_of_bind {s : Scan} {r : OpenRule} {text : Text} {header : Bool} {α : Type}
    {k : Rule → Except ParseError α} {x : α}
    (h : (if isSpaces text = true then (do let rule ← pure r.rule; k rule)
      else do let rule ← s.readProductions r text header; k rule) = .ok x) :
    ∃ rule, r.rule.readProductions text header = .ok rule ∧ k rule = .ok x := by
  split at h
  · rename_i hblank
    exact ⟨r.rule, r.rule.readProductions_of_isSpaces hblank header, h⟩
  · obtain ⟨rule, hread, hk⟩ := exists_of_bind_eq_ok h
    exact ⟨rule, readProductions_eq_ok.1 hread, hk⟩

/-! ## Lines of a rule's body -/

/-- What a line of a rule's body does: the next state, and the text still to be read. -/
inductive BodyStep (s : Scan) (r : OpenRule) (line : Text) (header : Bool) :
    Scan → Option Text → Prop where
  /-- A semicolon at the start ends the rule; what follows it is read as a line of its own. -/
  | closed {tail : Text} (hsemi : trim line = semicolon :: tail) :
      BodyStep s r line header (s.leave .outside)
        (if (trim tail).isEmpty then none else some (trim tail))
  /-- A block opens on a line of its own. -/
  | opened {i : Nat} (hbrace : unclosedBrace? line = some i)
      (hbalance : 0 < braceBalance (line.drop i)) (hblank : isSpaces (line.take i) = true)
      (hheader : header = false) :
      BodyStep s r line header
        (s.openAction r r.rule (newline :: line) (braceBalance (line.drop i))) none
  /-- A block opens behind productions. -/
  | openedBehind {i : Nat} {rule : Rule} (hsemi : startsWith [semicolon] (trim line) = false)
      (hbrace : unclosedBrace? line = some i)
      (hbalance : 0 < braceBalance (line.drop i))
      (hplace : isSpaces (line.take i) = false ∨ header = true)
      (hread : r.rule.readProductions (line.take i) header = .ok rule) :
      BodyStep s r line header
        (s.openAction r rule (line.drop (trimBlanksEnd (line.take i)).length)
          (braceBalance (line.drop i))) none
  /-- Productions are added. -/
  | productions {rule : Rule} (hsemi : startsWith [semicolon] (trim line) = false)
      (hopen : ((unclosedBrace? line).filter fun i => 0 < braceBalance (line.drop i)) = none)
      (hend : endsWith [semicolon] (trim line) = false)
      (hread : r.rule.readProductions line header = .ok rule) :
      BodyStep s r line header (s.withRule r rule) none
  /-- Productions are added and a semicolon at the end ends the rule. -/
  | terminated {rule : Rule} (hsemi : startsWith [semicolon] (trim line) = false)
      (hopen : ((unclosedBrace? line).filter fun i => 0 < braceBalance (line.drop i)) = none)
      (hend : endsWith [semicolon] (trim line) = true)
      (hread : r.rule.readProductions (dropEnd [semicolon] (trimBlanksEnd line)) header = .ok rule) :
      BodyStep s r line header ((s.withRule r rule).leave .outside) none

theorem bodyLine_cases {s s' : Scan} {r : OpenRule} {line : Text} {header : Bool}
    {rest : Option Text} (h : s.bodyLine r line header = .ok (s', rest)) :
    s.BodyStep r line header s' rest ∧ startsWith [closeBrace] (trim line) = false := by
  simp only [bodyLine] at h
  split at h
  · exact absurd h (by simp [fail])
  · rename_i hclose
    refine ⟨?_, by simpa using hclose⟩
    split at h
    · rename_i hsemi
      obtain ⟨tail, htail⟩ : ∃ tail, trim line = semicolon :: tail := by
        rw [startsWith_singleton_iff] at hsemi
        cases hl : trim line with
        | nil => rw [hl] at hsemi; simp at hsemi
        | cons c tail =>
          rw [hl] at hsemi
          obtain rfl : c = semicolon := by simpa using hsemi
          exact ⟨tail, rfl⟩
      rw [htail] at h
      simp only [List.drop_succ_cons, List.drop_zero, pure, Except.pure, Except.ok.injEq,
        Prod.mk.injEq] at h
      obtain ⟨rfl, rfl⟩ := h
      exact .closed htail
    · rename_i hsemi
      rw [Bool.not_eq_true] at hsemi
      split at h
      · rename_i i hi
        rw [Option.filter_eq_some_iff] at hi
        have hbalance : 0 < braceBalance (line.drop i) := by simpa using hi.2
        split at h
        · rename_i hblank
          simp only [Bool.and_eq_true, Bool.not_eq_eq_eq_not, Bool.not_true] at hblank
          simp only [pure, Except.pure, Except.ok.injEq, Prod.mk.injEq] at h
          obtain ⟨rfl, rfl⟩ := h
          exact .opened hi.1 hbalance hblank.1 hblank.2
        · rename_i hplace
          simp only [Bool.and_eq_true, Bool.not_eq_eq_eq_not, Bool.not_true, not_and_or,
            Bool.not_eq_true, Bool.not_eq_false] at hplace
          obtain ⟨rule, hread, hnext⟩ := exists_of_bind_eq_ok h
          simp only [pure, Except.pure, Except.ok.injEq, Prod.mk.injEq] at hnext
          obtain ⟨rfl, rfl⟩ := hnext
          exact .openedBehind hsemi hi.1 hbalance hplace (readProductions_eq_ok.1 hread)
      · rename_i hopen
        by_cases hend : endsWith [semicolon] (trim line) = true
        · rw [if_pos hend] at h
          obtain ⟨rule, hread, hnext⟩ := readProductions_of_bind h
          simp only [hend, if_true, pure, Except.pure, Except.ok.injEq, Prod.mk.injEq] at hnext
          obtain ⟨rfl, rfl⟩ := hnext
          exact .terminated hsemi hopen hend hread
        · rw [if_neg hend] at h
          obtain ⟨rule, hread, hnext⟩ := readProductions_of_bind h
          simp only [hend, pure, Except.pure, Except.ok.injEq, Prod.mk.injEq] at hnext
          obtain ⟨rfl, rfl⟩ := hnext
          exact .productions hsemi hopen (by simpa using hend) hread

/-! ## Lines of a block -/

/-- What a line of a block does. -/
inductive ActionStep (s : Scan) (r : OpenRule) (a : OpenAction) (line : Text) : Scan → Prop where
  /-- The block goes on. -/
  | longer (hbalance : 0 < a.balance + braceBalance line) :
      ActionStep s r a line
        { s with
          mode := .action r
            { a with text := a.text ++ newline :: line, balance := a.balance + braceBalance line } }
  /-- The block ends, and no semicolon behind a brace ends the rule. -/
  | closed (hbalance : a.balance + braceBalance line = 0)
      (hend : ∀ last, trimBlanksEnd line = last ++ [semicolon] →
        endsWith [closeBrace] (trimBlanksEnd last) = false) :
      ActionStep s r a line
        (s.withRule r
          (r.rule.addAction (Action.ofText (a.text ++ newline :: trimBlanksEnd line) a.owner a.line)))
  /-- The block ends, and a semicolon behind its last brace ends the rule. -/
  | terminated {last : Text} (hbalance : a.balance + braceBalance line = 0)
      (hlast : trimBlanksEnd line = last ++ [semicolon])
      (hbrace : endsWith [closeBrace] (trimBlanksEnd last) = true) :
      ActionStep s r a line
        ((s.withRule r
          (r.rule.addAction (Action.ofText (a.text ++ newline :: last) a.owner a.line))).leave
            .outside)

theorem actionLine_cases {s s' : Scan} {r : OpenRule} {a : OpenAction} {line : Text}
    (h : s.actionLine r a line = .ok s') : s.ActionStep r a line s' := by
  simp only [actionLine] at h
  split at h
  · rename_i hbalance
    rw [Except.ok.injEq] at h
    rw [← h]
    exact .longer hbalance
  · split at h
    · exact absurd h (by simp [fail])
    · have hbalance : a.balance + braceBalance line = 0 := by omega
      rw [Except.ok.injEq] at h
      rw [← h]
      split
      · rename_i hterm
        rw [Bool.and_eq_true] at hterm
        obtain ⟨last, hlast⟩ := endsWith_singleton_iff.1 hterm.1
        have hbrace := hterm.2
        rw [hlast, dropEnd_concat] at hbrace ⊢
        exact .terminated hbalance hlast hbrace
      · rename_i hterm
        refine .closed hbalance fun last hlast => ?_
        rw [hlast, dropEnd_concat, endsWith_singleton_iff.2 ⟨last, rfl⟩, Bool.true_and] at hterm
        simpa using hterm

/-! ## Lines -/

/-- The rule that a header opens. -/
def newRule (s : Scan) (name : Text) : OpenRule := ⟨{ name := name, line := s.lines }, []⟩

/-- What a line does: the next state, and the text still to be read. -/
inductive Step (s : Scan) (raw : Text) : Scan → Option Text → Prop where
  /-- In the sections after the grammar every line is kept. -/
  | footer (hmode : s.mode = .footer) : Step s raw (s.keep raw) none
  /-- A line of a block. -/
  | action {r : OpenRule} {a : OpenAction} {s' : Scan} (hmode : s.mode = .action r a)
      (hstep : s.ActionStep r a (trimTerminator raw) s') : Step s raw s' none
  /-- A blank line or a comment is kept. -/
  | aside (hmode : s.mode = .outside ∨ ∃ r, s.mode = .body r)
      (hline : isSpaces (trimTerminator raw) = true ∨
        startsWith [hash] (trim (trimTerminator raw)) = true) : Step s raw (s.keep raw) none
  /-- The sections after the grammar begin. -/
  | marker (hmode : s.mode = .outside ∨ ∃ r, s.mode = .body r)
      (hline : isFooterMarker (trimTerminator raw) = true) :
      Step s raw ((s.leave .footer).keep raw) none
  /-- A header with nothing behind its colon. -/
  | header {name rest : Text} (hmode : s.mode = .outside ∨ ∃ r, s.mode = .body r)
      (hheader : header? (trimTerminator raw) = some (name, rest))
      (hrest : isSpaces rest = true) :
      Step s raw (s.leave (.body (s.newRule name))) none
  /-- A header with a comment behind its colon. -/
  | headerComment {name rest : Text} (hmode : s.mode = .outside ∨ ∃ r, s.mode = .body r)
      (hheader : header? (trimTerminator raw) = some (name, rest))
      (hrest : startsWith [hash] (trim rest) = true) :
      Step s raw ((s.leave (.body (s.newRule name))).keep (trim rest ++ [newline])) none
  /-- A header with productions behind its colon. -/
  | headerBody {name rest : Text} {s' : Scan} {t : Option Text}
      (hmode : s.mode = .outside ∨ ∃ r, s.mode = .body r)
      (hheader : header? (trimTerminator raw) = some (name, rest))
      (hrest : isSpaces rest = false)
      (hstep : (s.leave (.body (s.newRule name))).BodyStep (s.newRule name) rest true s' t) :
      Step s raw s' t
  /-- The word that ends the grammar. -/
  | stop {r : OpenRule} (hmode : s.mode = .body r)
      (hline : trim (trimTerminator raw) = bytes "end") :
      Step s raw ((s.leave .outside).keep raw) none
  /-- Other lines outside every rule are kept. -/
  | outside (hmode : s.mode = .outside) (hheader : header? (trimTerminator raw) = none)
      (hmarker : isFooterMarker (trimTerminator raw) = false) : Step s raw (s.keep raw) none
  /-- A line of a rule's body. -/
  | body {r : OpenRule} {s' : Scan} {t : Option Text} (hmode : s.mode = .body r)
      (hink : isSpaces (trimTerminator raw) = false)
      (hcomment : startsWith [hash] (trim (trimTerminator raw)) = false)
      (hmarker : isFooterMarker (trimTerminator raw) = false)
      (hheader : header? (trimTerminator raw) = none)
      (hend : trim (trimTerminator raw) ≠ bytes "end")
      (hstep : s.BodyStep r (trimTerminator raw) false s' t) : Step s raw s' t

theorem grammarLine_cases {s s' : Scan} {raw : Text} {t : Option Text}
    (hmode : s.mode = .outside ∨ ∃ r, s.mode = .body r) (h : s.grammarLine raw = .ok (s', t)) :
    s.Step raw s' t := by
  simp only [grammarLine, isEmpty_trim] at h
  split at h
  · rename_i hline
    simp only [Except.ok.injEq, Prod.mk.injEq] at h
    obtain ⟨rfl, rfl⟩ := h
    exact .aside hmode (by simpa using hline)
  · rename_i hline
    simp only [Bool.or_eq_true, not_or, Bool.not_eq_true] at hline
    split at h
    · rename_i hmarker
      simp only [Except.ok.injEq, Prod.mk.injEq] at h
      obtain ⟨rfl, rfl⟩ := h
      exact .marker hmode hmarker
    · rename_i hmarker
      split at h
      · rename_i name rest hheader
        split at h
        · rename_i hrest
          simp only [Except.ok.injEq, Prod.mk.injEq] at h
          obtain ⟨rfl, rfl⟩ := h
          exact .header hmode hheader hrest
        · rename_i hrest
          split at h
          · rename_i hcomment
            simp only [Except.ok.injEq, Prod.mk.injEq] at h
            obtain ⟨rfl, rfl⟩ := h
            exact .headerComment hmode hheader hcomment
          · exact .headerBody hmode hheader (by simpa using hrest) (bodyLine_cases h).1
      · rename_i hheader
        split at h
        · rename_i r hr
          split at h
          · rename_i hend
            simp only [Except.ok.injEq, Prod.mk.injEq] at h
            obtain ⟨rfl, rfl⟩ := h
            exact .stop hr hend
          · rename_i hend
            exact .body hr hline.1 hline.2 (by simpa using hmarker) hheader hend
              (bodyLine_cases h).1
        · rename_i hbody
          simp only [Except.ok.injEq, Prod.mk.injEq] at h
          obtain ⟨rfl, rfl⟩ := h
          refine .outside ?_ hheader (by simpa using hmarker)
          rcases hmode with ho | ⟨r, hr⟩
          · exact ho
          · exact absurd hr (hbody r)

/-- Everything that reading a line can do. -/
theorem segment_cases {s s' : Scan} {raw : Text} {t : Option Text}
    (h : s.segment raw = .ok (s', t)) : s.Step raw s' t := by
  unfold segment at h
  split at h
  · rename_i hmode
    simp only [Except.ok.injEq, Prod.mk.injEq] at h
    obtain ⟨rfl, rfl⟩ := h
    exact .footer hmode
  · rename_i r a hmode
    cases hline : s.actionLine r a (trimTerminator raw) with
    | error e => rw [hline] at h; exact absurd h (by simp [Except.map])
    | ok next =>
      rw [hline] at h
      simp only [Except.map, Except.ok.injEq, Prod.mk.injEq] at h
      obtain ⟨rfl, rfl⟩ := h
      exact .action hmode (actionLine_cases hline)
  · rename_i hfooter haction
    refine grammarLine_cases ?_ h
    cases hmode : s.mode with
    | outside => exact Or.inl rfl
    | body r => exact Or.inr ⟨r, rfl⟩
    | action r a => exact absurd hmode (haction r a)
    | footer => exact absurd hmode hfooter

end Scan

/-! ## Headers -/

theorem isAsciiSpace_of_isHeaderSpace {c : UInt8} (h : isHeaderSpace c = true) :
    isAsciiSpace c = true := by
  simp only [isHeaderSpace, Bool.or_eq_true, beq_iff_eq] at h
  rcases h with (((rfl | rfl) | rfl) | rfl) | rfl <;> decide

/-- A header is a name and a colon between blanks, and what follows. -/
theorem header?_parts {line name rest : Text} (h : header? line = some (name, rest)) :
    ∃ w₁ w₂, line = w₁ ++ (name ++ (w₂ ++ colon :: rest)) ∧
      (∀ c ∈ w₁, isHeaderSpace c = true) ∧ (∀ c ∈ w₂, isHeaderSpace c = true) ∧ name ≠ [] := by
  simp only [header?] at h
  split at h
  · exact absurd h (by simp)
  · rename_i c after hafter
    split at h
    · rename_i hcolon
      simp only [Option.some.injEq, Prod.mk.injEq] at h
      obtain ⟨hname, rfl⟩ := h
      simp only [Bool.and_eq_true, Bool.not_eq_eq_eq_not, Bool.not_true, decide_eq_true_eq] at hcolon
      set start := line.dropWhile isHeaderSpace with hstart
      have hcut : pieces start = (pieces start).takeWhile Piece.isWord
          ++ (pieces start).dropWhile Piece.isWord := (List.takeWhile_append_dropWhile).symm
      obtain ⟨hsplit, -, -⟩ := pieces_ofPieces_append hcut
      rw [hname] at hsplit hafter hcolon
      have hdrop : start.drop name.length = ofPieces ((pieces start).dropWhile Piece.isWord) := by
        conv => lhs; rw [hsplit]
        exact List.drop_left
      rw [hdrop] at hafter
      refine ⟨line.takeWhile isHeaderSpace,
        (ofPieces ((pieces start).dropWhile Piece.isWord)).takeWhile isHeaderSpace, ?_, ?_, ?_, ?_⟩
      · rw [← hcolon.2, ← hafter, List.takeWhile_append_dropWhile, ← hsplit, hstart,
          List.takeWhile_append_dropWhile]
      · exact fun x hx => List.mem_takeWhile_imp hx
      · exact fun x hx => List.mem_takeWhile_imp hx
      · simpa using hcolon.1
    · exact absurd h (by simp)

theorem header?_eq {line name rest : Text} (h : header? line = some (name, rest)) :
    ∃ w₁ w₂, line = w₁ ++ (name ++ (w₂ ++ colon :: rest)) ∧
      (∀ c ∈ w₁, isAsciiSpace c = true) ∧ (∀ c ∈ w₂, isAsciiSpace c = true) ∧ name ≠ [] := by
  obtain ⟨w₁, w₂, hline, hw₁, hw₂, hne⟩ := header?_parts h
  exact ⟨w₁, w₂, hline, fun c hc => isAsciiSpace_of_isHeaderSpace (hw₁ c hc),
    fun c hc => isAsciiSpace_of_isHeaderSpace (hw₂ c hc), hne⟩

theorem header?_length {line name rest : Text} (h : header? line = some (name, rest)) :
    rest.length < line.length := by
  obtain ⟨w₁, w₂, hline, -⟩ := header?_eq h
  rw [hline]
  simp
  omega

/-! ## Whole lines -/

namespace Text

theorem length_trimEndWhile_le (p : UInt8 → Bool) (s : Text) :
    (trimEndWhile p s).length ≤ s.length := by
  rw [trimEndWhile, List.length_reverse]
  exact (List.dropWhile_sublist p).length_le.trans (by rw [List.length_reverse])

theorem length_trim_le (s : Text) : (trim s).length ≤ s.length := by
  obtain ⟨w₁, w₂, hs, -⟩ := trim_split s
  conv => rhs; rw [hs]
  simp
  omega

end Text

namespace Scan

theorem BodyStep.length_lt {s s' : Scan} {r : OpenRule} {line rest : Text} {header : Bool}
    (h : s.BodyStep r line header s' (some rest)) : rest.length < line.length := by
  generalize ht : some rest = t at h
  cases h with
  | closed hsemi =>
    split at ht
    · exact absurd ht (by simp)
    · rename_i tail _
      obtain rfl : rest = trim tail := by simpa using ht
      have h1 := length_trim_le tail
      have h2 := length_trim_le line
      rw [hsemi, List.length_cons] at h2
      omega
  | opened => exact absurd ht (by simp)
  | openedBehind => exact absurd ht (by simp)
  | productions => exact absurd ht (by simp)
  | terminated => exact absurd ht (by simp)

/-- What is left of a line is shorter than the line. -/
theorem Step.length_lt {s s' : Scan} {raw rest : Text} (h : s.Step raw s' (some rest)) :
    rest.length < (trimTerminator raw).length := by
  cases h with
  | headerBody _ hheader _ hstep => exact hstep.length_lt.trans (header?_length hheader)
  | body _ _ _ _ _ _ hstep => exact hstep.length_lt

theorem Step.length_trimTerminator_lt {s s' : Scan} {raw rest : Text}
    (h : s.Step raw s' (some rest)) :
    (trimTerminator (rest ++ [newline])).length < (trimTerminator raw).length := by
  rw [trimTerminator_concat_newline]
  exact (length_trimEndWhile_le _ rest).trans_lt h.length_lt

theorem BodyStep.mem_rest {s s' : Scan} {r : OpenRule} {line : Text} {header : Bool}
    {t : Option Text} (h : s.BodyStep r line header s' t) : ∀ c ∈ t.getD [], c ∈ line := by
  intro c hc
  cases h with
  | @closed tail hsemi =>
    split at hc
    · simp at hc
    · refine mem_of_mem_trim (s := line) ?_
      rw [hsemi]
      exact List.mem_cons_of_mem _ (mem_of_mem_trim hc)
  | opened => simp at hc
  | openedBehind => simp at hc
  | productions => simp at hc
  | terminated => simp at hc

/-- What is left of a line stands in it. -/
theorem Step.mem_rest {s s' : Scan} {raw : Text} {t : Option Text} (h : s.Step raw s' t) :
    ∀ c ∈ t.getD [], c ∈ trimTerminator raw := by
  intro c hc
  cases h with
  | headerBody _ hheader _ hstep =>
    obtain ⟨w₁, w₂, hline, -⟩ := header?_eq hheader
    rw [hline]
    simp [hstep.mem_rest c hc]
  | body _ _ _ _ _ _ hstep => exact hstep.mem_rest c hc
  | _ => simp at hc

/-- A line read to its end, step after step. -/
inductive LineSteps : Scan → Text → Scan → Prop where
  /-- The step that uses the line up. -/
  | last {s s' : Scan} {raw : Text} : s.Step raw s' none → LineSteps s raw s'
  /-- A step that leaves text to be read. -/
  | more {s next s' : Scan} {raw rest : Text} : s.Step raw next (some rest) →
      LineSteps next (rest ++ [newline]) s' → LineSteps s raw s'

/-- The bound on the number of steps is never met. -/
theorem segments_lineSteps (fuel : Nat) {s s' : Scan} {raw : Text}
    (hfuel : (trimTerminator raw).length < fuel) (h : segments fuel s raw = .ok s') :
    LineSteps s raw s' := by
  induction fuel generalizing s raw with
  | zero => omega
  | succ fuel ih =>
    rw [segments] at h
    obtain ⟨⟨next, t⟩, hseg, hnext⟩ := exists_of_bind_eq_ok h
    have hstep := segment_cases hseg
    cases t with
    | none =>
      rw [← Except.ok.inj hnext]
      exact .last hstep
    | some rest =>
      have hlt := hstep.length_trimTerminator_lt
      exact .more hstep (ih (by omega) hnext)

theorem line_lineSteps {s s' : Scan} {raw : Text} (h : s.line raw = .ok s') :
    LineSteps { s with lines := s.lines + 1 } raw s' := by
  refine segments_lineSteps (raw.length + 1) ?_ h
  exact Nat.lt_succ_of_le (length_trimEndWhile_le _ raw)

/-- Lines read one after the other. -/
inductive Reads : Scan → List Text → Scan → Prop where
  /-- No line is left. -/
  | nil (s : Scan) : Reads s [] s
  /-- The first line is read, then the others. -/
  | cons {s next s' : Scan} {l : Text} {ls : List Text} : s.line l = .ok next →
      Reads next ls s' → Reads s (l :: ls) s'

/-- The first line of which `p` holds, in the state before it is read. -/
def findLine? (p : Scan → Text → Bool) (s : Scan) : List Text → Option Text
  | [] => none
  | l :: ls =>
      if p s l then some l
      else
        match s.line l with
        | .ok next => findLine? p next ls
        | .error _ => none

theorem findLine?_cons_eq_none {p : Scan → Text → Bool} {s next : Scan} {l : Text}
    {ls : List Text} (hline : s.line l = .ok next) :
    findLine? p s (l :: ls) = none ↔ p s l = false ∧ findLine? p next ls = none := by
  rw [findLine?, hline]
  by_cases hp : p s l = true
  · simp [hp]
  · simp [hp]

theorem reads_of_foldlM {ls : List Text} {s s' : Scan} (h : ls.foldlM Scan.line s = .ok s') :
    Reads s ls s' := by
  induction ls generalizing s with
  | nil =>
    rw [← Except.ok.inj h]
    exact .nil s
  | cons l ls ih =>
    rw [List.foldlM_cons] at h
    obtain ⟨next, hline, hnext⟩ := exists_of_bind_eq_ok h
    exact .cons hline (ih hnext)

end Scan

/-- A document is what the reader has when its lines are used up, outside every block. -/
theorem Document.parse_cases {text : Text} {d : Document} (h : Document.parse text = .ok d) :
    ∃ s, Scan.Reads Scan.start (lines text) s ∧ d.entries = s.entries ∧
      ∀ r a, s.mode ≠ .action r a := by
  obtain ⟨s, hrun, hfinish⟩ := exists_of_bind_eq_ok h
  refine ⟨s, Scan.reads_of_foldlM hrun, ?_⟩
  simp only [Scan.finish] at hfinish
  split at hfinish
  · exact absurd hfinish (by simp)
  · rename_i hmode
    rw [← Except.ok.inj hfinish]
    exact ⟨rfl, hmode⟩

end GrammarLayout
