import GrammarLayout.Proofs.Grammar.Symbols

/-!
# Lines as they are written

A written document has few kinds of lines: lines that are kept, the header of a
rule, a production alone or with the brace that opens its block, the lines of
the block, and the semicolon.  For each kind this file says what the reader does
with the line, in full: the state before it and the state after it.

What is proved here:

* `Scan.line_verbatim`, `Scan.line_header`, `Scan.line_terminator` — the lines
  between rules, and the first and the last line of a rule;
* `IsProductionLine` — lines with one production, and
  `Scan.line_production`, `Scan.line_opening` — how they are read;
* `Scan.line_content`, `Scan.line_closing` — the lines of a block.
-/

namespace GrammarLayout

open Ascii Text

/-! ## Headers, and lines between rules -/

theorem Rule.exists_header (r : Rule) :
    ∃ w, (∀ c ∈ w, c = space) ∧ r.header = r.name ++ (w ++ [colon]) := by
  refine ⟨List.replicate r.namePadding space ++ if r.colonSpacing then [space] else [], ?_, ?_⟩
  · intro c hc
    rcases List.mem_append.1 hc with hc | hc
    · exact List.eq_of_mem_replicate hc
    · split at hc
      · exact List.mem_singleton.1 hc
      · simp at hc
  · rw [header]
    split
    · simp [show bytes " :" = [space, colon] from rfl]
    · simp [show bytes ":" = [colon] from rfl]

namespace Text

theorem startsWith_eq_false_of_head? {s : Text} {b c : UInt8} (hs : s.head? = some c) (hc : c ≠ b)
    (p : Text) : startsWith (b :: p) s = false := by
  obtain ⟨s', rfl⟩ := List.head?_eq_some_iff.1 hs
  simp [startsWith, List.isPrefixOf, Ne.symm hc]

theorem endsWith_concat_eq_false {b c : UInt8} (h : b ≠ c) (s : Text) :
    endsWith [c] (s ++ [b]) = false := by
  rw [← Bool.not_eq_true, endsWith_singleton_iff]
  rintro ⟨t, ht⟩
  exact h (List.singleton_inj.1 (List.append_inj_right' ht rfl))

/-- A line that does not end with a carriage return. -/
theorem trimTerminator_line {l : Text} (hl : newline ∉ l)
    (hend : l.getLast? ≠ some carriageReturn) : trimTerminator (l ++ [newline]) = l := by
  rw [trimTerminator_concat_newline]
  by_cases hnil : l = []
  · rw [hnil]
    rfl
  · obtain ⟨front, c, rfl⟩ : ∃ front c, l = front ++ [c] :=
      ⟨_, _, (List.dropLast_concat_getLast hnil).symm⟩
    have hc : (c == carriageReturn || c == newline) = false := by
      rw [List.getLast?_concat, Ne, Option.some.injEq] at hend
      simp only [List.mem_append, List.mem_singleton, not_or] at hl
      simp [hend, Ne.symm hl.2]
    exact trimEndWhile_concat hc front

end Text

namespace Scan

variable {closed : List Entry} {r : OpenRule} {n : Nat}

theorem line_of_segment {s next : Scan} {raw : Text}
    (h : { s with lines := s.lines + 1 }.segment raw = .ok (next, none)) :
    s.line raw = .ok next := by
  rw [line, segments, h]
  rfl

/-- A blank line or a comment between two rules is kept. -/
theorem line_verbatim {v : Verbatim} (h : v.isBlank = true ∨ v.isComment = true) :
    (⟨closed, .outside, n⟩ : Scan).line v.text
      = .ok ⟨closed ++ [.verbatim { v with synthetic := false }], .outside, n + 1⟩ := by
  have haside : ((trim (trimTerminator v.text)).isEmpty
      || startsWith [hash] (trim (trimTerminator v.text))) = true := by
    rw [Bool.or_eq_true, isEmpty_trim, startsWith_trim_iff, ← ink_eq_nil_iff, ink_trimTerminator,
      ink_eq_nil_iff, ← startsWith_trim_iff]
    exact h
  refine line_of_segment ?_
  simp only [segment, grammarLine, if_pos haside]
  rfl

/-- A line that starts with a symbol is neither blank nor a comment, and it does not open the
sections after the grammar. -/
theorem aside_of_isEdge {line : Text} {c : UInt8} (hhead : (trim line).head? = some c)
    (hc : isEdge c = true) :
    ((trim line).isEmpty || startsWith [hash] (trim line)) = false ∧
      isFooterMarker line = false := by
  obtain ⟨-, -, hhash, hminus, -⟩ := isEdge_ne hc
  refine ⟨?_, startsWith_eq_false_of_head? hhead hminus _⟩
  rw [Bool.or_eq_false_iff]
  refine ⟨?_, startsWith_eq_false_of_head? hhead hhash []⟩
  obtain ⟨rest, hrest⟩ := List.head?_eq_some_iff.1 hhead
  rw [hrest]
  rfl

/-- The header of a rule opens it. -/
theorem line_header {rule : Rule} (hne : rule.name ≠ [])
    (hword : ∀ c ∈ rule.name, isTokenByte c = true) :
    (⟨closed, .outside, n⟩ : Scan).line (rule.header ++ [newline])
      = .ok ⟨closed, .body ⟨{ name := rule.name, line := n + 1 }, []⟩, n + 1⟩ := by
  obtain ⟨w, hw, hheader⟩ := rule.exists_header
  obtain ⟨c, rest, hname⟩ := List.exists_cons_of_ne_nil hne
  have hc : isEdge c = true := isEdge_of_isTokenByte (hword c (by rw [hname]; simp))
  have hline : trimTerminator (rule.header ++ [newline]) = rule.header := by
    rw [hheader, ← List.append_assoc]
    exact trimTerminator_visible (by decide) _
  have hhead : (trim rule.header).head? = some c := by
    rw [hheader, hname]
    exact head?_trim_append (w := []) rfl (isVisible_of_isEdge hc) _
  obtain ⟨haside, hmarker⟩ := aside_of_isEdge hhead hc
  have hread : header? rule.header = some (rule.name, []) := by
    rw [hheader]
    exact header?_name hne hword hw []
  have htrim : (trim []).isEmpty = true := rfl
  refine line_of_segment ?_
  simp [segment, grammarLine, hline, haside, hmarker, hread, htrim, leave, entries, openRule?]

/-- A line of a rule's body that starts with a symbol holds productions, and perhaps a block. -/
theorem line_body {line : Text} {c : UInt8} {next : Scan}
    (hline : trimTerminator (line ++ [newline]) = line) (hhead : (trim line).head? = some c)
    (hc : isEdge c = true) (hheader : Shielded line) (hend : trim line ≠ bytes "end")
    (hnext : (⟨closed, .body r, n + 1⟩ : Scan).bodyLine r line false = .ok (next, none)) :
    (⟨closed, .body r, n⟩ : Scan).line (line ++ [newline]) = .ok next := by
  obtain ⟨haside, hmarker⟩ := aside_of_isEdge hhead hc
  refine line_of_segment ?_
  simp [segment, grammarLine, hline, haside, hmarker, header?_eq_none hheader, hend, hnext]

end Scan

/-! ## Lines of a rule -/

/-- A line that is read as one production: blanks and a text that starts and ends with symbols. -/
structure IsProductionLine (w core : Text) : Prop where
  /-- The line is indented by blanks. -/
  blanks : ∀ c ∈ w, isBlank c = true
  /-- A symbol or a pipe comes first. -/
  head : ∃ c rest, core = c :: rest ∧ isEdge c = true
  /-- A symbol comes last. -/
  last : ∃ front c, core = front ++ [c] ∧ isEdge c = true
  /-- The line is no header. -/
  shielded : Shielded (w ++ core)
  /-- It is one line. -/
  oneLine : newline ∉ w ++ core
  /-- No block opens on the line. -/
  unbraced : ∀ t, openingBrace? (w ++ core ++ t) = (openingBrace? t).map (· + (w ++ core).length)

theorem IsSymbols.isProductionLine {w p : Text} (hw : ∀ c ∈ w, isBlank c = true)
    (hp : IsSymbols p) : IsProductionLine w p := by
  have hinert : Inert (w ++ p) := (inert_of_blanks hw).append hp.inert
  obtain ⟨c, rest, hhead, hc, -⟩ := hp.head
  exact ⟨hw, ⟨c, rest, hhead, hc⟩, hp.last, hinert.shielded, hinert.newline_notMem,
    hinert.openingBrace?_append⟩

theorem IsSymbols.isProductionLine_pipe {w q : Text} (hw : ∀ c ∈ w, isBlank c = true)
    (hq : IsSymbols q) : IsProductionLine w (pipe :: space :: q) := by
  have hinert : Inert (space :: q) := .byte (Or.inr (by decide)) hq.inert
  obtain ⟨front, b, hlast, hb⟩ := hq.last
  refine ⟨hw, ⟨pipe, space :: q, rfl, by decide⟩,
    ⟨pipe :: space :: front, b, by rw [hlast]; rfl, hb⟩, ?_, ?_, ?_⟩
  · exact (inert_of_blanks hw).shielded.append
      (shielded_cons (by decide) (by decide) (by decide) (by decide) _)
  · rw [List.mem_append, List.mem_cons]
    rintro (hmem | hmem | hmem)
    · exact newline_notMem_of_blanks hw hmem
    · exact absurd hmem (by decide)
    · exact hinert.newline_notMem hmem
  · intro t
    have hpipe : openingBrace? (pipe :: (space :: q ++ t))
        = (openingBrace? (space :: q ++ t)).map (· + 1) := rfl
    rw [List.append_assoc, (inert_of_blanks hw).openingBrace?_append, List.cons_append, hpipe,
      hinert.openingBrace?_append, Option.map_map, Option.map_map]
    congr 1
    funext i
    simp
    omega

theorem IsProductionLine.crisp {w core : Text} (h : IsProductionLine w core) : Crisp core := by
  obtain ⟨c, rest, hhead, hc⟩ := h.head
  obtain ⟨front, b, hlast, hb⟩ := h.last
  exact ⟨⟨c, rest, hhead, isVisible_of_isEdge hc⟩, ⟨front, b, hlast, isVisible_of_isEdge hb⟩⟩

/-- A brace behind a production opens a block that the line does not close. -/
theorem IsProductionLine.unclosedBrace?_eq {w core : Text} (h : IsProductionLine w core) :
    unclosedBrace? (w ++ core ++ [space, openBrace]) = some (w ++ core ++ [space]).length := by
  have hcut : w ++ core ++ [space, openBrace] = w ++ core ++ [space] ++ [openBrace] := by simp
  have hbrace : openingBrace? (w ++ core ++ [space, openBrace])
      = some (w ++ core ++ [space]).length := by
    rw [h.unbraced, show openingBrace? [space, openBrace] = some 1 from rfl]
    simp
    omega
  have hblock : firstBlock? (w ++ core ++ [space, openBrace]) = none := by
    rw [firstBlock?, hbrace, Option.bind_eq_bind, Option.bind_some, matchingBrace?, hcut,
      List.drop_left]
    rfl
  rw [unclosedBrace?_of_firstBlock? hblock, hbrace]

namespace Scan

variable {closed : List Entry} {r : OpenRule} {n : Nat} {w core : Text} {rule : Rule}

/-- A line with one production. -/
theorem line_production (h : IsProductionLine w core) (hend : core ≠ bytes "end")
    (hread : r.rule.readProductions (w ++ core) false = .ok rule) :
    (⟨closed, .body r, n⟩ : Scan).line (w ++ core ++ [newline])
      = .ok ⟨closed, .body { r with rule := rule }, n + 1⟩ := by
  obtain ⟨c, rest, hcore, hc⟩ := h.head
  obtain ⟨hclose, hsemi, -⟩ := isEdge_ne hc
  have htrim : trim (w ++ core) = core := by
    simpa using h.crisp.trim_append (t := []) (isSpaces_of_blanks h.blanks) rfl
  have hhead : (trim (w ++ core)).head? = some c := by rw [htrim, hcore]; rfl
  have hopen : unclosedBrace? (w ++ core) = none := by
    have hbrace : openingBrace? (w ++ core) = none := by
      rw [← List.append_nil (w ++ core)]
      exact h.unbraced []
    rw [unclosedBrace?_of_firstBlock? (firstBlock?_of_openingBrace? hbrace), hbrace]
  have hlast : endsWith [semicolon] (trim (w ++ core)) = false := by
    obtain ⟨front, b, hb, hedge⟩ := h.last
    rw [htrim, hb]
    exact endsWith_concat_eq_false (isEdge_ne hedge).2.1 front
  have hspaces : isSpaces (w ++ core) = false := by
    simpa using h.crisp.isSpaces_append w [] (isSpaces_of_blanks h.blanks)
  have hline : trimTerminator (w ++ core ++ [newline]) = w ++ core := by
    rw [List.append_assoc]
    exact h.crisp.trimEndWhile_append (fun _ => isTerminator_eq_false_of_isVisible) (by simp) w
  refine line_body hline hhead hc h.shielded (by rwa [htrim]) ?_
  simp [bodyLine, startsWith_eq_false_of_head? hhead hclose,
    startsWith_eq_false_of_head? hhead hsemi, hopen, hlast, hspaces, readProductions, hread, withRule]

/-- A line of the body with productions and a block that it leaves open. -/
theorem bodyLine_opening {s : Scan} {line : Text} {i : Nat}
    (hclose : startsWith [closeBrace] (trim line) = false)
    (hsemi : startsWith [semicolon] (trim line) = false) (hbrace : unclosedBrace? line = some i)
    (hbefore : isSpaces (line.take i) = false)
    (hread : r.rule.readProductions (line.take i) false = .ok rule) :
    s.bodyLine r line false = .ok (s.openAction r rule
      (line.drop (trimBlanksEnd (line.take i)).length) (braceBalance (line.drop i)), none) := by
  have hopen : ((unclosedBrace? line).filter fun i => 0 < braceBalance (line.drop i)) = some i := by
    rw [filter_unclosedBrace?_eq, hbrace]
  simp [bodyLine, hclose, hsemi, hopen, hbefore, readProductions, hread]

/-- A line with one production and the brace that opens its block. -/
theorem line_opening (h : IsProductionLine w core)
    (hread : r.rule.readProductions (w ++ core ++ [space]) false = .ok rule) :
    (⟨closed, .body r, n⟩ : Scan).line (w ++ core ++ [space, openBrace] ++ [newline])
      = .ok ⟨closed, .action { r with rule := rule }
          ⟨[space, openBrace], 1, (rule.productions.length : Int) - 1, n + 1⟩, n + 1⟩ := by
  obtain ⟨c, rest, hcore, hc⟩ := h.head
  obtain ⟨hclose, hsemi, -⟩ := isEdge_ne hc
  have hblanks : isSpaces w = true := isSpaces_of_blanks h.blanks
  have hcut : w ++ core ++ [space, openBrace] = w ++ core ++ [space] ++ [openBrace] := by simp
  have hline : trimTerminator (w ++ core ++ [space, openBrace] ++ [newline])
      = w ++ core ++ [space, openBrace] := by
    rw [hcut]
    exact trimTerminator_visible (by decide) _
  have hhead : (trim (w ++ core ++ [space, openBrace])).head? = some c := by
    rw [List.append_assoc, hcore]
    exact head?_trim_append hblanks (isVisible_of_isEdge hc) _
  have hend : trim (w ++ core ++ [space, openBrace]) ≠ bytes "end" := by
    intro heq
    have hmem : openBrace ∈ ink (w ++ core ++ [space, openBrace]) :=
      mem_ink (by decide) (by decide) (by simp)
    rw [← ink_trim, heq] at hmem
    exact absurd (mem_of_mem_ink hmem) (by decide)
  have hbefore : isSpaces (w ++ core ++ [space]) = false := by
    rw [List.append_assoc]
    exact h.crisp.isSpaces_append w [space] hblanks
  have htrim : trimBlanksEnd (w ++ core ++ [space]) = w ++ core := by
    rw [List.append_assoc]
    exact h.crisp.trimEndWhile_append (fun _ => isBlank_eq_false_of_isVisible) (by simp [isBlank]) w
  have hdrop : (w ++ core ++ [space, openBrace]).drop (w ++ core ++ [space]).length
      = [openBrace] := by rw [hcut, List.drop_left]
  have htake : (w ++ core ++ [space, openBrace]).take (w ++ core ++ [space]).length
      = w ++ core ++ [space] := by rw [hcut, List.take_left]
  have hbalance : braceBalance [openBrace] = 1 := by simp
  refine line_body hline hhead hc (h.shielded.append (shielded_of_notMem (by decide))) hend ?_
  rw [← htake] at hbefore hread
  rw [bodyLine_opening (startsWith_eq_false_of_head? hhead hclose [])
    (startsWith_eq_false_of_head? hhead hsemi []) h.unclosedBrace?_eq hbefore hread, htake, htrim,
    List.drop_left, hdrop, hbalance]
  rfl

/-- A line of a block that leaves it open. -/
theorem line_content {text l : Text} {balance owner : Int} {k : Nat} (hl : newline ∉ l)
    (hend : l.getLast? ≠ some carriageReturn) (hbalance : 0 < balance + braceBalance l) :
    (⟨closed, .action r ⟨text, balance, owner, k⟩, n⟩ : Scan).line (l ++ [newline])
      = .ok ⟨closed, .action r ⟨text ++ newline :: l, balance + braceBalance l, owner, k⟩,
          n + 1⟩ := by
  refine line_of_segment ?_
  simp [segment, trimTerminator_line hl hend, actionLine, hbalance, Except.map]

/-- The line that closes a block. -/
theorem line_closing {text : Text} {owner : Int} {k : Nat} (hw : ∀ c ∈ w, isBlank c = true) :
    (⟨closed, .action r ⟨text, 1, owner, k⟩, n⟩ : Scan).line (w ++ [closeBrace] ++ [newline])
      = .ok ⟨closed, .body { r with
            rule := r.rule.addAction ⟨text ++ newline :: (w ++ [closeBrace]), owner, k⟩ },
          n + 1⟩ := by
  have hline : trimTerminator (w ++ [closeBrace] ++ [newline]) = w ++ [closeBrace] :=
    trimTerminator_visible (by decide) w
  have hbalance : (1 : Int) + braceBalance (w ++ [closeBrace]) = 0 := by
    rw [braceBalance_append, braceBalance_of_isSpaces (isSpaces_of_blanks hw)]
    simp
  have hblanks : trimBlanksEnd (w ++ [closeBrace]) = w ++ [closeBrace] :=
    trimEndWhile_concat (by decide) w
  have hend : endsWith [semicolon] (w ++ [closeBrace]) = false :=
    endsWith_concat_eq_false (by decide) w
  have htext : Action.ofText (text ++ newline :: (w ++ [closeBrace])) owner k
      = ⟨text ++ newline :: (w ++ [closeBrace]), owner, k⟩ := by
    have hcut : text ++ newline :: (w ++ [closeBrace])
        = (text ++ newline :: w) ++ [closeBrace] := by simp
    rw [Action.ofText, hcut, trimEndWhile_concat (by decide)]
  refine line_of_segment ?_
  generalize w ++ [closeBrace] = last at hline hbalance hblanks hend htext ⊢
  simp [segment, hline, actionLine, hbalance, hblanks, hend, htext, Except.map, withRule]

/-- The semicolon closes a rule. -/
theorem line_terminator (hw : ∀ c ∈ w, isBlank c = true) :
    (⟨closed, .body ⟨rule, []⟩, n⟩ : Scan).line (w ++ [semicolon] ++ [newline])
      = .ok ⟨closed ++ [.rule rule], .outside, n + 1⟩ := by
  have hline : trimTerminator (w ++ [semicolon] ++ [newline]) = w ++ [semicolon] :=
    trimTerminator_visible (by decide) w
  have htrim : trim (w ++ [semicolon]) = [semicolon] := by
    have hcrisp : Crisp [semicolon] := ⟨⟨_, _, rfl, by decide⟩, ⟨[], _, rfl, by decide⟩⟩
    simpa using hcrisp.trim_append (t := []) (isSpaces_of_blanks hw) rfl
  have hheader : Shielded (w ++ [semicolon]) :=
    (inert_of_blanks hw).shielded.append (shielded_of_notMem (by decide))
  have hmarker : isFooterMarker (w ++ [semicolon]) = false := by
    rw [isFooterMarker, htrim]
    decide
  have hsigns : startsWith [hash] [semicolon] = false ∧
      startsWith [closeBrace] [semicolon] = false ∧ startsWith [semicolon] [semicolon] = true ∧
      [semicolon] ≠ bytes "end" ∧ trim [] = [] := by decide
  refine line_of_segment ?_
  generalize w ++ [semicolon] = line at hline htrim hheader hmarker ⊢
  simp [segment, grammarLine, hline, htrim, hmarker, header?_eq_none hheader, bodyLine, hsigns,
    leave, entries, openRule?, OpenRule.entries, pure, Except.pure]

end Scan

end GrammarLayout
