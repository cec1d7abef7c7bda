import GrammarLayout.Proofs.Forall2
import GrammarLayout.Proofs.Grammar.Blocks
import GrammarLayout.Proofs.Grammar.Shape
import GrammarLayout.Proofs.Pass.Relaid
import GrammarLayout.Proofs.Text.Trim

/-!
# Reading a text with other indentation

Two texts whose grammar lines differ in their indentation only are read in
lockstep: line after line the reader is in the same place, has failed in the
same way, or has the same entries, but for the indentation that it stored in
alternatives and in front of blocks.

What is proved here:

* `header?_blanks_append`, `unclosedBrace?_blanks_append`, … — what the scans of
  a line find is found behind blanks too, and is moved by their number;
* `Scan.Shifted.segment_agree`, `Scan.Shifted.line_agree` — one step and one line
  of the two readers;
* `Document.parse_agree` — the two documents, or the same error.
-/

namespace GrammarLayout

open Ascii Text

/-! ## Lines behind blanks -/

theorem Text.Shifted.dropEnd {s t : Text} {c : UInt8} (hc : isBlank c = false) (h : Shifted s t) :
    Shifted (Text.dropEnd [c] s) (Text.dropEnd [c] t) := by
  obtain ⟨w, w', rest, rfl, rfl, hw, hw'⟩ := h.exists_append
  have hkept : ∀ {u : Text}, (∀ v, u ≠ v ++ [c]) → Text.dropEnd [c] u = u := by
    intro u hu
    rw [Text.dropEnd, if_neg]
    rw [endsWith_singleton_iff]
    rintro ⟨v, hv⟩
    exact hu v hv
  rcases List.eq_nil_or_concat rest with rfl | ⟨rest, d, rfl⟩
  · have hblanks : ∀ {w : Text}, (∀ c ∈ w, isBlank c = true) → ∀ v, w ++ [] ≠ v ++ [c] := by
      intro w hw v hv
      have := hw c (by rw [← List.append_nil w, hv]; simp)
      rw [hc] at this
      exact absurd this (by simp)
    rw [hkept (hblanks hw), hkept (hblanks hw')]
    exact shifted_append hw hw' []
  · rw [List.concat_eq_append, ← List.append_assoc, ← List.append_assoc]
    by_cases hd : d = c
    · rw [hd, dropEnd_concat, dropEnd_concat]
      exact shifted_append hw hw' rest
    · have hlast : ∀ u v : Text, u ++ [d] ≠ v ++ [c] := fun u v huv =>
        hd (List.append_singleton_inj.1 huv).2
      rw [hkept (hlast _), hkept (hlast _), List.append_assoc, List.append_assoc]
      exact shifted_append hw hw' _

section Blanks

variable {w : Text} (hw : ∀ c ∈ w, isBlank c = true) (s : Text)
include hw

theorem header?_blanks_append : header? (w ++ s) = header? s := by
  have hstart : (w ++ s).dropWhile isHeaderSpace = s.dropWhile isHeaderSpace := by
    refine List.dropWhile_append_of_pos fun c hc => ?_
    have := hw c hc
    simp only [isBlank, Bool.or_eq_true, beq_iff_eq] at this
    rcases this with rfl | rfl <;> decide
  simp only [header?, hstart]

omit s in
theorem clear_of_blanks : Clear w := .of_isSpaces (isSpaces_of_blanks hw)

/-- The first block, with the blanks in front of it. -/
theorem firstBlock?_blanks_append :
    firstBlock? (w ++ s) = (firstBlock? s).map fun b => (⟨w ++ b.1.before, b.1.inner⟩, b.2) :=
  firstBlock?_clear_append (clear_of_blanks hw) s

end Blanks

/-- The unclosed block, moved by the number of blanks. -/
theorem unclosedBrace?_blanks_append {w : Text} (hw : ∀ c ∈ w, isBlank c = true) (s : Text) :
    unclosedBrace? (w ++ s) = (unclosedBrace? s).map (· + w.length) := by
  cases hblock : firstBlock? s with
  | none =>
    have hboth : firstBlock? (w ++ s) = none := by rw [firstBlock?_blanks_append hw, hblock]; rfl
    simp only [unclosedBrace?, blockLine_of_firstBlock?_eq_none hblock,
      blockLine_of_firstBlock?_eq_none hboth, Nat.sub_self, (clear_of_blanks hw).openingBrace?_append,
      Option.map_map]
    rfl
  | some found =>
    obtain ⟨b, rest⟩ := found
    have hboth : firstBlock? (w ++ s) = some (⟨w ++ b.before, b.inner⟩, rest) := by
      rw [firstBlock?_blanks_append hw, hblock]
      rfl
    have hlen := firstBlock?_length hblock
    rw [unclosedBrace?_of_block hboth, unclosedBrace?_of_block hblock, Option.map_map]
    congr 1
    funext k
    simp only [Function.comp_apply, List.length_append]
    omega

theorem alternatives_blanks_append {w : Text} (hw : ∀ c ∈ w, isBlank c = true) (s : Text) :
    alternatives (w ++ s) = (w ++ (alternatives s).1, (alternatives s).2) := by
  unfold alternatives
  induction w with
  | nil => rfl
  | cons c w ih =>
    have hc := hw c List.mem_cons_self
    have hplain : isQuote c = false ∧ c ≠ openBrace ∧ c ≠ closeBrace ∧ c ≠ hash ∧ c ≠ pipe := by
      simp only [isBlank, Bool.or_eq_true, beq_iff_eq] at hc
      rcases hc with rfl | rfl <;> decide
    obtain ⟨hquote, hopen, hclose, hhash, hpipe⟩ := hplain
    rw [List.cons_append, alternativesFrom]
    simp only [hquote, hopen, hclose, hhash, hpipe, ih fun x hx => hw x (List.mem_cons_of_mem c hx),
      false_and, or_self, if_false, ne_eq, not_true_eq_false, Bool.false_eq_true, List.cons_append]

/-! ## Rules -/

/-- The two texts hold the same block, behind texts without a brace. -/
def SameBlock (t t' : Text) : Prop :=
  ∃ lead lead' rest, t = lead ++ openBrace :: rest ∧ t' = lead' ++ openBrace :: rest ∧
    openBrace ∉ lead ∧ openBrace ∉ lead'

theorem SameBlock.refl {t : Text} (h : openBrace ∈ t) : SameBlock t t := by
  obtain ⟨lead, rest, rfl, hlead⟩ := List.eq_append_cons_of_mem h
  exact ⟨lead, lead, rest, rfl, rfl, hlead, hlead⟩

theorem SameBlock.append {t t' : Text} (h : SameBlock t t') (x : Text) :
    SameBlock (t ++ x) (t' ++ x) := by
  obtain ⟨lead, lead', rest, rfl, rfl, hlead, hlead'⟩ := h
  exact ⟨lead, lead', rest ++ x, by simp, by simp, hlead, hlead'⟩

/-- The two actions are the same but for the layout in front of their blocks. -/
structure Action.Shifted (a a' : Action) : Prop where
  /-- They follow the same production. -/
  owner : a'.owner = a.owner
  /-- They were read from the same line. -/
  line : a'.line = a.line
  /-- Their blocks are the same. -/
  body : a'.body = a.body

theorem SameBlock.shifted_ofText {t t' : Text} (h : SameBlock t t') (owner line : Int) :
    (Action.ofText t owner line).Shifted (Action.ofText t' owner line) := by
  obtain ⟨lead, lead', rest, rfl, rfl, hlead, hlead'⟩ := h
  have hbody : ∀ {lead : Text}, openBrace ∉ lead →
      (Action.ofText (lead ++ openBrace :: rest) owner line).body
        = openBrace :: trimEndWhile isLayout rest := by
    intro lead hlead
    have hlayout : isLayout openBrace = false := by decide
    have hskip : ∀ c ∈ lead, (c != openBrace) = true := by
      intro c hc
      rw [bne_iff_ne]
      rintro rfl
      exact hlead hc
    rw [Action.body, Action.ofText, trimEndWhile_append_cons hlayout, if_pos (by simp),
      List.dropWhile_append_of_pos hskip]
    simp
  exact ⟨rfl, rfl, by rw [hbody hlead, hbody hlead']⟩

/-- The two rules are the same but for the indentation of their alternatives and the layout in front
of their blocks. -/
structure Rule.Shifted (r r' : Rule) : Prop where
  /-- All else is the same. -/
  same : r' = { r with productions := r'.productions, actions := r'.actions }
  /-- The productions are the same but for the blanks in front. -/
  productions : List.Forall₂ Text.Shifted r.productions r'.productions
  /-- The actions hold the same blocks. -/
  actions : List.Forall₂ Action.Shifted r.actions r'.actions

namespace Rule.Shifted

variable {r r' : Rule}

theorem refl (r : Rule) : r.Shifted r :=
  ⟨rfl, List.forall₂_same.2 fun p _ => Text.Shifted.refl p,
    List.forall₂_same.2 fun _ _ => ⟨rfl, rfl, rfl⟩⟩

theorem name (h : r.Shifted r') : r'.name = r.name := by rw [h.same]

theorem addProduction (h : r.Shifted r') {p p' : Text} (hp : Text.Shifted p p') :
    (r.addProduction p).Shifted (r'.addProduction p') := by
  refine ⟨?_, List.rel_append h.productions (.cons hp .nil), h.actions⟩
  rw [Rule.addProduction, h.same]
  rfl

theorem addAction (h : r.Shifted r') {a a' : Action} (ha : a.Shifted a') :
    (r.addAction a).Shifted (r'.addAction a') := by
  refine ⟨?_, h.productions, List.rel_append h.actions (.cons ha .nil)⟩
  rw [Rule.addAction, h.same]
  rfl

theorem extendProduction (h : r.Shifted r') (t : Text) :
    (r.extendProduction t).Shifted (r'.extendProduction t) := by
  have hproductions := h.productions
  rcases List.eq_nil_or_concat r.productions with hnil | ⟨ps, p, hps⟩
  · rw [hnil, List.forall₂_nil_left_iff] at hproductions
    simp only [Rule.extendProduction, hnil, hproductions, List.getLast?_nil]
    exact h.addProduction (Text.Shifted.refl t)
  · rw [List.concat_eq_append] at hps
    rw [hps] at hproductions
    obtain ⟨ps', p', hps', hinit, hlast⟩ := exists_of_forall₂_concat hproductions
    simp only [Rule.extendProduction, hps, hps', List.getLast?_concat, List.dropLast_concat]
    refine ⟨by rw [h.same], List.rel_append hinit (.cons ?_ .nil), h.actions⟩
    exact hlast.trimBlanksEnd.append _

theorem readAlternative_agree (h : r.Shifted r') {t t' : Text} (ht : Text.Shifted t t')
    (header : Bool) :
    Agree Rule.Shifted (r.readAlternative t header) (r'.readAlternative t' header) := by
  have hempty : r'.productions.isEmpty = r.productions.isEmpty := by
    rw [Bool.eq_iff_iff, List.isEmpty_iff_length_eq_zero, List.isEmpty_iff_length_eq_zero,
      h.productions.length_eq]
  simp only [Rule.readAlternative, ← ht.trim_eq, hempty, h.name]
  split
  · exact .ok h
  · split
    · refine .ok (h.addProduction ?_)
      cases header
      · exact ht.trimBlanksEnd
      · exact Text.Shifted.refl _
    · split
      · split
        · exact .error _
        · exact .ok (h.addProduction (Text.Shifted.refl _))
      · exact .ok (h.extendProduction _)

end Rule.Shifted

/-- The alternatives of a line, with the indentation of the line. -/
theorem readyAlternatives_shifted {t t' : Text} (h : Text.Shifted t t') (header : Bool) :
    List.Forall₂ Text.Shifted (readyAlternatives t header) (readyAlternatives t' header) := by
  obtain ⟨w, w', rest, rfl, rfl, hw, hw'⟩ := h.exists_append
  have hlater : ∀ indent indent' alt : Text, (∀ c ∈ indent, isBlank c = true) →
      (∀ c ∈ indent', isBlank c = true) →
      Text.Shifted (trimEndWhile (· == space) (indent ++ bytes "| " ++ trim alt))
        (trimEndWhile (· == space) (indent' ++ bytes "| " ++ trim alt)) := by
    intro indent indent' alt hi hi'
    have hpipe : ∀ x : Text, x ++ bytes "| " ++ trim alt = x ++ pipe :: (space :: trim alt) :=
      fun x => by rw [show bytes "| " = [pipe, space] from rfl]; simp
    rw [hpipe, hpipe, trimEndWhile_append_cons (by decide), trimEndWhile_append_cons (by decide)]
    exact shifted_append hi hi' _
  have hindent : ∀ t : Text, ∀ c ∈ (if header then [] else leadingBlanks t), isBlank c = true := by
    intro t c hc
    split at hc
    · simp at hc
    · exact List.mem_takeWhile_imp hc
  have hmap : ∀ alts : List Text, List.Forall₂ Text.Shifted
      (alts.map fun alt => trimEndWhile (· == space)
        ((if header then [] else leadingBlanks (w ++ rest)) ++ bytes "| " ++ trim alt))
      (alts.map fun alt => trimEndWhile (· == space)
        ((if header then [] else leadingBlanks (w' ++ rest)) ++ bytes "| " ++ trim alt)) := by
    intro alts
    rw [List.forall₂_map_left_iff, List.forall₂_map_right_iff]
    exact List.forall₂_same.2 fun alt _ => hlater _ _ alt (hindent _) (hindent _)
  simp only [readyAlternatives, alternatives_blanks_append hw, alternatives_blanks_append hw',
    isSpaces_blanks_append hw, isSpaces_blanks_append hw']
  have hfirst := shifted_append hw hw' (alternatives rest).1
  cases (alternatives rest).2 with
  | nil => exact .cons hfirst .nil
  | cons second others =>
    simp only
    split
    · exact .cons (hfirst.append _) (hmap others)
    · exact .cons hfirst (hmap (second :: others))

theorem Rule.Shifted.readProductions_agree {r r' : Rule} (h : r.Shifted r') {t t' : Text}
    (ht : Text.Shifted t t') (header : Bool) :
    Agree Rule.Shifted (r.readProductions t header) (r'.readProductions t' header) :=
  Agree.foldlM (fun _ _ _ _ hr ha => hr.readAlternative_agree ha header)
    (readyAlternatives_shifted ht header) h

/-! ## Readers -/

/-- The two open rules are the same but for stored indentation. -/
structure OpenRule.Shifted (r r' : OpenRule) : Prop where
  /-- The rules so far. -/
  rule : r.rule.Shifted r'.rule
  /-- The lines kept behind them. -/
  after : r'.after = r.after

/-- The two open blocks are the same but for the layout in front of them. -/
structure OpenAction.Shifted (a a' : OpenAction) : Prop where
  /-- The texts so far. -/
  text : SameBlock a.text a'.text
  /-- All else is the same. -/
  same : a' = { a with text := a'.text }

/-- The two readers are in the same place. -/
inductive Mode.Shifted : Mode → Mode → Prop where
  /-- Outside every rule. -/
  | outside : Mode.Shifted .outside .outside
  /-- In the body of a rule. -/
  | body {r r' : OpenRule} (h : r.Shifted r') : Mode.Shifted (.body r) (.body r')
  /-- In a block. -/
  | action {r r' : OpenRule} {a a' : OpenAction} (h : r.Shifted r') (ha : a.Shifted a') :
      Mode.Shifted (.action r a) (.action r' a')
  /-- In the sections after the grammar. -/
  | footer : Mode.Shifted .footer .footer

/-- The entries of the two documents are the same but for stored indentation. -/
def ShiftedEntries : List Entry → List Entry → Prop := List.Forall₂ (Entry.Relaid Rule.Shifted)

theorem ShiftedEntries.refl (es : List Entry) : ShiftedEntries es es :=
  List.forall₂_same.2 fun e _ => by
    cases e with
    | verbatim v => exact .verbatim v
    | rule r => exact .rule (Rule.Shifted.refl r)

/-- The two readers have read the same but for stored indentation. -/
structure Scan.Shifted (s s' : Scan) : Prop where
  /-- The entries before the open rule. -/
  closed : ShiftedEntries s.closed s'.closed
  /-- Where they are. -/
  mode : s.mode.Shifted s'.mode
  /-- The number of lines. -/
  lines : s'.lines = s.lines

namespace Scan.Shifted

variable {s s' : Scan} {r r' : OpenRule}

theorem entries (h : s.Shifted s') : ShiftedEntries s.entries s'.entries := by
  have hopen : ∀ {r r' : OpenRule}, r.Shifted r' →
      ShiftedEntries (s.closed ++ r.entries) (s'.closed ++ r'.entries) := by
    intro r r' hr
    refine List.rel_append h.closed (.cons (.rule hr.rule) ?_)
    rw [hr.after]
    exact ShiftedEntries.refl _
  obtain ⟨closed, mode, lines⟩ := s
  obtain ⟨closed', mode', lines'⟩ := s'
  have hmode := h.mode
  simp only at hmode
  cases hmode with
  | outside => simpa [Scan.entries, openRule?] using h.closed
  | footer => simpa [Scan.entries, openRule?] using h.closed
  | body hr => exact hopen hr
  | action hr => exact hopen hr

theorem leave (h : s.Shifted s') {m m' : Mode} (hm : m.Shifted m') :
    (s.leave m).Shifted (s'.leave m') := ⟨h.entries, hm, h.lines⟩

theorem keep (h : s.Shifted s') (raw : Text) : (s.keep raw).Shifted (s'.keep raw) := by
  obtain ⟨closed, mode, lines⟩ := s
  obtain ⟨closed', mode', lines'⟩ := s'
  have hmode := h.mode
  have hclosed : ShiftedEntries (closed ++ [.verbatim ⟨raw, false⟩])
      (closed' ++ [.verbatim ⟨raw, false⟩]) := List.rel_append h.closed (.cons (.verbatim _) .nil)
  simp only at hmode
  cases hmode with
  | outside => exact ⟨hclosed, .outside, h.lines⟩
  | footer => exact ⟨hclosed, .footer, h.lines⟩
  | body hr => exact ⟨h.closed, .body ⟨hr.rule, by simp [hr.after]⟩, h.lines⟩
  | action hr ha => exact ⟨h.closed, .action ⟨hr.rule, by simp [hr.after]⟩ ha, h.lines⟩

theorem withRule (h : s.Shifted s') (hr : r.Shifted r') {rule rule' : Rule}
    (hrule : rule.Shifted rule') : (s.withRule r rule).Shifted (s'.withRule r' rule') :=
  ⟨h.closed, .body ⟨hrule, hr.after⟩, h.lines⟩

theorem openAction (h : s.Shifted s') (hr : r.Shifted r') {rule rule' : Rule}
    (hrule : rule.Shifted rule') {t t' : Text} (ht : SameBlock t t') (balance : Int) :
    (s.openAction r rule t balance).Shifted (s'.openAction r' rule' t' balance) := by
  refine ⟨h.closed, .action ⟨hrule, hr.after⟩ ⟨ht, ?_⟩, h.lines⟩
  simp only [hrule.productions.length_eq, h.lines]

theorem readProductions_agree (h : s.Shifted s') (hr : r.Shifted r') {t t' : Text}
    (ht : Text.Shifted t t') (header : Bool) :
    Agree Rule.Shifted (s.readProductions r t header) (s'.readProductions r' t' header) := by
  have hagree := hr.rule.readProductions_agree ht header
  unfold Scan.readProductions
  generalize r.rule.readProductions t header = x at hagree
  generalize r'.rule.readProductions t' header = y at hagree
  cases hagree with
  | error e =>
    simp only [fail, h.lines]
    exact .error _
  | ok hrule => exact .ok hrule

/-- What the two readers give after a step: related states, and the same text still to be read. -/
def Next (x y : Scan × Option Text) : Prop := x.1.Shifted y.1 ∧ y.2 = x.2

/-- An unclosed block of a line, seen from a line with other blanks in front. -/
theorem filter_unclosedBrace? {w : Text} (hw : ∀ c ∈ w, isBlank c = true) (rest : Text) :
    (unclosedBrace? (w ++ rest)).filter (fun i => 0 < braceBalance ((w ++ rest).drop i))
      = ((unclosedBrace? rest).filter fun i => 0 < braceBalance (rest.drop i)).map
          (· + w.length) := by
  rw [filter_unclosedBrace?_eq, filter_unclosedBrace?_eq, unclosedBrace?_blanks_append hw]

/-- The text that opens a block, with other blanks in front of the line. -/
theorem sameBlock_drop (w w' : Text) {rest tail : Text} {i : Nat}
    (hrest : rest.drop i = openBrace :: tail) :
    SameBlock ((w ++ rest).drop (Text.trimBlanksEnd ((w ++ rest).take (i + w.length))).length)
      ((w' ++ rest).drop (Text.trimBlanksEnd ((w' ++ rest).take (i + w'.length))).length) := by
  have hlead : ∀ w : Text, ∃ u, openBrace ∉ u ∧
      (w ++ rest).drop (Text.trimBlanksEnd ((w ++ rest).take (i + w.length))).length
        = u ++ openBrace :: tail := by
    intro w
    obtain ⟨u, hu, hcut⟩ := exists_drop_trimBlanksEnd (w ++ rest) (i + w.length)
    refine ⟨u, Action.openBrace_notMem_of_isSpaces hu, ?_⟩
    rw [hcut, Nat.add_comm, List.drop_length_add_append, hrest]
  obtain ⟨u, hu, hcut⟩ := hlead w
  obtain ⟨u', hu', hcut'⟩ := hlead w'
  exact ⟨u, u', tail, hcut, hcut', hu, hu'⟩

/-- A line that opens a block, with other blanks in front. -/
theorem opening_agree (h : s.Shifted s') (hr : r.Shifted r') {w w' rest : Text} {i : Nat}
    (hw : ∀ c ∈ w, isBlank c = true) (hw' : ∀ c ∈ w', isBlank c = true)
    (hbrace : unclosedBrace? rest = some i) (header : Bool) (balance : Int) :
    Agree Next
      (if isSpaces ((w ++ rest).take (i + w.length)) && !header then
        .ok (s.openAction r r.rule (newline :: (w ++ rest)) balance, none)
      else do
        let rule ← s.readProductions r ((w ++ rest).take (i + w.length)) header
        .ok (s.openAction r rule
          ((w ++ rest).drop (Text.trimBlanksEnd ((w ++ rest).take (i + w.length))).length)
          balance, none))
      (if isSpaces ((w' ++ rest).take (i + w'.length)) && !header then
        .ok (s'.openAction r' r'.rule (newline :: (w' ++ rest)) balance, none)
      else do
        let rule ← s'.readProductions r' ((w' ++ rest).take (i + w'.length)) header
        .ok (s'.openAction r' rule
          ((w' ++ rest).drop (Text.trimBlanksEnd ((w' ++ rest).take (i + w'.length))).length)
          balance, none)) := by
  obtain ⟨tail, hdrop⟩ := exists_drop_unclosedBrace? hbrace
  have htake : ∀ w : Text, (w ++ rest).take (i + w.length) = w ++ rest.take i := by
    intro w
    rw [Nat.add_comm, List.take_length_add_append]
  have hbefore := shifted_append hw hw' (rest.take i)
  have hblock := sameBlock_drop w w' hdrop
  rw [htake, htake] at hblock ⊢
  rw [hbefore.isSpaces_eq]
  split
  · rename_i hblank
    rw [Bool.and_eq_true] at hblank
    refine .ok ⟨h.openAction hr hr.rule ?_ balance, rfl⟩
    -- What stands before the brace is white space, so it is the first brace of both lines.
    have hline : ∀ w : Text, newline :: (w ++ rest)
        = (newline :: (w ++ rest.take i)) ++ openBrace :: tail := by
      intro w
      rw [List.cons_append, List.append_assoc, ← hdrop, List.take_append_drop]
    have hnone : ∀ {w : Text}, isSpaces (w ++ rest.take i) = true →
        openBrace ∉ newline :: (w ++ rest.take i) := fun hspaces =>
      List.not_mem_cons_of_ne_of_not_mem (by decide) (Action.openBrace_notMem_of_isSpaces hspaces)
    exact ⟨_, _, tail, hline w, hline w', hnone (hbefore.isSpaces_eq.trans hblank.1),
      hnone hblank.1⟩
  · exact (h.readProductions_agree hr hbefore header).bind fun rule rule' hrule =>
      .ok ⟨h.openAction hr hrule hblock balance, rfl⟩

/-- Reading the productions of a line and going on; a blank line has none to read. -/
theorem readProductions_bind (h : s.Shifted s') (hr : r.Shifted r') {t t' : Text}
    (ht : Text.Shifted t t') (header : Bool) {k k' : Rule → Except ParseError (Scan × Option Text)}
    (hk : ∀ rule rule', rule.Shifted rule' → Agree Next (k rule) (k' rule')) :
    Agree Next
      (if isSpaces t = true then (do let rule ← pure r.rule; k rule)
        else do let rule ← s.readProductions r t header; k rule)
      (if isSpaces t' = true then (do let rule ← pure r'.rule; k' rule)
        else do let rule ← s'.readProductions r' t' header; k' rule) := by
  rw [ht.isSpaces_eq]
  split
  · exact hk _ _ hr.rule
  · exact (h.readProductions_agree hr ht header).bind hk

/-- One line of a rule's body, with other blanks in front. -/
theorem bodyLine_agree (h : s.Shifted s') (hr : r.Shifted r') {line line' : Text}
    (hline : Text.Shifted line line') (header : Bool) :
    Agree Next (s.bodyLine r line header) (s'.bodyLine r' line' header) := by
  simp only [Scan.bodyLine, ← hline.trim_eq]
  split
  · simp only [fail, h.lines, hr.rule.name]
    exact .error _
  · split
    · exact .ok ⟨h.leave .outside, rfl⟩
    · have htext : Text.Shifted
          (if endsWith [semicolon] (trim line) then Text.dropEnd [semicolon] (Text.trimBlanksEnd line)
            else line)
          (if endsWith [semicolon] (trim line) then Text.dropEnd [semicolon] (Text.trimBlanksEnd line')
            else line') := by
        split
        · exact hline.trimBlanksEnd.dropEnd (by decide)
        · exact hline
      obtain ⟨w, w', rest, rfl, rfl, hw, hw'⟩ := hline.exists_append
      rw [filter_unclosedBrace? hw, filter_unclosedBrace? hw']
      cases hopen : (unclosedBrace? rest).filter fun i => 0 < braceBalance (rest.drop i) with
      | none =>
        refine h.readProductions_bind hr htext header fun rule rule' hrule => .ok ⟨?_, rfl⟩
        simp only
        split
        · exact (h.withRule hr hrule).leave .outside
        · exact h.withRule hr hrule
      | some i =>
        rw [Option.filter_eq_some_iff] at hopen
        have hdrop : ∀ w : Text, (w ++ rest).drop (i + w.length) = rest.drop i := by
          intro w
          rw [Nat.add_comm, List.drop_length_add_append]
        simp only [Option.map_some, hdrop]
        exact h.opening_agree hr hw hw' hopen.1 header (braceBalance (rest.drop i))

/-! ### Lines -/

/-- One line of a block. -/
theorem actionLine_agree (h : s.Shifted s') (hr : r.Shifted r') {a a' : OpenAction}
    (ha : a.Shifted a') (line : Text) :
    Agree Shifted (s.actionLine r a line) (s'.actionLine r' a' line) := by
  have hbalance : a'.balance = a.balance := by rw [ha.same]
  simp only [Scan.actionLine, hbalance]
  split
  · refine .ok ⟨h.closed, .action hr ⟨ha.text.append _, ?_⟩, h.lines⟩
    rw [ha.same]
  · split
    · simp only [fail, h.lines, hr.rule.name]
      exact .error _
    · have howner : a'.owner = a.owner := by rw [ha.same]
      have hline : a'.line = a.line := by rw [ha.same]
      rw [howner, hline]
      have hnext := fun last : Text => h.withRule hr
        (hr.rule.addAction ((ha.text.append (newline :: last)).shifted_ofText a.owner a.line))
      refine .ok ?_
      split
      · exact (hnext _).leave .outside
      · exact hnext _

/-- A line outside every block.  When it is kept as it is, it has to be the same. -/
theorem grammarLine_agree (h : s.Shifted s') {raw raw' : Text} (hshifted : Text.Shifted raw raw')
    (hkept : raw' = raw ∨ ∀ next, s.grammarLine raw = .ok (next, none) →
      next.entries ≠ s.entries ++ [.verbatim ⟨raw, false⟩]) :
    Agree Next (s.grammarLine raw) (s'.grammarLine raw') := by
  have hline := hshifted.trimTerminator
  have hheader : header? (Text.trimTerminator raw') = header? (Text.trimTerminator raw) := by
    obtain ⟨w, w', rest, hw₀, hw₀', hw, hw'⟩ := hline.exists_append
    rw [hw₀, hw₀', header?_blanks_append hw, header?_blanks_append hw']
  have hkeep : ∀ {k k' : Scan}, k.Shifted k' → k.entries = s.entries →
      s.grammarLine raw = .ok (k.keep raw, none) →
      Agree (ε := ParseError) Next (.ok (k.keep raw, none)) (.ok (k'.keep raw', none)) := by
    intro k k' hk hentries hread
    rcases hkept with heq | hnot
    · rw [heq]
      exact .ok ⟨hk.keep raw, rfl⟩
    · refine absurd ?_ (hnot _ hread)
      rw [entries_keep, hentries]
  clear hkept
  simp only [Scan.grammarLine, isFooterMarker, ← hline.trim_eq, hheader] at hkeep ⊢
  by_cases haside : (trim (Text.trimTerminator raw)).isEmpty
      || startsWith [hash] (trim (Text.trimTerminator raw))
  · simp only [haside, if_true] at hkeep ⊢
    exact hkeep h rfl rfl
  · by_cases hmarker : startsWith (bytes "----") (trim (Text.trimTerminator raw))
    · simp only [haside, hmarker, if_true] at hkeep ⊢
      exact hkeep (h.leave .footer) (s.entries_leave (.inr rfl)) rfl
    · simp only [haside, hmarker, Bool.false_eq_true, if_false] at hkeep ⊢
      cases hhead : header? (Text.trimTerminator raw) with
      | some parts =>
        obtain ⟨name, rest⟩ := parts
        have hrule : (s.newRule name).Shifted (s'.newRule name) := by
          rw [newRule, newRule, h.lines]
          exact ⟨Rule.Shifted.refl _, rfl⟩
        have hnext := h.leave (.body hrule)
        simp only
        split
        · exact .ok ⟨hnext, rfl⟩
        · split
          · exact .ok ⟨hnext.keep _, rfl⟩
          · exact hnext.bodyLine_agree hrule (Text.Shifted.refl rest) true
      | none =>
        rw [hhead] at hkeep
        obtain ⟨closed, mode, lines⟩ := s
        obtain ⟨closed', mode', lines'⟩ := s'
        have hmode := h.mode
        simp only at hmode
        cases hmode with
        | outside => exact hkeep h rfl rfl
        | footer => exact hkeep h rfl rfl
        | action => exact hkeep h rfl rfl
        | body hr =>
          by_cases hend : trim (Text.trimTerminator raw) = bytes "end"
          · simp only [hend, if_true] at hkeep ⊢
            exact hkeep (h.leave .outside) (entries_leave _ (.inl rfl)) rfl
          · simp only [hend, if_false]
            exact h.bodyLine_agree hr hline false

/-- One step of the two readers.  A line of a block has to be the same, and so has one that is kept
as it is. -/
theorem segment_agree (h : s.Shifted s') {raw raw' : Text} (hshifted : Text.Shifted raw raw')
    (hmovable : raw' = raw ∨ (∀ r a, s.mode ≠ .action r a) ∧ ∀ next,
      s.segment raw = .ok (next, none) → next.entries ≠ s.entries ++ [.verbatim ⟨raw, false⟩]) :
    Agree Next (s.segment raw) (s'.segment raw') := by
  obtain ⟨closed, mode, lines⟩ := s
  obtain ⟨closed', mode', lines'⟩ := s'
  have hmode := h.mode
  simp only at hmode
  cases hmode with
  | outside => exact h.grammarLine_agree hshifted (hmovable.imp_right And.right)
  | body => exact h.grammarLine_agree hshifted (hmovable.imp_right And.right)
  | footer =>
    rcases hmovable with rfl | ⟨-, hnot⟩
    · exact .ok ⟨h.keep _, rfl⟩
    · exact absurd (entries_keep _ raw) (hnot _ rfl)
  | action hr ha =>
    rcases hmovable with rfl | ⟨hnot, -⟩
    · exact (h.actionLine_agree hr ha _).map fun _ _ hnext => ⟨hnext, rfl⟩
    · exact absurd rfl (hnot _ _)

/-- A line is read to its end when its rest is. -/
theorem segments_succ_agree {fuel fuel' : Nat} {raw raw' : Text}
    (h : Agree Next (s.segment raw) (s'.segment raw'))
    (hrest : ∀ next next' rest, s.segment raw = .ok (next, some rest) →
      s'.segment raw' = .ok (next', some rest) → next.Shifted next' →
      Agree Shifted (segments fuel next (rest ++ [newline]))
        (segments fuel' next' (rest ++ [newline]))) :
    Agree Shifted (segments (fuel + 1) s raw) (segments (fuel' + 1) s' raw') := by
  rw [segments, segments]
  refine h.bind_of_eq fun a b ha hb hab => ?_
  obtain ⟨next, t⟩ := a
  obtain ⟨next', t'⟩ := b
  obtain ⟨hnext, rfl⟩ : next.Shifted next' ∧ t' = t := hab
  cases t' with
  | none => exact .ok hnext
  | some rest => exact hrest next next' rest ha hb hnext

/-- The same text is read alike. -/
theorem segments_agree (fuel fuel' : Nat) (h : s.Shifted s') {raw : Text}
    (hfuel : (Text.trimTerminator raw).length < fuel)
    (hfuel' : (Text.trimTerminator raw).length < fuel') :
    Agree Shifted (segments fuel s raw) (segments fuel' s' raw) := by
  induction fuel generalizing fuel' s s' raw with
  | zero => omega
  | succ fuel ih =>
    obtain ⟨fuel', rfl⟩ : ∃ n, fuel' = n + 1 := ⟨fuel' - 1, by omega⟩
    refine segments_succ_agree (h.segment_agree (Text.Shifted.refl raw) (Or.inl rfl)) ?_
    intro next next' rest hseg _ hnext
    have hlt := (segment_cases hseg).length_trimTerminator_lt
    exact ih fuel' hnext (by omega) (by omega)

end Scan.Shifted

namespace Scan

variable {s s' : Scan}

/-- The reader keeps the line as it is. -/
def Keeps (s : Scan) (raw : Text) : Prop :=
  ∃ next, s.line raw = .ok next ∧ next.entries = s.entries ++ [.verbatim ⟨raw, false⟩]

/-- The reader is outside every block and does not keep the line as it is: it is a header, a
production, a line that opens a block, or one that ends a rule. -/
structure Movable (s : Scan) (raw : Text) : Prop where
  /-- The line is not part of a block. -/
  outside : ∀ r a, s.mode ≠ .action r a
  /-- The line is not kept. -/
  notKept : ¬ s.Keeps raw

instance (s : Scan) (raw : Text) : Decidable (s.Keeps raw) :=
  match h : s.line raw with
  | .ok next =>
      decidable_of_iff (next.entries = s.entries ++ [.verbatim ⟨raw, false⟩]) (by simp [Keeps, h])
  | .error _ => isFalse (by simp [Keeps, h])

instance (s : Scan) (raw : Text) : Decidable (s.Movable raw) :=
  have hiff : s.Movable raw ↔ (∀ r a, s.mode ≠ .action r a) ∧ ¬ s.Keeps raw :=
    ⟨fun h => ⟨h.outside, h.notKept⟩, fun h => ⟨h.1, h.2⟩⟩
  match h : s.mode with
  | .action _ _ => isFalse (by simp [hiff, h])
  | .outside | .body _ | .footer => decidable_of_iff (¬ s.Keeps raw) (by simp [hiff, h])

/-- The line is movable where the reader is after the lines `ls`. -/
def MovableAfter (s : Scan) (ls : List Text) (raw : Text) : Prop :=
  ∃ next, ls.foldlM Scan.line s = .ok next ∧ next.Movable raw

instance (s : Scan) (ls : List Text) (raw : Text) : Decidable (s.MovableAfter ls raw) :=
  match h : ls.foldlM Scan.line s with
  | .ok next => decidable_of_iff (next.Movable raw) (by simp [MovableAfter, h])
  | .error _ => isFalse (by simp [MovableAfter, h])

/-- One whole line of the two readers. -/
theorem Shifted.line_agree (h : s.Shifted s') {raw raw' : Text}
    (hraw : raw' = raw ∨ Text.Shifted raw raw' ∧ s.Movable raw) :
    Agree Shifted (s.line raw) (s'.line raw') := by
  have hbegun : Scan.Shifted { s with lines := s.lines + 1 } { s' with lines := s'.lines + 1 } :=
    ⟨h.closed, h.mode, by simp only [h.lines]⟩
  have hshifted : Text.Shifted raw raw' := by
    rcases hraw with rfl | ⟨hshifted, -⟩
    · exact Text.Shifted.refl _
    · exact hshifted
  refine segments_succ_agree (hbegun.segment_agree hshifted ?_) ?_
  · refine hraw.imp_right fun hmovable => ⟨hmovable.2.outside, fun next hseg hentries => ?_⟩
    refine hmovable.2.notKept ⟨next, ?_, hentries⟩
    rw [Scan.line, segments, hseg]
    rfl
  · intro next next' rest hseg hseg' hnext
    have hlt := (segment_cases hseg).length_trimTerminator_lt
    have hlt' := (segment_cases hseg').length_trimTerminator_lt
    have hle : ∀ raw : Text, (Text.trimTerminator raw).length ≤ raw.length := fun raw =>
      length_trimEndWhile_le _ raw
    exact hnext.segments_agree _ _ (hlt.trans_le (hle raw)) (hlt'.trans_le (hle raw'))

/-- All lines of the two readers. -/
theorem Shifted.lines_agree (h : s.Shifted s') {ls ls' : List Text}
    (hlength : ls'.length = ls.length)
    (hlines : ∀ k l l', ls[k]? = some l → ls'[k]? = some l' →
      l' = l ∨ Text.Shifted l l' ∧ s.MovableAfter (ls.take k) l) :
    Agree Shifted (ls.foldlM Scan.line s) (ls'.foldlM Scan.line s') := by
  induction ls generalizing s s' ls' with
  | nil =>
    obtain rfl : ls' = [] := List.length_eq_zero_iff.1 hlength
    exact .ok h
  | cons l ls ih =>
    obtain ⟨l', ls', rfl⟩ : ∃ l' tail, ls' = l' :: tail :=
      List.exists_cons_of_length_eq_add_one hlength
    rw [List.foldlM_cons, List.foldlM_cons]
    have hfirst : l' = l ∨ Text.Shifted l l' ∧ s.Movable l := by
      refine (hlines 0 l l' rfl rfl).imp_right fun ⟨hshifted, next, hread, hmovable⟩ => ?_
      rw [Except.ok.inj hread]
      exact ⟨hshifted, hmovable⟩
    refine (h.line_agree hfirst).bind_of_eq fun next next' hline _ hnext => ?_
    refine ih hnext (by simpa using hlength) fun k l₁ l₁' hl hl' => ?_
    refine (hlines (k + 1) l₁ l₁' hl hl').imp_right fun ⟨hshifted, last, hread, hmovable⟩ => ?_
    rw [List.take_succ_cons, List.foldlM_cons, hline] at hread
    exact ⟨hshifted, last, hread, hmovable⟩

theorem Shifted.finish_agree (h : s.Shifted s') :
    Agree (fun d d' => ShiftedEntries d.entries d'.entries) s.finish s'.finish := by
  have hentries := h.entries
  obtain ⟨closed, mode, lines⟩ := s
  obtain ⟨closed', mode', lines'⟩ := s'
  have hmode := h.mode
  simp only at hmode
  cases hmode with
  | outside => exact .ok hentries
  | footer => exact .ok hentries
  | body => exact .ok hentries
  | action hr ha =>
    have hline := congrArg OpenAction.line ha.same
    simp only [Scan.finish, hr.rule.name, hline]
    exact .error _

end Scan

/-! ## Documents -/

/-- The second text is the first with some of its grammar lines indented in another way: line for
line it is the same, but for the blanks at the start of lines that are neither part of a block nor
kept as they are. -/
structure Reindented (t t' : Text) : Prop where
  /-- The number of lines is the same. -/
  length : (lines t').length = (lines t).length
  /-- A line is the same, or is moved where the reader of the first text lets it be. -/
  line : ∀ k l l', (lines t)[k]? = some l → (lines t')[k]? = some l' → l' = l ∨
    trimBlanksStart l = trimBlanksStart l' ∧ Scan.start.MovableAfter ((lines t).take k) l

theorem reindented_iff {t t' : Text} :
    Reindented t t' ↔ (lines t').length = (lines t).length ∧
      ∀ k < (lines t).length, ∀ l ∈ (lines t)[k]?, ∀ l' ∈ (lines t')[k]?, l' = l ∨
        trimBlanksStart l = trimBlanksStart l' ∧ Scan.start.MovableAfter ((lines t).take k) l := by
  constructor
  · intro h
    exact ⟨h.length, fun k _ l hl l' hl' => h.line k l l' hl hl'⟩
  · rintro ⟨hlength, hline⟩
    refine ⟨hlength, fun k l l' hl hl' => hline k ?_ l hl l' hl'⟩
    exact (List.getElem?_eq_some_iff.1 hl).1

instance (t t' : Text) : Decidable (Reindented t t') := decidable_of_iff' _ reindented_iff

/-- The two documents are the same but for stored indentation, or reading fails in the same way. -/
theorem Document.parse_agree {t t' : Text} (h : Reindented t t') :
    Agree (fun d d' => ShiftedEntries d.entries d'.entries) (Document.parse t)
      (Document.parse t') := by
  have hstart : Scan.start.Shifted Scan.start := ⟨.nil, .outside, rfl⟩
  exact (hstart.lines_agree h.length h.line).bind fun s s' hs => hs.finish_agree

end GrammarLayout
