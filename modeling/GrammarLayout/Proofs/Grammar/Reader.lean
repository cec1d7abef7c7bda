import GrammarLayout.Grammar.Reader
import GrammarLayout.Proofs.Grammar.State

/-!
# The flags of the reader

The record of the reader has a field for each thing it keeps; which fields go
together is not said by its type.  `Shows` says it, mode by mode: the record has
the document of the modes, its active rule is the one that is open, and its
fields about a block are those of the open block.  One lemma for each function
of the record says that it does what the modes do; from these the lines of a
text are read alike, and with the count of the open block it follows that the
fields always fit together and that no step misses the active rule.

What is proved here:

* `Reader.addProduction_agrees`, `Reader.continueAction_agrees`,
  `Reader.bodyLine_agrees`, `Reader.segment_agrees` — the functions one by one;
* `Reader.Shows.segments_eq` — a line is always read to its end;
* `Reader.foldlM_readLine_agrees`, `Reader.parse_eq` — lines and whole texts;
* `Reader.reads_consistent` — the record after any number of lines.
-/

namespace GrammarLayout

open Ascii Text

namespace Reader

/-! ## The record of each mode -/

/-- The record of the mode: what it says of the block that was closed last is left as it was. -/
inductive Shows : Reader → Scan → Prop where
  /-- Outside every rule. -/
  | outside (doc : List Entry) (owner : Int) (actionLine lines : Nat) :
      Shows ⟨doc, none, false, [], 0, owner, actionLine, false, lines⟩ ⟨doc, .outside, lines⟩
  /-- In the body of a rule, which stands behind the entries before it. -/
  | body (closed : List Entry) (r : OpenRule) (owner : Int) (actionLine lines : Nat) :
      Shows ⟨closed ++ r.entries, some closed.length, false, [], 0, owner, actionLine, false, lines⟩
        ⟨closed, .body r, lines⟩
  /-- In an action block of a rule. -/
  | action (closed : List Entry) (r : OpenRule) (a : OpenAction) (lines : Nat) :
      Shows ⟨closed ++ r.entries, some closed.length, true, a.text, a.balance, a.owner, a.line,
        false, lines⟩ ⟨closed, .action r a, lines⟩
  /-- In the sections after the grammar. -/
  | footer (doc : List Entry) (owner : Int) (actionLine lines : Nat) :
      Shows ⟨doc, none, false, [], 0, owner, actionLine, true, lines⟩ ⟨doc, .footer, lines⟩

/-- The record of the state, and the same text still to be read. -/
def Left (x : Reader × Option Text) (y : Scan × Option Text) : Prop := Shows x.1 y.1 ∧ x.2 = y.2

variable {closed : List Entry} {r : OpenRule} {p : Reader} {s : Scan}

/-! ## The active rule -/

theorem active_eq (hrule : p.rule = some closed.length) (hdoc : p.doc = closed ++ r.entries) :
    p.active = .ok r.rule := by
  simp [active, hrule, hdoc, OpenRule.entries]

theorem change_eq (hrule : p.rule = some closed.length) (hdoc : p.doc = closed ++ r.entries)
    (f : Rule → Rule) :
    p.change f = .ok { p with doc := closed ++ { r with rule := f r.rule }.entries } := by
  simp [change, active_eq hrule hdoc, hrule, hdoc, OpenRule.entries]

theorem fail_eq {α : Type} (hrule : p.rule = some closed.length)
    (hdoc : p.doc = closed ++ r.entries) (fault : Text → ParseFault) :
    p.fail (α := α) fault = .error (.fault ⟨p.line, fault r.rule.name⟩) := by
  rw [fail, active_eq hrule hdoc]
  rfl

/-! ## Productions -/

/-- The record with the open rule `r` replaced by `rule`. -/
def WithRule (closed : List Entry) (r : OpenRule) (p q : Reader) (rule : Rule) : Prop :=
  q = { p with doc := closed ++ { r with rule := rule }.entries }

/-- An alternative is added to the active rule, or it is refused at the current line. -/
theorem addAlternative_agrees {q : Reader} {rule : Rule} (hrule : p.rule = some closed.length)
    (hq : WithRule closed r p q rule) (text : Text) (header : Bool) :
    Agree (WithRule closed r p) (q.addAlternative text header)
      ((rule.readAlternative text header).mapError fun fault => .fault ⟨p.line, fault⟩) := by
  have hrule' : q.rule = some closed.length := by rw [hq]; exact hrule
  have hdoc : q.doc = closed ++ { r with rule := rule }.entries := by rw [hq]
  have hline : q.line = p.line := by rw [hq]
  have hchange : ∀ f : Rule → Rule,
      Agree (WithRule closed r p) (q.change f) (.ok (f rule)) := by
    intro f
    rw [change_eq hrule' hdoc]
    refine .ok ?_
    rw [hq]
    rfl
  simp only [addAlternative, Rule.readAlternative, active_eq hrule' hdoc]
  split
  · exact .ok hq
  · split
    · exact hchange _
    · show Agree _ (if rule.productions.isEmpty then _ else _) _
      split
      · split
        · rw [fail_eq hrule' hdoc, hline]
          exact .error _
        · exact hchange _
      · exact hchange _

/-- The alternatives of a line are added to the active rule one after the other. -/
theorem addProduction_agrees (hrule : p.rule = some closed.length)
    (hdoc : p.doc = closed ++ r.entries) (hline : p.line = s.lines) (text : Text) (header : Bool) :
    Agree (WithRule closed r p) (p.addProduction text header)
      ((s.readProductions r text header).mapError .fault) := by
  have hread : (s.readProductions r text header).mapError Halt.fault
      = (r.rule.readProductions text header).mapError fun fault => .fault ⟨p.line, fault⟩ := by
    unfold Scan.readProductions
    cases r.rule.readProductions text header with
    | ok rule => rfl
    | error fault => rw [hline]; rfl
  rw [hread, Rule.readProductions, mapError_foldlM]
  refine Agree.foldlM (S := Eq) ?_ (List.forall₂_same.2 fun _ _ => rfl) ?_
  · rintro q rule alt _ hq rfl
    exact addAlternative_agrees hrule hq alt header
  · rw [WithRule, ← hdoc]

/-! ## Action blocks -/

/-- A block is opened behind the last production of the active rule. -/
theorem startAction_eq (hrule : p.rule = some closed.length) (hdoc : p.doc = closed ++ r.entries)
    (text : Text) (balance : Int) :
    p.startAction text balance = .ok { p with
      inAction := true, balance := balance, owner := (r.rule.productions.length : Int) - 1
      actionLine := p.line, action := text } := by
  rw [startAction, active_eq hrule hdoc]
  rfl

theorem continueAction_agrees {a : OpenAction} {lines : Nat} (line : Text)
    (h : Shows p ⟨closed, .action r a, lines⟩) :
    Agree Shows (p.continueAction line)
      ((Scan.actionLine ⟨closed, .action r a, lines⟩ r a line).mapError .fault) := by
  cases h
  simp only [continueAction, Scan.actionLine]
  split
  · exact .ok (.action closed r { a with text := _, balance := _ } lines)
  · split
    · rw [fail_eq rfl rfl]
      exact .error _
    · rw [change_eq rfl rfl]
      show Agree _ (.ok _) (.ok _)
      refine .ok ?_
      split
      · exact .outside _ _ _ _
      · exact .body closed { r with rule := _ } _ _ lines

/-! ## Lines -/

theorem bodyLine_agrees {lines : Nat} (line : Text) (header : Bool)
    (h : Shows p ⟨closed, .body r, lines⟩) :
    Agree Left (p.bodyLine line header)
      ((Scan.bodyLine ⟨closed, .body r, lines⟩ r line header).mapError .fault) := by
  cases h with | body _ _ owner actionLine =>
  simp only [bodyLine, Scan.bodyLine]
  split
  · rw [fail_eq rfl rfl]
    exact .error _
  split
  · exact .ok ⟨.outside _ _ _ _, rfl⟩
  generalize (unclosedBrace? line).filter _ = opening
  cases opening with
  | some i =>
    simp only
    split
    · rw [startAction_eq rfl rfl]
      exact .ok ⟨.action closed r ⟨_, _, _, lines⟩ lines, rfl⟩
    · rw [mapError_bind]
      refine (addProduction_agrees rfl rfl rfl _ header).bind ?_
      rintro _ rule rfl
      rw [startAction_eq rfl rfl]
      exact .ok ⟨.action closed { r with rule := rule } ⟨_, _, _, lines⟩ lines, rfl⟩
  | none =>
    -- The rule is closed or stays open, whatever was read of the line.
    have hend : ∀ (next : Reader) (rule : Rule) (terminated : Bool),
        WithRule closed r ⟨closed ++ r.entries, some closed.length, false, [], 0, owner, actionLine,
          false, lines⟩ next rule →
        Left (if terminated then { next with rule := none } else next, none)
          (if terminated then (Scan.withRule ⟨closed, .body r, lines⟩ r rule).leave .outside
            else Scan.withRule ⟨closed, .body r, lines⟩ r rule, none) := by
      rintro _ rule terminated rfl
      cases terminated
      · exact ⟨.body closed { r with rule := rule } _ _ lines, rfl⟩
      · exact ⟨.outside _ _ _ _, rfl⟩
    simp only
    generalize endsWith [semicolon] (trim line) = terminated
    generalize (if terminated then dropEnd [semicolon] (trimBlanksEnd line) else line) = text
    split
    · exact .ok (hend _ _ terminated rfl)
    · rw [mapError_bind]
      refine (addProduction_agrees rfl rfl rfl _ header).bind fun next rule hnext => ?_
      exact .ok (hend next rule terminated hnext)

/-! ### Entering and leaving a rule -/

theorem Shows.verbatim (h : Shows p s) (raw : Text) : Shows (p.verbatim raw) (s.keep raw) := by
  have hdoc : ∀ (closed : List Entry) (r : OpenRule),
      closed ++ r.entries ++ [Entry.verbatim ⟨raw, false⟩]
        = closed ++ (OpenRule.mk r.rule (r.after ++ [⟨raw, false⟩])).entries := by
    intro closed r
    simp [OpenRule.entries]
  cases h with
  | outside doc owner actionLine lines => exact .outside _ _ _ _
  | body closed r owner actionLine lines =>
    rw [Reader.verbatim, hdoc]
    exact .body closed { r with after := _ } _ _ lines
  | action closed r a lines =>
    rw [Reader.verbatim, hdoc]
    exact .action closed { r with after := _ } a lines
  | footer doc owner actionLine lines => exact .footer _ _ _ _

theorem Shows.doc_eq (h : Shows p s) : p.doc = s.entries := by
  cases h <;> simp [Scan.entries, Scan.openRule?]

theorem Shows.line_eq (h : Shows p s) : p.line = s.lines := by
  cases h <;> rfl

theorem Shows.leave (h : Shows p s) (hfooter : p.footer = false) (haction : p.inAction = false) :
    Shows { p with rule := none } (s.leave .outside) := by
  rw [Scan.leave, ← h.doc_eq]
  cases h with
  | outside | body => exact .outside _ _ _ _
  | action => exact absurd haction (by simp)
  | footer => exact absurd hfooter (by simp)

theorem Shows.leave_footer (h : Shows p s) (haction : p.inAction = false) :
    Shows { p with rule := none, footer := true } (s.leave .footer) := by
  rw [Scan.leave, ← h.doc_eq]
  cases h with
  | outside | body | footer => exact .footer _ _ _ _
  | action => exact absurd haction (by simp)

theorem Shows.openRule (h : Shows p s) (hfooter : p.footer = false) (haction : p.inAction = false)
    (name : Text) :
    Shows (p.openRule name) (s.leave (.body ⟨{ name := name, line := s.lines }, []⟩)) := by
  rw [Scan.leave, ← h.doc_eq]
  cases h with
  | outside | body => exact .body _ ⟨_, []⟩ _ _ _
  | action => exact absurd haction (by simp)
  | footer => exact absurd hfooter (by simp)

/-! ### Whole lines -/

/-- A line outside every action block and before the footer. -/
theorem grammarLine_agrees (raw : Text) (h : Shows p s) (hfooter : p.footer = false)
    (haction : p.inAction = false) :
    Agree Left (p.segment raw) ((s.grammarLine raw).mapError .fault) := by
  simp only [segment, Scan.grammarLine, hfooter, haction]
  rw [if_neg Bool.false_ne_true, if_neg Bool.false_ne_true]
  split
  · exact .ok ⟨h.verbatim raw, rfl⟩
  split
  · have hleft := h.leave_footer haction
    rw [haction] at hleft
    exact .ok ⟨hleft.verbatim raw, rfl⟩
  generalize header? (trimTerminator raw) = header
  cases header with
  | some header =>
    obtain ⟨name, rest⟩ := header
    simp only
    have hopen := h.openRule hfooter haction name
    split
    · exact .ok ⟨hopen, rfl⟩
    split
    · exact .ok ⟨hopen.verbatim _, rfl⟩
    · exact bodyLine_agrees rest true hopen
  | none =>
    cases h with
    | outside doc owner actionLine lines =>
      exact .ok ⟨(Shows.outside doc owner actionLine lines).verbatim raw, rfl⟩
    | body closed r owner actionLine lines =>
      simp only [Option.isNone_some, Bool.false_eq_true, if_false]
      split
      · exact .ok ⟨((Shows.body closed r owner actionLine lines).leave rfl rfl).verbatim raw, rfl⟩
      · exact bodyLine_agrees _ false (.body closed r owner actionLine lines)
    | action => exact absurd haction (by simp)
    | footer => exact absurd hfooter (by simp)

/-- A segment of a line leaves the record of the state, and the same text still to be read. -/
theorem segment_agrees (raw : Text) (h : Shows p s) :
    Agree Left (p.segment raw) ((s.segment raw).mapError .fault) := by
  cases h with
  | outside doc owner actionLine lines =>
    exact grammarLine_agrees raw (.outside doc owner actionLine lines) rfl rfl
  | body closed r owner actionLine lines =>
    exact grammarLine_agrees raw (.body closed r owner actionLine lines) rfl rfl
  | action closed r a lines =>
    show Agree Left (Except.map _ _) _
    rw [Scan.segment, mapError_map]
    exact (continueAction_agrees _ (.action closed r a lines)).map fun _ _ h => ⟨h, rfl⟩
  | footer doc owner actionLine lines =>
    exact .ok ⟨(Shows.footer doc owner actionLine lines).verbatim raw, rfl⟩

theorem segments_agree (fuel : Nat) (raw : Text) (h : Shows p s) :
    Agree Shows (segments fuel p raw) ((Scan.segments fuel s raw).mapError .fault) := by
  induction fuel generalizing p s raw with
  | zero => exact .ok h
  | succ fuel ih =>
    rw [segments, Scan.segments, mapError_bind]
    refine (segment_agrees raw h).bind ?_
    rintro ⟨next, t⟩ ⟨next', t'⟩ ⟨hnext, rfl⟩
    cases t with
    | none => exact .ok hnext
    | some rest => exact ih _ hnext

/-- The bound on the number of segments is never met. -/
theorem Shows.segments_eq {fuel fuel' : Nat} {raw : Text} (h : Shows p s)
    (hfuel : (trimTerminator raw).length < fuel) (hfuel' : (trimTerminator raw).length < fuel') :
    segments fuel p raw = segments fuel' p raw := by
  induction fuel generalizing fuel' p s raw with
  | zero => omega
  | succ fuel ih =>
    obtain ⟨fuel', rfl⟩ : ∃ n, fuel' = n + 1 := ⟨fuel' - 1, by omega⟩
    have hsegment := segment_agrees raw h
    rw [segments, segments]
    generalize p.segment raw = x at hsegment ⊢
    cases hread : s.segment raw with
    | error e =>
      rw [hread] at hsegment
      cases hsegment
      rfl
    | ok y =>
      obtain ⟨next', t'⟩ := y
      rw [hread] at hsegment
      cases hsegment with
      | @ok y' _ hleft =>
        obtain ⟨next, t⟩ := y'
        obtain ⟨hnext, rfl⟩ : Shows next next' ∧ t = t' := hleft
        cases t with
        | none => rfl
        | some rest =>
          -- What is left is shorter than what was read.
          have hlt := (Scan.segment_cases hread).length_trimTerminator_lt
          exact ih hnext (by omega) (by omega)

theorem readLine_agrees (raw : Text) (h : Shows p s) :
    Agree Shows (p.readLine raw) ((s.line raw).mapError .fault) := by
  refine segments_agree _ raw ?_
  cases h with
  | outside => exact .outside _ _ _ _
  | body => exact .body _ _ _ _ _
  | action => exact .action _ _ _ _
  | footer => exact .footer _ _ _ _

theorem finish_eq (h : Shows p s) : p.finish = s.finish.mapError .fault := by
  have hdoc := h.doc_eq
  cases h with
  | outside | body | footer =>
    rw [Scan.finish, ← hdoc]
    rfl
  | action closed r a lines =>
    show (Reader.active _ >>= fun r : Rule => _) = _
    rw [active_eq rfl rfl]
    rfl

theorem shows_start : Shows start .start := .outside [] 0 0 0

/-- Lines are read alike by the record and by the modes. -/
theorem foldlM_readLine_agrees (ls : List Text) (h : Shows p s) :
    Agree Shows (ls.foldlM readLine p) ((ls.foldlM Scan.line s).mapError .fault) := by
  rw [mapError_foldlM]
  refine Agree.foldlM (S := Eq) ?_ (List.forall₂_same.2 fun _ _ => rfl) h
  rintro p s raw _ h rfl
  exact readLine_agrees raw h

/-- Lines and the end of the text are read alike. -/
theorem read_eq (ls : List Text) (h : Shows p s) :
    (ls.foldlM readLine p >>= finish) = (ls.foldlM Scan.line s >>= Scan.finish).mapError .fault := by
  have hlines := foldlM_readLine_agrees ls h
  rw [mapError_bind]
  generalize ls.foldlM readLine p = x at hlines ⊢
  generalize (ls.foldlM Scan.line s).mapError Halt.fault = y at hlines ⊢
  cases hlines with
  | error e => rfl
  | ok hnext => exact finish_eq hnext

/-- The record and the modes read every text alike. -/
theorem parse_eq (text : Text) : parse text = (Document.parse text).mapError .fault :=
  read_eq (lines text) shows_start

/-! ## The parts of the record fit together -/

/-- The fields of the record fit together. -/
structure Consistent (p : Reader) : Prop where
  /-- An open block belongs to the active rule and follows its last production. -/
  active : p.inAction = true →
    ∃ r, p.active = .ok r ∧ p.owner = (r.productions.length : Int) - 1
  /-- Braces of an open block are open, and they are those of its text. -/
  open_balance : p.inAction = true → 0 < p.balance ∧ p.balance = braceBalance p.action
  /-- An open block was opened on a line that has been read. -/
  open_line : p.inAction = true → 1 ≤ p.actionLine ∧ p.actionLine ≤ p.line
  /-- Without an open block no brace is open. -/
  closed_balance : p.inAction = false → p.balance = 0
  /-- In the sections after the grammar no block is open and no rule is active. -/
  footer : p.footer = true → p.inAction = false ∧ p.rule = none
  /-- The active rule is the last rule of the document. -/
  last_rule : ∀ i, p.rule = some i → ∃ before r after,
    p.doc = before ++ .rule r :: after ∧ before.length = i ∧ ∀ e ∈ after, e.isRule = false

theorem isRule_after {e : Entry} (he : e ∈ r.after.map Entry.verbatim) : e.isRule = false := by
  obtain ⟨v, -, rfl⟩ := List.mem_map.1 he
  rfl

theorem Shows.consistent (h : Shows p s) (hcounted : s.Counted) : p.Consistent := by
  cases h with
  | outside | footer => constructor <;> simp
  | body closed r owner actionLine lines =>
    have hlast : ∀ i, some closed.length = some i → ∃ before rule after,
        closed ++ r.entries = before ++ .rule rule :: after ∧ before.length = i ∧
          ∀ e ∈ after, e.isRule = false :=
      fun i hi => ⟨closed, r.rule, _, rfl, Option.some.inj hi, fun e => isRule_after⟩
    constructor <;> simp [hlast]
  | action closed r a lines =>
    obtain ⟨hbalance, hopened, howner, hline⟩ := hcounted r a rfl
    exact
      { active := fun _ => ⟨r.rule, active_eq rfl rfl, howner⟩
        open_balance := fun _ => ⟨hopened, hbalance⟩
        open_line := fun _ => hline
        closed_balance := fun h => absurd h (by simp)
        footer := fun h => absurd h (by simp)
        last_rule := fun i hi =>
          ⟨closed, r.rule, _, rfl, Option.some.inj hi, fun e => isRule_after⟩ }

/-- Lines that the record can read are read by the modes. -/
theorem shows_of_foldlM {ls : List Text} (h : ls.foldlM readLine start = .ok p) :
    ∃ s, ls.foldlM Scan.line .start = .ok s ∧ Shows p s := by
  have hlines := foldlM_readLine_agrees ls shows_start
  rw [h] at hlines
  generalize hread : ls.foldlM Scan.line .start = x at hlines ⊢
  cases x with
  | error e => cases hlines
  | ok s =>
    cases hlines with
    | ok hshows => exact ⟨s, rfl, hshows⟩

/-- A rule is active wherever one is needed. -/
theorem Shows.read_ne_noRule (h : Shows p s) (ls : List Text) :
    (ls.foldlM readLine p >>= finish) ≠ .error .noRule := by
  rw [read_eq ls h]
  cases ls.foldlM Scan.line s >>= Scan.finish <;> simp [Except.mapError]

/-- After any lines that can be read the fields fit together, as many lines are counted as were
read, and the modes have read the same.  Whatever lines follow, a rule is active wherever one is
needed; and a block is only ever opened at a brace that no text behind it on the line closes. -/
theorem reads_consistent {ls : List Text} {p : Reader} (h : ls.foldlM readLine start = .ok p) :
    p.Consistent ∧ p.line = ls.length ∧
      (∃ s, ls.foldlM Scan.line .start = .ok s ∧ Shows p s) ∧
      (∀ more : List Text, (more.foldlM readLine p >>= finish) ≠ .error .noRule) ∧
      ∀ l i, unclosedBrace? l = some i → ∀ u, u <+: l.drop i → u ≠ [] → 0 < braceBalance u := by
  obtain ⟨s, hs, hshows⟩ := shows_of_foldlM h
  obtain ⟨hcounted, hlines⟩ :=
    (Scan.reads_of_foldlM hs).counted (Scan.counted_of_mode (by simp [Scan.start]))
  refine ⟨hshows.consistent hcounted, ?_, ⟨s, hs, hshows⟩, hshows.read_ne_noRule,
    fun l i hi u hu hne => unclosedBrace?_prefix_balance hi hu hne⟩
  calc p.line = s.lines := hshows.line_eq
    _ = 0 + ls.length := hlines
    _ = ls.length := Nat.zero_add _

/-- The block that is open here follows a complete one; it was opened on the second line and goes on
on the third. -/
theorem reads_consistent_open_block :
    ∃ p, [bytes "a: b\n", bytes "c \x7bx\x7d d \x7b\x7b\n",
        bytes "\x7d e\n"].foldlM readLine start = .ok p ∧
      p.inAction = true ∧ p.balance = 1 ∧ p.Consistent := by
  obtain ⟨p, hp⟩ : ∃ p, [bytes "a: b\n", bytes "c \x7bx\x7d d \x7b\x7b\n",
        bytes "\x7d e\n"].foldlM readLine start = .ok p ∧
      p.inAction = true ∧ p.balance = 1 :=
    ⟨⟨[.rule { name := bytes "a", line := 1, productions := [bytes "b c \x7bx\x7d d"] }], some 0,
      true, bytes " \x7b\x7b\n\x7d e", 1, 0, 2, false, 3⟩, by decide +kernel⟩
  exact ⟨p, hp.1, hp.2.1, hp.2.2, (reads_consistent hp.1).1⟩

end Reader

end GrammarLayout
