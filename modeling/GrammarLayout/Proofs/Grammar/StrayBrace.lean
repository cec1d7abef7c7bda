import GrammarLayout.Proofs.Grammar.Conservation
import GrammarLayout.Proofs.Grammar.Invariant
import GrammarLayout.Proofs.Grammar.Unquoted

/-!
# Stray braces of productions

The reader looks for a stray brace at one place only: a line of a rule's body,
or what follows the colon of a header, may not start with a closing brace.
Further to the right a closing brace becomes part of a production.  It is stray
there when nothing is open in front of it, in the alternative that it stands in
or, when this has no pipe, in the production that it goes on with.

What is proved here:

* `Rule.noStrays_readProductions_iff` — what the alternatives of a line bring;
* `Scan.segment_partRead` — the part of a line that is read in a rule's body,
  and what becomes of the productions;
* `Scan.segments_noStrays_iff`, `Scan.Reads.noStrays_iff` — one line and a whole
  run of the reader;
* `Document.parse_noStrays` — no production starts with a closing brace, and
  none has a stray brace exactly when no line brings one.
-/

namespace GrammarLayout

open Ascii Text

/-! ## Productions of a rule -/

/-- No production has a stray brace. -/
def NoStrays (ps : List Text) : Prop := ∀ p ∈ ps, ¬HasStrayBrace p

@[simp] theorem noStrays_nil : NoStrays [] := by simp [NoStrays]

@[simp] theorem noStrays_append (ps qs : List Text) :
    NoStrays (ps ++ qs) ↔ NoStrays ps ∧ NoStrays qs := by
  simp only [NoStrays, List.mem_append, or_imp, forall_and]

@[simp] theorem noStrays_singleton (p : Text) : NoStrays [p] ↔ ¬HasStrayBrace p := by
  simp [NoStrays]

/-- The text starts with a visible byte that is no closing brace. -/
def StartsUnclosed (p : Text) : Prop := ∃ c, (ink p).head? = some c ∧ c ≠ closeBrace

namespace Rule

variable {r r' : Rule} {text : Text} {header : Bool}

/-- The text that an alternative without a pipe goes on with. -/
def front (r : Rule) : Text :=
  match r.productions.getLast? with
  | none => []
  | some p => trimBlanksEnd p ++ [space]

/-- Does an alternative bring a stray brace to the rule? -/
def strays (r : Rule) (alt : Text) : Bool :=
  decide (HasStrayBrace (if hasPipe alt then alt else r.front ++ trim alt))

theorem strays_of_hasPipe {alt : Text} (h : hasPipe alt = true) :
    r.strays alt = false ↔ ¬HasStrayBrace alt := by
  rw [strays, if_pos h, decide_eq_false_iff_not]

theorem front_of_nil (h : r.productions = []) : r.front = [] := by
  rw [front, h]
  rfl

theorem front_concat {ps : List Text} {p : Text} (h : r.productions = ps ++ [p]) :
    r.front = trimBlanksEnd p ++ [space] := by
  rw [front, h, List.getLast?_concat]

theorem hasStrayBrace_front {ps : List Text} {p : Text} (h : r.productions = ps ++ [p]) :
    HasStrayBrace r.front ↔ HasStrayBrace p := by
  rw [front_concat h, hasStrayBrace_append_isSpaces (by decide), hasStrayBrace_trimBlanksEnd]

theorem productions_extendProduction {ps : List Text} {p : Text} (h : r.productions = ps ++ [p])
    (t : Text) :
    (r.extendProduction t).productions = ps ++ [trimBlanksEnd p ++ space :: trim t] := by
  simp [extendProduction, h]

/-- Reading an alternative brings a stray brace exactly when the alternative does. -/
theorem noStrays_readAlternative_iff (hr : r.readAlternative text header = .ok r') :
    NoStrays r'.productions ↔ NoStrays r.productions ∧ r.strays text = false := by
  rcases readAlternative_cases hr with ⟨hblank, rfl⟩ | ⟨-, hstart, p, hp, rfl⟩ |
    ⟨-, hne, hpipe, rfl⟩
  · -- A blank alternative adds nothing to the text in front of it.
    refine (and_iff_left_of_imp fun h => ?_).symm
    have hpipe : ¬hasPipe text = true := by
      rw [hasPipe_iff, ink_of_isSpaces hblank]
      simp
    rw [strays, if_neg hpipe, trim_eq_nil_iff.2 hblank, List.append_nil, decide_eq_false_iff_not]
    by_cases hps : r'.productions = []
    · rw [front_of_nil hps]
      decide
    · obtain ⟨ps, p, hcut, -⟩ := exists_concat hps
      rw [hasStrayBrace_front hcut]
      exact h p (by rw [hcut]; simp)
  · have hsame : HasStrayBrace p ↔ HasStrayBrace text := by
      rcases hp with rfl | rfl
      · exact hasStrayBrace_trim
      · exact hasStrayBrace_trimBlanksEnd
    have hstrays : r.strays text = false ↔ ¬HasStrayBrace text := by
      by_cases hpipe : hasPipe text = true
      · exact strays_of_hasPipe hpipe
      · rw [strays, if_neg hpipe, front_of_nil (hstart.resolve_right hpipe), List.nil_append,
          decide_eq_false_iff_not, hasStrayBrace_trim]
    rw [hstrays, addProduction, noStrays_append, noStrays_singleton, hsame]
  · obtain ⟨ps, p, hcut, -⟩ := exists_concat hne
    have hpiped : ¬hasPipe text = true := by simp [hpipe]
    have hlast : trimBlanksEnd p ++ space :: trim (trim text) = r.front ++ trim text := by
      rw [front_concat hcut, trim_trim, List.append_assoc]
      rfl
    rw [productions_extendProduction hcut, hlast, hcut, strays, if_neg hpiped,
      decide_eq_false_iff_not, noStrays_append, noStrays_append, noStrays_singleton,
      noStrays_singleton, and_assoc]
    refine and_congr_right fun _ => (and_iff_right_of_imp fun h hstray => h ?_).symm
    exact ((hasStrayBrace_front hcut).2 hstray).mono (List.prefix_append _ _)

theorem noStrays_foldlM_iff {alts : List Text} (hpiped : ∀ p ∈ alts, hasPipe p = true)
    (hr : alts.foldlM (fun r alt => r.readAlternative alt header) r = .ok r') :
    NoStrays r'.productions ↔ NoStrays r.productions ∧ NoStrays alts := by
  induction alts generalizing r with
  | nil =>
    rw [← Except.ok.inj hr]
    simp
  | cons p alts ih =>
    rw [List.foldlM_cons] at hr
    obtain ⟨next, hp, hnext⟩ := exists_of_bind_eq_ok hr
    rw [ih (fun q hq => hpiped q (List.mem_cons_of_mem p hq)) hnext,
      noStrays_readAlternative_iff hp, strays_of_hasPipe (hpiped p List.mem_cons_self),
      ← List.singleton_append, noStrays_append, noStrays_singleton, and_assoc]

/-- Reading the alternatives of a line brings a stray brace exactly when one of them does. -/
theorem noStrays_readProductions_iff (hr : r.readProductions text header = .ok r') :
    NoStrays r'.productions ↔
      NoStrays r.productions ∧ (readyAlternatives text header).any r.strays = false := by
  obtain ⟨first, others, hready, -, hpiped, -⟩ := readyAlternatives_ink text header
  rw [readProductions, hready, List.foldlM_cons] at hr
  obtain ⟨next, hfirst, hnext⟩ := exists_of_bind_eq_ok hr
  have hothers : others.any r.strays = false ↔ NoStrays others := by
    rw [List.any_eq_false]
    exact forall₂_congr fun p hp => by rw [Bool.not_eq_true, strays_of_hasPipe (hpiped p hp)]
  rw [noStrays_foldlM_iff hpiped hnext, noStrays_readAlternative_iff hfirst, hready, List.any_cons,
    Bool.or_eq_false_iff, hothers, and_assoc]

theorem startsUnclosed_readAlternative (h : ∀ p ∈ r.productions, StartsUnclosed p)
    (htext : (ink text).head? ≠ some closeBrace) (hr : r.readAlternative text header = .ok r') :
    ∀ p ∈ r'.productions, StartsUnclosed p := by
  rcases readAlternative_cases hr with ⟨-, rfl⟩ | ⟨hblank, -, p, hp, rfl⟩ | ⟨-, hne, -, rfl⟩
  · exact h
  · intro q hq
    rcases List.mem_append.1 hq with hq | hq
    · exact h q hq
    · have hink : ink p = ink text := by
        rcases hp with rfl | rfl
        · exact ink_trim text
        · exact ink_trimBlanksEnd text
      rw [List.mem_singleton.1 hq, StartsUnclosed, hink]
      cases htext' : ink text with
      | nil => simp [ink_eq_nil_iff.1 htext'] at hblank
      | cons c t =>
        refine ⟨c, rfl, ?_⟩
        rintro rfl
        exact htext (by rw [htext']; rfl)
  · obtain ⟨ps, p, hcut, -⟩ := exists_concat hne
    rw [productions_extendProduction hcut]
    intro q hq
    rcases List.mem_append.1 hq with hq | hq
    · exact h q (by rw [hcut]; exact List.mem_append_left _ hq)
    · obtain ⟨c, hc, hbrace⟩ := h p (by rw [hcut]; simp)
      obtain ⟨t, ht⟩ := List.head?_eq_some_iff.1 hc
      rw [List.mem_singleton.1 hq]
      exact ⟨c, by rw [ink_append_space, ink_trimBlanksEnd, ht]; rfl, hbrace⟩

/-- The productions of a line do not start with a closing brace when the line does not. -/
theorem startsUnclosed_readProductions (h : ∀ p ∈ r.productions, StartsUnclosed p)
    (htext : (ink text).head? ≠ some closeBrace) (hr : r.readProductions text header = .ok r') :
    ∀ p ∈ r'.productions, StartsUnclosed p := by
  obtain ⟨first, others, hready, -, hpiped, hhead⟩ := readyAlternatives_ink text header
  have halts : ∀ alt ∈ readyAlternatives text header, (ink alt).head? ≠ some closeBrace := by
    intro alt halt
    rw [hready] at halt
    rcases List.mem_cons.1 halt with rfl | halt
    · rwa [hhead]
    · rw [hasPipe_iff.1 (hpiped alt halt)]
      decide
  rw [readProductions] at hr
  generalize readyAlternatives text header = alts at halts hr
  clear hready
  induction alts generalizing r with
  | nil =>
    rw [← Except.ok.inj hr]
    exact h
  | cons p alts ih =>
    rw [List.foldlM_cons] at hr
    obtain ⟨next, hp, hnext⟩ := exists_of_bind_eq_ok hr
    exact ih (startsUnclosed_readAlternative h (halts p List.mem_cons_self) hp)
      (fun q hq => halts q (List.mem_cons_of_mem p hq)) hnext

end Rule

/-! ## Lines of a rule's body -/

/-- The part of a line of a rule's body that is read as productions. -/
def bodyText (line : Text) : Text :=
  if startsWith [semicolon] (trim line) then []
  else
    match unclosedBrace? line with
    | some i => line.take i
    | none =>
        if endsWith [semicolon] (trim line) then dropEnd [semicolon] (trimBlanksEnd line) else line

/-- The productions of an entry. -/
def Entry.productions : Entry → List Text
  | .verbatim _ => []
  | .rule r => r.productions

/-- The productions of a line start like the line, unless there are none. -/
theorem head?_bodyText {line : Text} {c : UInt8} (h : (ink (bodyText line)).head? = some c) :
    (ink line).head? = some c := by
  rw [bodyText] at h
  split at h
  · simp at h
  · rename_i hsemi
    split at h
    · rename_i i hbrace
      obtain ⟨-, rest, -, -, hink⟩ := Scan.exists_unclosed hbrace
      obtain ⟨t, ht⟩ := List.head?_eq_some_iff.1 h
      rw [hink, ht]
      rfl
    · split at h
      · rwa [Scan.head?_ink_dropEnd_semicolon (by simpa using hsemi)] at h
      · exact h

namespace Scan

variable {s s' : Scan} {r : OpenRule} {line raw : Text} {t : Option Text}

/-- The productions of all rules read so far. -/
def productions (s : Scan) : List Text := s.entries.flatMap Entry.productions

theorem productions_verbatims (vs : List Verbatim) :
    (vs.map Entry.verbatim).flatMap Entry.productions = [] := by
  rw [List.flatMap_map, List.flatMap_eq_nil_iff]
  intro v _
  rfl

theorem productions_of_openRule (hr : s.openRule? = some r) :
    s.productions = s.closed.flatMap Entry.productions ++ r.rule.productions := by
  rw [productions, entries_of_openRule hr, List.flatMap_append, List.flatMap_cons,
    productions_verbatims, List.append_nil]
  rfl

theorem productions_keep (s : Scan) (raw : Text) : (s.keep raw).productions = s.productions := by
  rw [productions, entries_keep, List.flatMap_append]
  exact List.append_nil _

theorem productions_leave (s : Scan) {m : Mode} (hm : m = .outside ∨ m = .footer) :
    (s.leave m).productions = s.productions := by
  rw [productions, s.entries_leave hm]
  rfl

theorem productions_leave_newRule (s : Scan) (name : Text) :
    (s.leave (.body (s.newRule name))).productions = s.productions := by
  rw [productions_of_openRule (r := s.newRule name) rfl]
  exact List.append_nil _

/-- A line of a rule's body adds the productions it is read as. -/
theorem BodyStep.exists_productions {header : Bool} (hmode : s.mode = .body r)
    (hstep : s.BodyStep r line header s' t) : ∃ front rule,
      r.rule.readProductions (bodyText line) header = .ok rule ∧
      s.productions = front ++ r.rule.productions ∧ s'.productions = front ++ rule.productions := by
  have hr : s.openRule? = some r := by simp [openRule?, hmode]
  refine ⟨s.closed.flatMap Entry.productions, ?_⟩
  rw [productions_of_openRule hr]
  -- The open rule is replaced by `rule`.
  have hopen : ∀ {x : Scan} {rule : Rule}, x.closed = s.closed →
      x.openRule? = some { r with rule := rule } →
      x.productions = s.closed.flatMap Entry.productions ++ rule.productions := by
    intro x rule hclosed hx
    rw [productions_of_openRule hx, hclosed]
  have hnone : ((unclosedBrace? line).filter fun i => 0 < braceBalance (line.drop i)) = none →
      startsWith [semicolon] (trim line) = false →
      bodyText line = if endsWith [semicolon] (trim line) then
        dropEnd [semicolon] (trimBlanksEnd line) else line := by
    intro hfilter hsemi
    rw [filter_unclosedBrace?_eq] at hfilter
    simp [bodyText, hsemi, hfilter]
  cases hstep with
  | closed hsemi =>
    have htext : bodyText line = [] := by
      rw [bodyText, if_pos (startsWith_singleton_iff.2 (by rw [hsemi]; rfl))]
    refine ⟨r.rule, ?_, rfl, ?_⟩
    · rw [htext]
      exact Rule.readProductions_of_isSpaces _ (by decide) _
    · rw [productions_leave s (Or.inl rfl), productions_of_openRule hr]
  | @opened i hbrace hbalance hblank =>
    have htext : isSpaces (bodyText line) = true := by
      by_cases hsemi : startsWith [semicolon] (trim line) = true
      · rw [bodyText, if_pos hsemi]
        decide
      · rw [bodyText, if_neg hsemi, hbrace]
        exact hblank
    exact ⟨r.rule, Rule.readProductions_of_isSpaces _ htext _, rfl, hopen rfl rfl⟩
  | @openedBehind i rule hsemi hbrace hbalance hplace hread =>
    have htext : bodyText line = line.take i := by simp [bodyText, hsemi, hbrace]
    exact ⟨rule, by rw [htext]; exact hread, rfl, hopen rfl rfl⟩
  | @productions rule hsemi hfilter hend hread =>
    have htext : bodyText line = line := by rw [hnone hfilter hsemi, if_neg (by simp [hend])]
    exact ⟨rule, by rw [htext]; exact hread, rfl, hopen rfl rfl⟩
  | @terminated rule hsemi hfilter hend hread =>
    refine ⟨rule, ?_, rfl, ?_⟩
    · rw [hnone hfilter hsemi, if_pos hend]
      exact hread
    · rw [productions_leave _ (Or.inl rfl)]
      exact hopen rfl rfl

/-! ## Segments -/

/-- A text that is read in the body of a rule. -/
structure BodyPart where
  /-- The state in which it is read. -/
  state : Scan
  /-- The rule. -/
  rule : OpenRule
  /-- The text. -/
  line : Text
  /-- Whether it stands behind the colon of the rule's header. -/
  header : Bool

/-- The part of a line of the grammar that is read in the body of a rule: the line, or what follows
the colon of a header. -/
def grammarPart? (s : Scan) (raw : Text) : Option BodyPart :=
  let line := trimTerminator raw
  if isSpaces line || startsWith [hash] (trim line) || isFooterMarker line then none
  else
    match header? line with
    | some (name, rest) =>
        if isSpaces rest || startsWith [hash] (trim rest) then none
        else some ⟨s.leave (.body (s.newRule name)), s.newRule name, rest, true⟩
    | none =>
        match s.mode with
        | .body r => if trim line = bytes "end" then none else some ⟨s, r, line, false⟩
        | _ => none

/-- The part of a segment that is read in the body of a rule. -/
def bodyPart? (s : Scan) (raw : Text) : Option BodyPart :=
  match s.mode with
  | .footer => none
  | .action _ _ => none
  | _ => s.grammarPart? raw

/-- What the part `part` of a segment leads to: it is read in the body of its rule, behind the
productions read so far; without a part the productions stay. -/
def PartRead (s : Scan) (s' : Scan) (t : Option Text) : Option BodyPart → Prop
  | none => s'.productions = s.productions
  | some p => p.state.bodyLine p.rule p.line p.header = .ok (s', t) ∧
      p.state.mode = .body p.rule ∧ p.state.productions = s.productions

theorem ActionStep.productions_eq {a : OpenAction} (hmode : s.mode = .action r a)
    (hstep : s.ActionStep r a line s') : s'.productions = s.productions := by
  have hr : s.openRule? = some r := by simp [openRule?, hmode]
  rw [productions_of_openRule hr]
  cases hstep with
  | longer => rw [productions_of_openRule (r := r) rfl]
  | closed =>
    rw [productions_of_openRule rfl]
    rfl
  | terminated =>
    rw [productions_leave _ (Or.inl rfl), productions_of_openRule rfl]
    rfl

theorem grammarLine_partRead (h : s.grammarLine raw = .ok (s', t)) :
    s.PartRead s' t (s.grammarPart? raw) := by
  simp only [grammarLine, isEmpty_trim] at h
  simp only [grammarPart?]
  by_cases haside : (isSpaces (trimTerminator raw) || startsWith [hash] (trim (trimTerminator raw)))
      = true
  · rw [if_pos haside, Except.ok.injEq, Prod.mk.injEq] at h
    rw [if_pos (by rw [haside]; rfl), PartRead, ← h.1, productions_keep]
  rw [if_neg haside] at h
  by_cases hmarker : isFooterMarker (trimTerminator raw) = true
  · rw [if_pos hmarker, Except.ok.injEq, Prod.mk.injEq] at h
    rw [if_pos (by rw [hmarker, Bool.or_true]), PartRead, ← h.1, productions_keep,
      productions_leave s (Or.inr rfl)]
  rw [if_neg hmarker] at h
  rw [if_neg (by simp [haside, hmarker])]
  cases hheader : header? (trimTerminator raw) with
  | some found =>
    obtain ⟨name, rest⟩ := found
    simp only [hheader] at h ⊢
    by_cases hblank : isSpaces rest = true
    · rw [if_pos hblank, Except.ok.injEq, Prod.mk.injEq] at h
      rw [if_pos (by rw [hblank]; rfl), PartRead, ← h.1]
      exact productions_leave_newRule s name
    rw [if_neg hblank] at h
    by_cases hcomment : startsWith [hash] (trim rest) = true
    · rw [if_pos hcomment, Except.ok.injEq, Prod.mk.injEq] at h
      rw [if_pos (by rw [hcomment, Bool.or_true]), PartRead, ← h.1, productions_keep]
      exact productions_leave_newRule s name
    rw [if_neg hcomment] at h
    rw [if_neg (by simp [hblank, hcomment])]
    exact ⟨h, rfl, productions_leave_newRule s name⟩
  | none =>
    simp only [hheader] at h ⊢
    cases hmode : s.mode with
    | body r =>
      simp only [hmode] at h ⊢
      by_cases hend : trim (trimTerminator raw) = bytes "end"
      · rw [if_pos hend, Except.ok.injEq, Prod.mk.injEq] at h
        rw [if_pos hend, PartRead, ← h.1, productions_keep, productions_leave s (Or.inl rfl)]
      · rw [if_neg hend] at h
        rw [if_neg hend]
        exact ⟨h, hmode, rfl⟩
    | _ =>
      simp only [hmode, Except.ok.injEq, Prod.mk.injEq] at h
      simp only [PartRead]
      rw [← h.1, productions_keep]

/-- A segment reads its part of a rule's body. -/
theorem segment_partRead (h : s.segment raw = .ok (s', t)) : s.PartRead s' t (s.bodyPart? raw) := by
  cases hmode : s.mode with
  | footer =>
    simp only [segment, hmode, Except.ok.injEq, Prod.mk.injEq] at h
    simp only [bodyPart?, hmode, PartRead]
    rw [← h.1, productions_keep]
  | action r a =>
    simp only [segment, hmode] at h
    simp only [bodyPart?, hmode, PartRead]
    obtain ⟨next, hline, hnext⟩ := map_eq_ok_iff.1 h
    simp only [Prod.mk.injEq] at hnext
    rw [← hnext.1]
    exact (actionLine_cases hline).productions_eq hmode
  | outside =>
    simp only [segment, hmode] at h
    simp only [bodyPart?, hmode]
    exact grammarLine_partRead h
  | body r =>
    simp only [segment, hmode] at h
    simp only [bodyPart?, hmode]
    exact grammarLine_partRead h

/-- Does a segment bring a stray brace to the productions? -/
def strays (s : Scan) (raw : Text) : Bool :=
  (s.bodyPart? raw).any fun p =>
    (readyAlternatives (bodyText p.line) p.header).any p.rule.rule.strays

theorem segment_noStrays_iff (h : s.segment raw = .ok (s', t)) :
    NoStrays s'.productions ↔ NoStrays s.productions ∧ s.strays raw = false := by
  have hpart := segment_partRead h
  rw [strays]
  cases hp : s.bodyPart? raw with
  | none =>
    rw [hp, PartRead] at hpart
    simp [hpart]
  | some p =>
    rw [hp] at hpart
    obtain ⟨hline, hmode, hsame⟩ := hpart
    obtain ⟨front, rule, hread, hs, hs'⟩ := (bodyLine_cases hline).1.exists_productions hmode
    rw [← hsame, hs', hs, noStrays_append, noStrays_append,
      Rule.noStrays_readProductions_iff hread, and_assoc]
    rfl

/-- A segment keeps closing braces away from the start of a production. -/
theorem segment_startsUnclosed (h : s.segment raw = .ok (s', t))
    (hs : ∀ p ∈ s.productions, StartsUnclosed p) : ∀ p ∈ s'.productions, StartsUnclosed p := by
  have hpart := segment_partRead h
  cases hp : s.bodyPart? raw with
  | none =>
    rw [hp, PartRead] at hpart
    rwa [hpart]
  | some p =>
    rw [hp] at hpart
    obtain ⟨hline, hmode, hsame⟩ := hpart
    obtain ⟨hstep, hclose⟩ := bodyLine_cases hline
    obtain ⟨front, rule, hread, hbefore, hafter⟩ := hstep.exists_productions hmode
    rw [← hsame, hbefore] at hs
    have htext : (ink (bodyText p.line)).head? ≠ some closeBrace := fun hbrace => by
      rw [startsWith_trim_iff.2 (head?_bodyText hbrace)] at hclose
      exact absurd hclose (by simp)
    intro q hq
    rw [hafter] at hq
    rcases List.mem_append.1 hq with hq | hq
    · exact hs q (List.mem_append_left _ hq)
    · exact Rule.startsUnclosed_readProductions
        (fun p hp => hs p (List.mem_append_right _ hp)) htext hread q hq

/-! ## Whole lines -/

/-- Does `p` hold of a segment of a line, in the state before it is read? -/
def anySegment (p : Scan → Text → Bool) : Nat → Scan → Text → Bool
  | 0, _, _ => false
  | fuel + 1, s, raw =>
      p s raw || match s.segment raw with
        | .ok (next, some rest) => anySegment p fuel next (rest ++ [newline])
        | _ => false

/-- Does a line bring a stray brace to the productions? -/
def straysLine (s : Scan) (raw : Text) : Bool :=
  anySegment strays (raw.length + 1) { s with lines := s.lines + 1 } raw

theorem segments_noStrays_iff (fuel : Nat) (h : segments fuel s raw = .ok s') :
    NoStrays s'.productions ↔ NoStrays s.productions ∧ anySegment strays fuel s raw = false := by
  induction fuel generalizing s raw with
  | zero =>
    rw [← Except.ok.inj h]
    simp [anySegment]
  | succ fuel ih =>
    rw [segments] at h
    obtain ⟨⟨next, t⟩, hseg, hnext⟩ := exists_of_bind_eq_ok h
    have hfirst := segment_noStrays_iff hseg
    rw [anySegment, hseg]
    cases t with
    | none =>
      rw [← Except.ok.inj hnext, hfirst, Bool.or_false]
    | some rest =>
      rw [ih hnext, hfirst, Bool.or_eq_false_iff, and_assoc]

theorem segments_startsUnclosed (fuel : Nat) (h : segments fuel s raw = .ok s')
    (hs : ∀ p ∈ s.productions, StartsUnclosed p) : ∀ p ∈ s'.productions, StartsUnclosed p := by
  induction fuel generalizing s raw with
  | zero => rwa [← Except.ok.inj h]
  | succ fuel ih =>
    rw [segments] at h
    obtain ⟨⟨next, t⟩, hseg, hnext⟩ := exists_of_bind_eq_ok h
    have hfirst := segment_startsUnclosed hseg hs
    cases t with
    | none => rwa [← Except.ok.inj hnext]
    | some rest => exact ih hnext hfirst

/-- Reading lines brings a stray brace exactly when one of them does. -/
theorem Reads.noStrays_iff {ls : List Text} (hreads : Reads s ls s') :
    NoStrays s'.productions ↔ NoStrays s.productions ∧ findLine? straysLine s ls = none := by
  induction hreads with
  | nil s => simp [findLine?]
  | @cons s next s' l ls hline _ ih =>
    have hfirst := segments_noStrays_iff _ hline
    rw [ih, hfirst, findLine?_cons_eq_none hline, and_assoc]
    rfl

theorem Reads.startsUnclosed {ls : List Text} (hreads : Reads s ls s')
    (hs : ∀ p ∈ s.productions, StartsUnclosed p) : ∀ p ∈ s'.productions, StartsUnclosed p := by
  induction hreads with
  | nil s => exact hs
  | cons hline _ ih => exact ih (segments_startsUnclosed _ hline hs)

end Scan

/-! ## Documents -/

namespace Document

variable {text : Text} {d : Document}

/-- No production starts with a closing brace; no production has a stray brace anywhere exactly when
no line brings one to the production that it adds or goes on with. -/
theorem parse_noStrays (h : Document.parse text = .ok d) :
    (∀ r ∈ d.rules, ∀ p ∈ r.productions, startsWith [closeBrace] (trim p) = false) ∧
    ((∀ r ∈ d.rules, ∀ p ∈ r.productions, ¬HasStrayBrace p) ↔
      Scan.findLine? Scan.straysLine Scan.start (lines text) = none) := by
  obtain ⟨s, hreads, hentries, -⟩ := parse_cases h
  have hmem : ∀ p, p ∈ s.productions ↔ ∃ r ∈ d.rules, p ∈ r.productions := by
    intro p
    rw [Scan.productions, ← hentries, List.mem_flatMap]
    constructor
    · rintro ⟨e, he, hp⟩
      cases e with
      | verbatim v => exact absurd hp (by simp [Entry.productions])
      | rule r => exact ⟨r, mem_rules.2 he, hp⟩
    · rintro ⟨r, hr, hp⟩
      exact ⟨_, mem_rules.1 hr, hp⟩
  have hstart : Scan.start.productions = [] := rfl
  constructor
  · intro r hr p hp
    obtain ⟨c, hc, hbrace⟩ := hreads.startsUnclosed (by simp [hstart]) p ((hmem p).2 ⟨r, hr, hp⟩)
    rw [← Bool.not_eq_true, startsWith_trim_iff, hc]
    exact fun hsame => hbrace (Option.some.inj hsame)
  · have hall :
        (∀ r ∈ d.rules, ∀ p ∈ r.productions, ¬HasStrayBrace p) ↔ NoStrays s.productions := by
      constructor
      · intro hrules p hp
        obtain ⟨r, hr, hp'⟩ := (hmem p).1 hp
        exact hrules r hr p hp'
      · intro hprods r hr p hp
        exact hprods p ((hmem p).2 ⟨r, hr, hp⟩)
    rw [hall, hreads.noStrays_iff, hstart]
    exact and_iff_right noStrays_nil

/-- A closing brace behind a symbol is read as part of the production. -/
theorem parse_noStrays_behind_symbol :
    ∃ d, Document.parse (bytes "a: b \x7d c\n") = .ok d ∧
      Scan.findLine? Scan.straysLine Scan.start (lines (bytes "a: b \x7d c\n"))
        = some (bytes "a: b \x7d c\n") ∧
      ¬∀ r ∈ d.rules, ∀ p ∈ r.productions, ¬HasStrayBrace p := by
  have h : Document.parse (bytes "a: b \x7d c\n")
      = .ok ⟨[.rule { name := bytes "a", line := 1, productions := [bytes "b \x7d c"] }]⟩ := by
    decide +kernel
  have hl : Scan.findLine? Scan.straysLine Scan.start (lines (bytes "a: b \x7d c\n"))
      = some (bytes "a: b \x7d c\n") := by decide +kernel
  refine ⟨_, h, hl, fun hall => ?_⟩
  have hnone := (parse_noStrays h).2.1 hall
  rw [hl] at hnone
  exact absurd hnone (by simp)

end Document

end GrammarLayout
