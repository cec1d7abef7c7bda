import GrammarLayout.Proofs.Grammar.Shape
import GrammarLayout.Proofs.Text.Comments

/-!
# Comments in a grammar without blocks

In a text without braces and quotes a comment at the end of a line stays in the
production that the line adds.  A later line that goes on with this production
is joined to it behind the hash mark: the comment swallows the line.  All other
lines add their code, and nothing but their code, to what was read.

What is proved here:

* `alternativesFrom_hash` — only the last alternative of a line holds its comment;
* `Rule.code_readProductions` — what a line adds to the code of a rule;
* `Scan.Step.code_kept`, `Scan.Reads.code_kept` — what one step and a whole run
  add to the code that was read.
-/

namespace GrammarLayout

open Ascii Text

/-! ## Texts without blocks and literals -/

/-- The text has neither braces nor quotes. -/
def Text.Bare (s : Text) : Prop :=
  ∀ c ∈ s, c ≠ openBrace ∧ c ≠ closeBrace ∧ isQuote c = false

theorem Text.Bare.of_subset {s t : Text} (h : s.Bare) (hsub : ∀ c ∈ t, c ∈ s) : t.Bare :=
  fun c hc => h c (hsub c hc)

theorem unclosedBrace?_of_bare {s : Text} (h : s.Bare) : unclosedBrace? s = none := by
  cases hs : unclosedBrace? s with
  | none => rfl
  | some i =>
    obtain ⟨rest, hrest⟩ := unclosedBrace?_eq hs
    have hmem : openBrace ∈ s := by
      rw [hrest]
      simp
    exact absurd rfl (h openBrace hmem).1

/-! ## Alternatives -/

/-- A comment stands in the last alternative of a line. -/
theorem alternativesFrom_hash {s : Text} (h : s.Bare) :
    ((alternativesFrom .code 0 s).2 ≠ [] → hash ∉ (alternativesFrom .code 0 s).1) ∧
      ∀ alt ∈ (alternativesFrom .code 0 s).2.dropLast, hash ∉ alt := by
  induction s with
  | nil => exact ⟨by simp [alternativesFrom], by simp [alternativesFrom]⟩
  | cons c s ih =>
    obtain ⟨hopen, hclose, hquote⟩ := h c List.mem_cons_self
    obtain ⟨hfirst, hlater⟩ := ih (h.of_subset fun b hb => List.mem_cons_of_mem c hb)
    have hplain : ¬(Quoting.code ≠ .code ∨ isQuote c = true) := by simp [hquote]
    simp only [alternativesFrom, if_neg hplain, if_neg hopen, if_neg hclose, Int.le_refl, and_true]
    by_cases hhash : c = hash
    · rw [if_pos hhash]
      exact ⟨fun hne => absurd rfl hne, by simp⟩
    · rw [if_neg hhash]
      by_cases hpipe : c = pipe
      · rw [if_pos hpipe]
        refine ⟨fun _ => by simp, fun alt halt => ?_⟩
        cases hrest : (alternativesFrom .code 0 s).2 with
        | nil => simp [hrest] at halt
        | cons second others =>
          rw [hrest, List.dropLast_cons_cons, List.mem_cons] at halt
          rcases halt with rfl | halt
          · exact hfirst (by rw [hrest]; simp)
          · exact hlater alt (by rwa [hrest])
      · rw [if_neg hpipe]
        refine ⟨fun hne hmem => ?_, hlater⟩
        rcases List.mem_cons.1 hmem with heq | hmem
        · exact hhash heq.symm
        · exact hfirst hne hmem

/-- The code of a line is the code of its alternatives as they are added. -/
theorem lineCode_readyAlternatives {text : Text} (h : text.Bare) (header : Bool) :
    lineCode text = (readyAlternatives text header).flatMap lineCode := by
  obtain ⟨hfirst, hlater⟩ := alternativesFrom_hash h
  -- Texts of which only the last may hold a comment have their code one after the other.
  have hparts : ∀ {ps : List Text}, (∀ p ∈ ps.dropLast, hash ∉ p) →
      uncommented (ps.flatMap ink) = ps.flatMap lineCode := by
    intro ps hps
    induction ps with
    | nil => rfl
    | cons p ps ih =>
      rw [List.flatMap_cons, List.flatMap_cons, uncommented_append]
      cases ps with
      | nil => simp [lineCode]
      | cons q ps =>
        rw [List.dropLast_cons_cons] at hps
        have hp : hash ∉ ink p := fun hmem => hps p List.mem_cons_self (mem_of_mem_ink hmem)
        rw [if_neg hp, ih fun p' hp' => hps p' (List.mem_cons_of_mem p hp')]
        rfl
  have hink : ink text = (readyAlternatives text header).flatMap ink := by
    obtain ⟨first, others, hready, hink, -⟩ := readyAlternatives_ink text header
    rw [hready, hink, List.flatMap_cons]
  rw [lineCode, hink]
  refine hparts fun p hp hmem => ?_
  -- An alternative is written with the bytes of its part of the line, blanks and a pipe.
  obtain ⟨first, rest, halts⟩ : ∃ first rest, alternatives text = (first, rest) := ⟨_, _, rfl⟩
  have halts' : alternativesFrom .code 0 text = (first, rest) := halts
  rw [halts'] at hfirst hlater
  rw [readyAlternatives, halts] at hp
  have hindent : hash ∉ (if header then [] else leadingBlanks text) := by
    intro hmem
    split at hmem
    · simp at hmem
    · exact absurd (List.mem_takeWhile_imp hmem) (by decide)
  set indent := if header then [] else leadingBlanks text
  set later := fun alt => trimEndWhile (· == space) (indent ++ bytes "| " ++ trim alt) with hdef
  have hwritten : ∀ alts : List Text, (∀ alt ∈ alts.dropLast, hash ∉ alt) →
      p ∉ (alts.map later).dropLast := by
    intro alts hnone hp
    rw [← List.map_dropLast] at hp
    obtain ⟨alt, halt, rfl⟩ := List.mem_map.1 hp
    refine hnone alt halt ?_
    rcases List.mem_append.1 (mem_of_mem_trimEndWhile hmem) with hmem | hmem
    · rcases List.mem_append.1 hmem with hmem | hmem
      · exact absurd hmem hindent
      · exact absurd hmem (by decide)
    · exact mem_of_mem_trim hmem
  cases rest with
  | nil => simp at hp
  | cons second others =>
    have hnone := hfirst (by simp)
    simp only at hp
    split at hp
    · by_cases hothers : others = []
      · simp [hothers] at hp
      · rw [List.dropLast_cons_of_ne_nil (by simpa using hothers), List.mem_cons] at hp
        have hdrop : (second :: others).dropLast = second :: others.dropLast :=
          List.dropLast_cons_of_ne_nil hothers
        rw [hdrop] at hlater
        rcases hp with rfl | hp
        · rcases List.mem_append.1 hmem with hmem | hmem
          · exact hnone hmem
          · rcases List.mem_cons.1 hmem with hmem | hmem
            · exact absurd hmem (by decide)
            · exact hlater second List.mem_cons_self hmem
        · exact hwritten others (fun alt halt => hlater alt (List.mem_cons_of_mem _ halt)) hp
    · rw [List.dropLast_cons_of_ne_nil (by simp), List.mem_cons] at hp
      rcases hp with rfl | hp
      · exact hnone hmem
      · exact hwritten (second :: others) hlater hp

/-! ## Rules -/

namespace Rule

/-- The code of the productions of a rule. -/
def bodyCode (r : Rule) : Text := r.productions.flatMap lineCode

/-- Does the last production end in a comment? -/
def endsInComment (r : Rule) : Bool := r.productions.getLast?.any fun p => p.contains hash

/-- Is text swallowed by the comment at the end of the rule? -/
def swallows (r : Rule) (text : Text) : Bool :=
  r.endsInComment && !(isSpaces text || hasPipe text)

theorem bodyCode_addProduction (r : Rule) (p : Text) :
    (r.addProduction p).bodyCode = r.bodyCode ++ lineCode p := by
  simp [bodyCode, addProduction]

/-- A continuation adds its code, unless the last production ends in a comment. -/
theorem bodyCode_extendProduction {r : Rule} (hps : r.productions ≠ []) (t : Text) :
    (r.extendProduction t).bodyCode
      = r.bodyCode ++ if r.endsInComment then [] else lineCode t := by
  obtain ⟨ps, p, hcut, -⟩ := exists_concat hps
  have hext : (r.extendProduction t).productions = ps ++ [trimBlanksEnd p ++ space :: trim t] := by
    simp [extendProduction, hcut]
  have hends : r.endsInComment = true ↔ hash ∈ ink p := by
    rw [endsInComment, hcut, List.getLast?_concat, Option.any_some, List.contains_iff_mem,
      hash_mem_ink_iff]
  have hline : lineCode (trimBlanksEnd p ++ space :: trim t)
      = lineCode p ++ if hash ∈ ink p then [] else lineCode t := by
    rw [lineCode, ink_append_space, ink_trimBlanksEnd, ink_trim, uncommented_append]
    rfl
  rw [bodyCode, hext, List.flatMap_append, List.flatMap_cons, List.flatMap_nil, List.append_nil,
    hline, bodyCode, hcut, List.flatMap_append, List.flatMap_cons, List.flatMap_nil,
    List.append_nil, List.append_assoc]
  simp only [hends]

/-- An alternative adds its code, unless it is swallowed. -/
theorem code_readAlternative {r r' : Rule} {text : Text} {header : Bool}
    (hr : r.readAlternative text header = .ok r') :
    r'.bodyCode = r.bodyCode ++ if r.swallows text then [] else lineCode text := by
  rcases readAlternative_cases hr with ⟨hblank, rfl⟩ | ⟨hink, hstart, p, hp, rfl⟩ |
    ⟨hink, hne, hpipe, rfl⟩
  · simp [swallows, hblank, lineCode_of_isSpaces hblank]
  · have hsame : lineCode p = lineCode text := by
      rcases hp with rfl | rfl
      · exact lineCode_of_ink (ink_trim text)
      · exact lineCode_of_ink (ink_trimBlanksEnd text)
    have hstay : r.swallows text = false := by
      rcases hstart with hnil | hpiped
      · simp [swallows, endsInComment, hnil]
      · simp [swallows, hpiped]
    rw [bodyCode_addProduction, hsame, hstay]
    rfl
  · have hends : r.swallows text = r.endsInComment := by simp [swallows, hink, hpipe]
    rw [bodyCode_extendProduction hne, hends, lineCode_of_ink (ink_trim text)]

theorem code_foldlM_readAlternative {header : Bool} {alts : List Text} {r r' : Rule}
    (hpiped : ∀ p ∈ alts, hasPipe p = true)
    (hr : alts.foldlM (fun r alt => r.readAlternative alt header) r = .ok r') :
    r'.bodyCode = r.bodyCode ++ alts.flatMap lineCode := by
  induction alts generalizing r with
  | nil =>
    rw [← Except.ok.inj hr]
    simp
  | cons p alts ih =>
    rw [List.foldlM_cons] at hr
    obtain ⟨next, hp, hnext⟩ := exists_of_bind_eq_ok hr
    have hstay : r.swallows p = false := by simp [swallows, hpiped p List.mem_cons_self]
    rw [ih (fun q hq => hpiped q (List.mem_cons_of_mem p hq)) hnext, code_readAlternative hp, hstay,
      List.flatMap_cons]
    simp

/-- A line adds its code to a rule; when it is swallowed, code is lost. -/
theorem code_readProductions {r r' : Rule} {text : Text} {header : Bool} (h : text.Bare)
    (hr : r.readProductions text header = .ok r') :
    (r.swallows text = false → r'.bodyCode = r.bodyCode ++ lineCode text) ∧
      (r.swallows text = true → ∀ c, (ink text).head? = some c → c ≠ hash → c ≠ semicolon →
        r'.bodyCode.length < (r.bodyCode ++ lineCode text).length) := by
  obtain ⟨first, others, hready, -, hpiped, hhead⟩ := readyAlternatives_ink text header
  have htext : lineCode text = lineCode first ++ others.flatMap lineCode := by
    rw [lineCode_readyAlternatives h header, hready, List.flatMap_cons]
  -- Whether the first alternative is swallowed shows at the first visible byte.
  have hswallows : r.swallows first = r.swallows text := by
    have hblank : isSpaces first = isSpaces text := by
      rw [Bool.eq_iff_iff, ← ink_eq_nil_iff, ← ink_eq_nil_iff, ← List.head?_eq_none_iff,
        ← List.head?_eq_none_iff, hhead]
    have hpipe : hasPipe first = hasPipe text := by
      rw [Bool.eq_iff_iff, hasPipe_iff, hasPipe_iff, hhead]
    rw [swallows, swallows, hblank, hpipe]
  rw [readProductions, hready, List.foldlM_cons] at hr
  obtain ⟨next, hp, hnext⟩ := exists_of_bind_eq_ok hr
  rw [code_foldlM_readAlternative hpiped hnext, code_readAlternative hp, hswallows, htext]
  constructor
  · intro hstay
    rw [hstay]
    simp
  · intro hlost c hc hhash hsemi
    obtain ⟨t, ht⟩ := List.head?_eq_some_iff.1 (hhead.trans hc)
    have hcode : lineCode first = c :: uncommented t := by
      rw [lineCode, ht, uncommented_cons hhash hsemi]
    rw [hlost, if_pos rfl, List.append_nil, hcode]
    simp only [List.length_append, List.length_cons]
    omega

end Rule

/-! ## The state of the reader -/

/-- The code of an entry: of a rule, its name, its colon and its productions. -/
def Entry.code : Entry → Text
  | .verbatim v => Text.code v.text
  | .rule r => withoutSemicolons (ink r.name) ++ colon :: r.bodyCode

/-- The code of entries, one after the other. -/
def entriesCode (es : List Entry) : Text := es.flatMap Entry.code

@[simp] theorem entriesCode_append (es fs : List Entry) :
    entriesCode (es ++ fs) = entriesCode es ++ entriesCode fs := List.flatMap_append

@[simp] theorem entriesCode_cons (e : Entry) (es : List Entry) :
    entriesCode (e :: es) = e.code ++ entriesCode es := rfl

namespace Scan

/-- The reader is in no block, and the lines kept since the header of the open rule have no code. -/
structure Quiet (s : Scan) : Prop where
  /-- No block is open. -/
  mode : ∀ r a, s.mode ≠ .action r a
  /-- The kept lines have no code. -/
  after : ∀ r, s.openRule? = some r → ∀ v ∈ r.after, Text.code v.text = []

/-- Is a line swallowed by the comment at the end of the open rule's last production? -/
def swallows (s : Scan) (raw : Text) : Bool :=
  match s.mode with
  | .body r => r.rule.endsInComment && isBodyLine (trimTerminator raw) && goesOn (trimTerminator raw)
  | _ => false

variable {s s' : Scan} {r : OpenRule} {line : Text} {t : Option Text}

theorem entriesCode_of_openRule (h : s.Quiet) (hr : s.openRule? = some r) :
    entriesCode s.entries
      = entriesCode s.closed ++ (withoutSemicolons (ink r.rule.name) ++ colon :: r.rule.bodyCode) := by
  have hafter : entriesCode (r.after.map .verbatim) = [] := by
    rw [entriesCode, List.flatMap_map, List.flatMap_eq_nil_iff]
    exact h.after r hr
  rw [entries_of_openRule hr, entriesCode_append, entriesCode_cons, hafter, List.append_nil]
  rfl

theorem entriesCode_keep (s : Scan) (raw : Text) :
    entriesCode (s.keep raw).entries = entriesCode s.entries ++ Text.code raw := by
  rw [entries_keep, entriesCode_append]
  simp [entriesCode, Entry.code]

theorem entriesCode_leave (s : Scan) {m : Mode} (hm : m = .outside ∨ m = .footer) :
    entriesCode (s.leave m).entries = entriesCode s.entries := by
  rw [s.entries_leave hm]

theorem quiet_leave (s : Scan) {m : Mode} (hm : m = .outside ∨ m = .footer) : (s.leave m).Quiet := by
  rcases hm with rfl | rfl <;> exact ⟨by simp [leave], by simp [leave, openRule?]⟩

theorem quiet_leave_newRule (s : Scan) (name : Text) :
    (s.leave (.body (s.newRule name))).Quiet := by
  refine ⟨by simp [leave], fun r hr v hv => ?_⟩
  obtain rfl : s.newRule name = r := Option.some.inj hr
  simp [newRule] at hv

/-- A kept line leaves the reader quiet when it has no code or no rule is open. -/
theorem Quiet.keep (h : s.Quiet) {raw : Text} (hraw : s.openRule? = none ∨ Text.code raw = []) :
    (s.keep raw).Quiet := by
  refine ⟨mode_keep h.mode raw, fun r hr v hv => ?_⟩
  unfold Scan.keep at hr
  cases hm : s.mode with
  | outside => simp [openRule?, hm] at hr
  | footer => simp [openRule?, hm] at hr
  | action r' a => exact absurd hm (h.mode r' a)
  | body r' =>
    have hopen : s.openRule? = some r' := by simp [openRule?, hm]
    obtain rfl : { r' with after := r'.after ++ [⟨raw, false⟩] } = r := by
      simpa [openRule?, hm] using hr
    rcases List.mem_append.1 hv with hv | hv
    · exact h.after r' hopen v hv
    · rw [List.mem_singleton.1 hv]
      exact hraw.resolve_left (by simp [hopen])

/-! ## One step -/

/-- Replacing the open rule leaves the reader quiet and changes the code of the rule. -/
theorem Quiet.withRule {rule : Rule} (h : s.Quiet) (hr : s.openRule? = some r)
    (hname : rule.name = r.rule.name) :
    (s.withRule r rule).Quiet ∧ ∃ front, entriesCode s.entries = front ++ r.rule.bodyCode ∧
      entriesCode (s.withRule r rule).entries = front ++ rule.bodyCode := by
  have hquiet : (s.withRule r rule).Quiet := by
    refine ⟨by simp [Scan.withRule], fun r' hr' v hv => ?_⟩
    obtain rfl : { r with rule := rule } = r' := Option.some.inj hr'
    exact h.after r hr v hv
  refine ⟨hquiet, entriesCode s.closed ++ (withoutSemicolons (ink r.rule.name) ++ [colon]), ?_, ?_⟩
  · rw [entriesCode_of_openRule h hr]
    simp
  · rw [entriesCode_of_openRule (r := { r with rule := rule }) hquiet rfl, hname]
    simp [Scan.withRule]

/-- What a step does to the code: it adds `added`, or less of it when the line is swallowed. -/
structure CodeKept (swallowed : Bool) (s s' : Scan) (t : Option Text) (added : Text) : Prop where
  /-- The reader stays quiet. -/
  quiet : s'.Quiet
  /-- The code that is added. -/
  same : swallowed = false →
    entriesCode s'.entries ++ lineCode (t.getD []) = entriesCode s.entries ++ added
  /-- Code is lost. -/
  lost : swallowed = true →
    (entriesCode s'.entries ++ lineCode (t.getD [])).length < (entriesCode s.entries ++ added).length

theorem BodyStep.code_kept {header : Bool} (h : s.Quiet) (hsound : s.Sound)
    (hmode : s.mode = .body r) (hline : line.Bare)
    (hcomment : r.rule.endsInComment = true → startsWith [hash] (trim line) = false)
    (hink : isSpaces line = false) (hstep : s.BodyStep r line header s' t) :
    CodeKept (r.rule.endsInComment && goesOn line) s s' t (lineCode line) := by
  have hr : s.openRule? = some r := by simp [openRule?, hmode]
  have hrule : r.rule.Ordered := by
    have := hsound.mode
    rwa [hmode] at this
  -- The productions are read from a text that starts like the line and has its code.
  have hread : ∀ {text : Text} {rule : Rule}, startsWith [semicolon] (trim line) = false →
      ((unclosedBrace? line).filter fun i => 0 < braceBalance (line.drop i)) = none →
      (∀ c ∈ text, c ∈ line) → (ink text).head? = (ink line).head? →
      lineCode text = lineCode line → r.rule.readProductions text header = .ok rule →
      CodeKept (r.rule.endsInComment && goesOn line) s (s.withRule r rule) none (lineCode line) := by
    intro text rule hsemi hopen hsub hhead hcode hprod
    obtain ⟨hquiet, front, hs, hs'⟩ :=
      h.withRule hr (Rule.readProductions_grown (o := false) hrule hprod (by simp)).name
    have hswallows : r.rule.swallows text = (r.rule.endsInComment && goesOn line) := by
      have hblank : isSpaces text = false := by
        rw [← Bool.not_eq_true, ← ink_eq_nil_iff] at hink ⊢
        rwa [← List.head?_eq_none_iff, hhead, List.head?_eq_none_iff]
      have hpipe : hasPipe text = hasPipe line := by
        rw [Bool.eq_iff_iff, Rule.hasPipe_iff, Rule.hasPipe_iff, hhead]
      simp [Rule.swallows, goesOn, opensBlock, hopen, hsemi, hblank, hpipe]
    obtain ⟨hsame, hlost⟩ := Rule.code_readProductions (hline.of_subset hsub) hprod
    rw [hswallows, hcode] at hsame hlost
    refine ⟨hquiet, fun hstay => ?_, fun hgone => ?_⟩
    · rw [hs', hs, hsame hstay, Option.getD_none, lineCode_nil]
      simp
    · obtain ⟨c, x, hx⟩ := List.exists_cons_of_ne_nil (fun hnil => by
        rw [← Bool.not_eq_true, ← ink_eq_nil_iff] at hink
        exact hink hnil : ink line ≠ [])
      have hc : (ink text).head? = some c := by rw [hhead, hx]; rfl
      have hhash : c ≠ Ascii.hash := by
        rintro rfl
        have hstart := hcomment (Bool.and_eq_true_iff.1 hgone).1
        rw [← Bool.not_eq_true, startsWith_trim_iff, hx] at hstart
        exact hstart rfl
      have hne : c ≠ semicolon := by
        rintro rfl
        rw [← Bool.not_eq_true, startsWith_trim_iff, hx] at hsemi
        exact hsemi rfl
      have hlt := hlost hgone c hc hhash hne
      rw [hs', hs, Option.getD_none, lineCode_nil, List.append_nil, List.append_assoc,
        List.length_append, List.length_append]
      omega
  cases hstep with
  | @closed tail hsemi =>
    have hgoes : goesOn line = false := by
      simp [goesOn, startsWith_singleton_iff.2 (by rw [hsemi]; rfl : (trim line).head? = some semicolon)]
    have hcode : lineCode line = lineCode tail := by
      rw [lineCode, ← ink_trim, hsemi, ink_semicolon, uncommented_semicolon]
      rfl
    have hrest : lineCode ((if (trim tail).isEmpty then none else some (trim tail)).getD [])
        = lineCode tail := by
      split
      · rename_i hempty
        rw [isEmpty_trim] at hempty
        rw [lineCode_of_isSpaces hempty]
        rfl
      · exact lineCode_of_ink (ink_trim tail)
    refine ⟨quiet_leave s (Or.inl rfl), fun _ => ?_, fun hgone => ?_⟩
    · rw [entriesCode_leave s (Or.inl rfl), hrest, hcode]
    · simp [hgoes] at hgone
  | opened hbrace => simp [unclosedBrace?_of_bare hline] at hbrace
  | openedBehind _ hbrace => simp [unclosedBrace?_of_bare hline] at hbrace
  | productions hsemi hopen hend hprod =>
    exact hread hsemi hopen (fun _ hc => hc) rfl rfl hprod
  | @terminated rule hsemi hopen hend hprod =>
    have hcode : lineCode (dropEnd [semicolon] (trimBlanksEnd line)) = lineCode line := by
      by_cases hlast : endsWith [semicolon] (trimBlanksEnd line) = true
      · obtain ⟨u, hu⟩ := endsWith_singleton_iff.1 hlast
        have hlineInk : ink line = ink u ++ [semicolon] := by
          rw [← ink_trimBlanksEnd line, hu, ink_append_semicolon, ink_nil]
        rw [hu, dropEnd_concat, lineCode, lineCode, hlineInk, uncommented_concat_semicolon]
      · rw [dropEnd, if_neg hlast]
        exact lineCode_of_ink (ink_trimBlanksEnd line)
    have hkept := hread hsemi hopen (fun c hc => mem_of_mem_trimEndWhile (mem_of_mem_dropEnd hc))
      (head?_ink_dropEnd_semicolon hsemi) hcode hprod
    refine ⟨quiet_leave _ (Or.inl rfl), ?_, ?_⟩
    · rw [entriesCode_leave _ (Or.inl rfl)]
      exact hkept.same
    · rw [entriesCode_leave _ (Or.inl rfl)]
      exact hkept.lost

/-- The code of a header is its name, its colon and the code behind it. -/
theorem lineCode_header? {line name rest : Text} (h : header? line = some (name, rest)) :
    lineCode line = withoutSemicolons (ink name) ++ colon :: lineCode rest := by
  have hname : Ascii.hash ∉ ink name := by
    intro hmem
    exact absurd (isWordByte_of_mem_name h _ (mem_of_mem_ink hmem) (by decide)) (by decide)
  rw [lineCode, ink_header? h, uncommented_append, if_neg hname, uncommented_of_notMem hname,
    uncommented_cons (by decide) (by decide)]
  rfl

theorem entriesCode_leave_newRule (s : Scan) (name : Text) :
    entriesCode (s.leave (.body (s.newRule name))).entries
      = entriesCode s.entries ++ (withoutSemicolons (ink name) ++ [colon]) := by
  rw [entriesCode_of_openRule (quiet_leave_newRule s name) (r := s.newRule name) rfl]
  simp [leave, newRule, Rule.bodyCode]

/-- One step of the reader adds the code of the line, unless the line is swallowed. -/
theorem Step.code_kept {raw : Text} (h : s.Quiet) (hsound : s.Sound) (hraw : IsLine raw)
    (hbare : raw.Bare) (hstep : s.Step raw s' t) :
    CodeKept (s.swallows raw) s s' t (lineCode raw) := by
  have hline : lineCode (trimTerminator raw) = lineCode raw :=
    lineCode_of_ink (ink_trimTerminator raw)
  have hbareLine : (trimTerminator raw).Bare :=
    hbare.of_subset fun c hc => mem_of_mem_trimEndWhile hc
  -- A line that is no line of a body is not swallowed.
  have hfree : isBodyLine (trimTerminator raw) = false ∨ s.openRule? = none →
      s.swallows raw = false := by
    intro hfree
    cases hm : s.mode with
    | body r =>
      rcases hfree with hfree | hnone
      · simp [swallows, hm, hfree]
      · simp [openRule?, hm] at hnone
    | _ => simp [swallows, hm]
  have hadded : s.swallows raw = false → s'.Quiet →
      entriesCode s'.entries ++ lineCode (t.getD []) = entriesCode s.entries ++ lineCode raw →
      CodeKept (s.swallows raw) s s' t (lineCode raw) :=
    fun hstay hquiet hsame => ⟨hquiet, fun _ => hsame, by simp [hstay]⟩
  cases hstep with
  | footer hmode =>
    have hnone : s.openRule? = none := by simp [openRule?, hmode]
    refine hadded (hfree (Or.inr hnone)) (h.keep (Or.inl hnone)) ?_
    rw [entriesCode_keep, code_of_isLine hraw]
    simp
  | action hmode => exact absurd hmode (h.mode _ _)
  | aside hmode hblank =>
    have hcode : Text.code raw = [] := by
      rw [code_of_isLine hraw, ← hline]
      rcases hblank with hblank | hcomment
      · exact lineCode_of_isSpaces hblank
      · exact lineCode_of_hash hcomment
    refine hadded (hfree (Or.inl ?_)) (h.keep (Or.inr hcode)) ?_
    · rcases hblank with hblank | hcomment
      · simp [isBodyLine, hblank]
      · simp [isBodyLine, hcomment]
    · rw [entriesCode_keep, code_of_isLine hraw]
      simp
  | marker hmode hmarker =>
    refine hadded (hfree (Or.inl (by simp [isBodyLine, hmarker])))
      ((quiet_leave s (Or.inr rfl)).keep (Or.inl (by simp [leave, openRule?]))) ?_
    rw [entriesCode_keep, entriesCode_leave s (Or.inr rfl), code_of_isLine hraw]
    simp
  | header hmode hheader hrest =>
    refine hadded (hfree (Or.inl (by simp [isBodyLine, hheader]))) (quiet_leave_newRule s _) ?_
    rw [entriesCode_leave_newRule, ← hline, lineCode_header? hheader, lineCode_of_isSpaces hrest]
    simp
  | @headerComment name rest hmode hheader hrest =>
    have hnewline : newline ∉ trim rest := by
      intro hmem
      obtain ⟨w₁, w₂, hcut, -⟩ := header?_eq hheader
      refine hraw.notMem_trimTerminator ?_
      rw [hcut]
      simp [mem_of_mem_trim hmem]
    have hcode : Text.code (trim rest ++ [newline]) = [] := by
      rw [code_append_newline, code_nil, List.append_nil, code_of_notMem hnewline,
        lineCode_of_ink (ink_trim rest), lineCode_of_hash hrest]
    refine hadded (hfree (Or.inl (by simp [isBodyLine, hheader])))
      ((quiet_leave_newRule s _).keep (Or.inr hcode)) ?_
    rw [entriesCode_keep, hcode, entriesCode_leave_newRule, ← hline, lineCode_header? hheader,
      lineCode_of_hash hrest]
    simp
  | @headerBody name rest _ _ hmode hheader hrest hstep =>
    have hbareRest : Text.Bare rest := by
      refine hbareLine.of_subset fun c hc => ?_
      obtain ⟨w₁, w₂, hcut, -⟩ := header?_eq hheader
      rw [hcut]
      simp [hc]
    have hnew : (s.newRule name).rule.endsInComment = false := rfl
    have hkept := hstep.code_kept (quiet_leave_newRule s name) (hsound.leave_newRule name) rfl
      hbareRest (by simp [hnew]) hrest
    refine hadded (hfree (Or.inl (by simp [isBodyLine, hheader]))) hkept.quiet ?_
    rw [hkept.same (by simp [hnew]), entriesCode_leave_newRule, ← hline, lineCode_header? hheader]
    simp
  | stop hmode hend =>
    refine hadded (hfree (Or.inl (by simp [isBodyLine, hend])))
      ((quiet_leave s (Or.inl rfl)).keep (Or.inl (by simp [leave, openRule?]))) ?_
    rw [entriesCode_keep, entriesCode_leave s (Or.inl rfl), code_of_isLine hraw]
    simp
  | outside hmode =>
    have hnone : s.openRule? = none := by simp [openRule?, hmode]
    refine hadded (hfree (Or.inr hnone)) (h.keep (Or.inl hnone)) ?_
    rw [entriesCode_keep, code_of_isLine hraw]
    simp
  | @body r _ _ hmode hink hcomment hmarker hheader hend hstep =>
    have hswallows : s.swallows raw
        = (r.rule.endsInComment && goesOn (trimTerminator raw)) := by
      have hword : (trim (trimTerminator raw) == bytes "end") = false := by simpa using hend
      simp [swallows, hmode, isBodyLine, hink, hcomment, hmarker, hheader, hword]
    rw [hswallows, ← hline]
    exact hstep.code_kept h hsound hmode hbareLine (fun _ => hcomment) hink

/-! ## Whole texts -/

theorem LineSteps.code_kept {raw : Text} (h : s.Quiet) (hsound : s.Sound) (hraw : IsLine raw)
    (hbare : raw.Bare) (hsteps : LineSteps s raw s') :
    CodeKept (s.swallows raw) s s' none (lineCode raw) := by
  induction hsteps with
  | last hstep => exact hstep.code_kept h hsound hraw hbare
  | @more s next s' raw rest hstep _ ih =>
    have hfirst := hstep.code_kept h hsound hraw hbare
    have hnewline : newline ∉ rest :=
      fun hmem => hraw.notMem_trimTerminator (hstep.mem_rest newline hmem)
    have hbareRest : (rest ++ [newline]).Bare := by
      intro c hc
      rcases List.mem_append.1 hc with hc | hc
      · exact hbare c (mem_of_mem_trimEndWhile (hstep.mem_rest c hc))
      · rw [List.mem_singleton.1 hc]
        decide
    have hlast := ih hfirst.quiet (hstep.sound_kept (o := false) hsound (by simp)).1
      (isLine_concat hnewline) hbareRest
    have hcode : lineCode (rest ++ [newline]) = lineCode rest :=
      lineCode_of_ink (by rw [ink_append_newline, ink_nil, List.append_nil])
    -- What is left is read outside every rule, where nothing is swallowed.
    have hsame := hlast.same (by simp [swallows, hstep.mode_of_some])
    rw [hcode, Option.getD_none, lineCode_nil, List.append_nil] at hsame
    refine ⟨hlast.quiet, fun hstay => ?_, fun hgone => ?_⟩
    · rw [Option.getD_none, lineCode_nil, List.append_nil, hsame]
      exact hfirst.same hstay
    · rw [Option.getD_none, lineCode_nil, List.append_nil, hsame]
      exact hfirst.lost hgone

/-- Reading lines adds their code, unless one of them is swallowed. -/
theorem Reads.code_kept {ls : List Text} (h : s.Quiet) (hsound : s.Sound)
    (hls : ∀ l ∈ ls, IsLine l ∧ l.Bare) (hreads : Reads s ls s') :
    CodeKept (findLine? swallows s ls).isSome s s' none (ls.flatMap lineCode) := by
  induction hreads with
  | nil s => exact ⟨h, by simp, by simp [findLine?]⟩
  | @cons s next s' l ls hline _ ih =>
    have hcounted : Scan.Sound { s with lines := s.lines + 1 } := ⟨hsound.closed, hsound.mode⟩
    have hquiet : Scan.Quiet { s with lines := s.lines + 1 } := ⟨h.mode, h.after⟩
    have hsteps := line_lineSteps hline
    obtain ⟨hl, hbare⟩ := hls l List.mem_cons_self
    have hfirst := hsteps.code_kept hquiet hcounted hl hbare
    have hrest := ih hfirst.quiet (hsteps.sound_kept (o := false) hcounted (by simp)).1
      fun k hk => hls k (List.mem_cons_of_mem l hk)
    have hswallows : Scan.swallows { s with lines := s.lines + 1 } l = s.swallows l := rfl
    have hentries : Scan.entries { s with lines := s.lines + 1 } = s.entries := rfl
    obtain ⟨-, hsame₁, hlost₁⟩ := hfirst
    obtain ⟨hquiet, hsame₂, hlost₂⟩ := hrest
    simp only [hswallows, hentries, Option.getD_none, lineCode_nil, List.append_nil] at hsame₁ hlost₁
    simp only [Option.getD_none, lineCode_nil, List.append_nil] at hsame₂ hlost₂
    -- Neither the first line nor the others ever add more than their code.
    have hle₁ : (entriesCode next.entries).length
        ≤ (entriesCode s.entries ++ lineCode l).length := by
      by_cases hl : s.swallows l = true
      · exact (hlost₁ hl).le
      · rw [hsame₁ (by simpa using hl)]
    have hle₂ : (entriesCode s'.entries).length
        ≤ (entriesCode next.entries ++ ls.flatMap lineCode).length := by
      by_cases hls : (findLine? swallows next ls).isSome = true
      · exact (hlost₂ hls).le
      · rw [hsame₂ (by simpa using hls)]
    rw [findLine?, hline]
    refine ⟨hquiet, fun hstay => ?_, fun hgone => ?_⟩
    all_goals
      rw [Option.getD_none, lineCode_nil, List.append_nil, List.flatMap_cons]
      by_cases hl : s.swallows l = true
    · simp [hl] at hstay
    · rw [if_neg hl] at hstay
      rw [hsame₂ hstay, hsame₁ (by simpa using hl), List.append_assoc]
    · have hlt := hlost₁ hl
      simp only [List.length_append] at hlt hle₂ ⊢
      omega
    · rw [if_neg hl] at hgone
      have hlt := hlost₂ hgone
      simp only [List.length_append] at hlt hle₁ ⊢
      omega

end Scan

/-- The code of a document that was read is that of its text when no line is swallowed, and shorter
otherwise. -/
theorem Document.parse_code {text : Text} {d : Document} (hbare : text.Bare)
    (h : Document.parse text = .ok d) :
    (Scan.findLine? Scan.swallows Scan.start (lines text) = none →
      entriesCode d.entries = code text) ∧
    (Scan.findLine? Scan.swallows Scan.start (lines text) ≠ none →
      (entriesCode d.entries).length < (code text).length) := by
  obtain ⟨s, hreads, hentries, -⟩ := parse_cases h
  have hlines : ∀ l ∈ lines text, IsLine l ∧ l.Bare := by
    intro l hl
    refine ⟨exists_of_mem_lines hl, hbare.of_subset fun c hc => ?_⟩
    rw [← flatten_lines text]
    exact List.mem_flatten.2 ⟨l, hl, hc⟩
  have hcode : code text = (lines text).flatMap lineCode := by
    conv => lhs; rw [← flatten_lines text]
    rw [code_flatten (endedLines_lines text), List.flatMap_def, List.flatMap_def,
      List.map_congr_left fun l hl => code_of_isLine (hlines l hl).1]
  have hstart : Scan.start.Quiet := ⟨by simp [Scan.start], by simp [Scan.start, Scan.openRule?]⟩
  have hsound : Scan.start.Sound := ⟨by simp [Scan.start], trivial⟩
  have hnothing : entriesCode Scan.start.entries = [] := rfl
  obtain ⟨-, hsame, hlost⟩ := hreads.code_kept hstart hsound hlines
  rw [Option.getD_none, lineCode_nil, List.append_nil, hnothing, List.nil_append, ← hentries,
    ← hcode] at hsame hlost
  refine ⟨fun hnone => hsame (by rw [hnone]; rfl), fun hsome => hlost ?_⟩
  exact Option.isSome_iff_ne_none.2 hsome

end GrammarLayout
