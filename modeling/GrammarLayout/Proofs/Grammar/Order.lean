import GrammarLayout.Proofs.Grammar.Conservation

/-!
# When reading keeps the order

Text that goes on with a production is written before the blocks that follow
this production.  A line does so behind a block exactly when it interrupts the
blocks of the last production; without such a line the order of everything read
is kept, and the first such line breaks it unless it starts with a block of its
own.

The second half needs what is written already and stays in front: the firm ink
of the reader is everything but the blocks of the last production.  Each step
adds to it at the end only.

What is proved here:

* `Scan.Step.extends_firm`, `Scan.Reads.extends_firm` — what stands firm stays
  in front;
* `Scan.LineSteps.firm_of_interrupts` — a line that interrupts is written
  directly behind what stands firm, before the blocks that were read earlier;
* `Document.parse_order` — when the order of a text is kept, and when it is not.
-/

namespace GrammarLayout

open Ascii Text

/-! ## Firm ink -/

namespace Rule

/-- An alternative is read behind the firm ink; directly behind it when it continues the last
production. -/
theorem firmInk_readAlternative {r r' : Rule} {text : Text} {header : Bool}
    (hr : r.readAlternative text header = .ok r') :
    (∃ added, r'.firmInk = r.firmInk ++ added) ∧
      (r.productions ≠ [] → hasPipe text = false → r'.firmInk = r.firmInk ++ ink text) := by
  rcases readAlternative_cases hr with ⟨hblank, rfl⟩ | ⟨-, hstart, p, -, rfl⟩ | ⟨-, hne, -, rfl⟩
  · have hsame : r'.firmInk = r'.firmInk ++ ink text := by
      rw [ink_of_isSpaces hblank, List.append_nil]
    exact ⟨⟨_, hsame⟩, fun _ _ => hsame⟩
  · refine ⟨?_, fun hne hpipe => ?_⟩
    · exact ⟨_, by rw [firmInk_addProduction, bodyInk_eq_firmInk, List.append_assoc]⟩
    · rcases hstart with hnil | hpiped
      · exact absurd hnil hne
      · simp [hpiped] at hpipe
  · have hext : (r.extendProduction (trim text)).firmInk = r.firmInk ++ ink text := by
      rw [firmInk_extendProduction hne, ink_trim]
    exact ⟨⟨_, hext⟩, fun _ _ => hext⟩

theorem firmInk_foldlM_readAlternative {header : Bool} {alts : List Text} {r r' : Rule}
    (hr : alts.foldlM (fun r alt => r.readAlternative alt header) r = .ok r') :
    ∃ added, r'.firmInk = r.firmInk ++ added := by
  induction alts generalizing r with
  | nil =>
    rw [← Except.ok.inj hr]
    exact ⟨[], (List.append_nil _).symm⟩
  | cons p alts ih =>
    rw [List.foldlM_cons] at hr
    obtain ⟨next, hp, hnext⟩ := exists_of_bind_eq_ok hr
    obtain ⟨added, hadded⟩ := (firmInk_readAlternative hp).1
    obtain ⟨later, hlater⟩ := ih hnext
    exact ⟨added ++ later, by rw [hlater, hadded, List.append_assoc]⟩

/-- Text that goes on with the last production is read directly behind the firm ink. -/
theorem firmInk_readProductions {r r' : Rule} {text : Text} {header : Bool}
    (hr : r.readProductions text header = .ok r') (hps : r.productions ≠ [])
    (hpipe : hasPipe text = false) {c : UInt8} (hc : (ink text).head? = some c) :
    ∃ added, r'.firmInk = r.firmInk ++ c :: added := by
  obtain ⟨first, others, hready, -, -, hhead⟩ := readyAlternatives_ink text header
  rw [readProductions, hready, List.foldlM_cons] at hr
  obtain ⟨next, hp, hnext⟩ := exists_of_bind_eq_ok hr
  have hfirst : hasPipe first = false := by
    rw [← Bool.not_eq_true] at hpipe ⊢
    rwa [hasPipe_iff, hhead, ← hasPipe_iff]
  obtain ⟨t, ht⟩ := List.head?_eq_some_iff.1 (hhead.trans hc)
  obtain ⟨later, hlater⟩ := firmInk_foldlM_readAlternative hnext
  refine ⟨t ++ later, ?_⟩
  rw [hlater, (firmInk_readAlternative hp).2 hps hfirst, ht, List.append_assoc, List.cons_append]

theorem name_readProductions {r r' : Rule} {text : Text} {header : Bool} (h : r.Ordered)
    (hr : r.readProductions text header = .ok r') : r'.name = r.name :=
  (readProductions_grown (o := false) h hr (by simp)).name

end Rule

namespace Scan

/-- The ink of what was read that stays in front of everything still to be read. -/
def firm (s : Scan) : Text :=
  entriesInk s.closed ++ match s.openRule? with
    | none => []
    | some r => ink r.rule.name ++ colon :: r.rule.firmInk

/-- What stands firm in `s` still does in `s'`. -/
def Extends (s s' : Scan) : Prop := ∃ added, s'.firm = s.firm ++ added

variable {s s' s'' : Scan} {r : OpenRule} {line : Text} {t : Option Text}

theorem Extends.refl (s : Scan) : s.Extends s := ⟨[], (List.append_nil _).symm⟩

theorem Extends.trans (h : s.Extends s') (h' : s'.Extends s'') : s.Extends s'' := by
  obtain ⟨added, hadded⟩ := h
  obtain ⟨later, hlater⟩ := h'
  exact ⟨added ++ later, by rw [hlater, hadded, List.append_assoc]⟩

theorem firm_of_openRule (hr : s.openRule? = some r) :
    s.firm = entriesInk s.closed ++ (ink r.rule.name ++ colon :: r.rule.firmInk) := by
  rw [firm, hr]

theorem extends_keep (s : Scan) (raw : Text) : s.Extends (s.keep raw) := by
  unfold keep Extends
  cases hm : s.mode with
  | outside => exact ⟨ink raw, by simp [firm, openRule?, hm, Entry.render]⟩
  | body r => exact ⟨[], by simp [firm, openRule?, hm]⟩
  | action r a => exact ⟨[], by simp [firm, openRule?, hm]⟩
  | footer => exact ⟨ink raw, by simp [firm, openRule?, hm, Entry.render]⟩

/-- Everything read is written behind what stands firm. -/
theorem exists_entriesInk_eq (h : s.Sound) : ∃ added, entriesInk s.entries = s.firm ++ added := by
  cases hr : s.openRule? with
  | none => exact ⟨[], by simp [firm, entries, hr]⟩
  | some r =>
    have hordered : r.rule.Ordered := h.entries _ (by simp [entries, hr, OpenRule.entries])
    refine ⟨blocksInk (r.rule.blocks ((r.rule.productions.length : Int) - 1)) ++ [semicolon]
      ++ entriesInk (r.after.map .verbatim), ?_⟩
    rw [firm_of_openRule hr, entries, hr]
    simp [OpenRule.entries, Entry.render, Rule.ink_render hordered, Rule.bodyInk_eq_firmInk r.rule]

theorem extends_leave (h : s.Sound) (m : Mode) : s.Extends (s.leave m) := by
  obtain ⟨added, hadded⟩ := exists_entriesInk_eq h
  exact ⟨_, by rw [firm, show (s.leave m).closed = s.entries from rfl, hadded, List.append_assoc]⟩

/-- The open rule grows behind what stands firm. -/
theorem firm_of_growth {rule : Rule} {added : Text} (hr : s.openRule? = some r)
    (hname : rule.name = r.rule.name) (hgrowth : rule.firmInk = r.rule.firmInk ++ added)
    (hclosed : s'.closed = s.closed) (hr' : s'.openRule? = some { r with rule := rule }) :
    s'.firm = s.firm ++ added := by
  rw [firm_of_openRule hr, firm_of_openRule hr', hclosed, hname, hgrowth]
  simp

theorem BodyStep.extends_firm {header : Bool} (h : s.Sound) (hmode : s.mode = .body r)
    (hstep : s.BodyStep r line header s' t) : s.Extends s' := by
  have hr : s.openRule? = some r := by simp [openRule?, hmode]
  have hrule : r.rule.Ordered := by
    have := h.mode
    rwa [hmode] at this
  have hread : ∀ {text : Text} {rule : Rule}, r.rule.readProductions text header = .ok rule →
      ∃ added, rule.firmInk = r.rule.firmInk ++ added :=
    fun hread => Rule.firmInk_foldlM_readAlternative hread
  cases hstep with
  | closed => exact extends_leave h _
  | opened => exact ⟨[], firm_of_growth hr rfl (List.append_nil _).symm rfl rfl⟩
  | openedBehind _ _ _ _ hprod =>
    obtain ⟨added, hadded⟩ := hread hprod
    exact ⟨added, firm_of_growth hr (Rule.name_readProductions hrule hprod) hadded rfl rfl⟩
  | productions _ _ _ hprod =>
    obtain ⟨added, hadded⟩ := hread hprod
    exact ⟨added, firm_of_growth hr (Rule.name_readProductions hrule hprod) hadded rfl rfl⟩
  | terminated _ _ _ hprod =>
    obtain ⟨added, hadded⟩ := hread hprod
    have hgrown := Rule.readProductions_grown (o := false) hrule hprod (by simp)
    have hnext : s.Extends (s.withRule r _) :=
      ⟨added, firm_of_growth hr hgrown.name hadded rfl rfl⟩
    exact hnext.trans (extends_leave (h.withRule hgrown.ordered) _)

theorem ActionStep.extends_firm {a : OpenAction} (h : s.Sound) (hmode : s.mode = .action r a)
    (hstep : s.ActionStep r a line s') : s.Extends s' := by
  have hr : s.openRule? = some r := by simp [openRule?, hmode]
  obtain ⟨hrule, ha⟩ : r.rule.Ordered ∧ a.Follows r.rule := by
    have := h.mode
    rwa [hmode] at this
  have hclosed : ∀ last : Text, s.Extends (s.withRule r
      (r.rule.addAction (Action.ofText (a.text ++ newline :: last) a.owner a.line))) := by
    intro last
    have hgrown := grown_addAction (o := false) last hrule ha
    refine ⟨[], firm_of_growth hr hgrown.name ?_ rfl rfl⟩
    rw [List.append_nil]
    exact Rule.firmInk_addAction ha.owner
  cases hstep with
  | longer => exact ⟨[], firm_of_growth hr rfl (List.append_nil _).symm rfl rfl⟩
  | closed => exact hclosed _
  | @terminated last =>
    have hgrown := grown_addAction (o := false) last hrule ha
    exact (hclosed last).trans (extends_leave (h.withRule hgrown.ordered) _)

theorem Step.extends_firm {raw : Text} (h : s.Sound) (hstep : s.Step raw s' t) : s.Extends s' := by
  cases hstep with
  | footer => exact extends_keep s raw
  | action hmode hstep => exact hstep.extends_firm h hmode
  | aside => exact extends_keep s raw
  | marker => exact (extends_leave h _).trans (extends_keep _ raw)
  | header => exact extends_leave h _
  | headerComment => exact (extends_leave h _).trans (extends_keep _ _)
  | headerBody _ _ _ hstep =>
    exact (extends_leave h _).trans (hstep.extends_firm (h.leave_newRule _) rfl)
  | stop => exact (extends_leave h _).trans (extends_keep _ raw)
  | outside => exact extends_keep s raw
  | body hmode _ _ _ _ _ hstep => exact hstep.extends_firm h hmode

theorem LineSteps.extends_firm {raw : Text} (h : s.Sound) (hsteps : LineSteps s raw s') :
    s.Extends s' := by
  induction hsteps with
  | last hstep => exact hstep.extends_firm h
  | more hstep _ ih =>
    exact (hstep.extends_firm h).trans (ih (hstep.sound_kept (o := false) h (by simp)).1)

theorem Reads.extends_firm {ls : List Text} (h : s.Sound) (hreads : Reads s ls s') :
    s.Extends s' := by
  induction hreads with
  | nil s => exact Extends.refl s
  | @cons s next s' l ls hline _ ih =>
    have hcounted : Scan.Sound { s with lines := s.lines + 1 } := ⟨h.closed, h.mode⟩
    have hsteps := line_lineSteps hline
    obtain ⟨added, hadded⟩ := hsteps.extends_firm hcounted
    exact Extends.trans ⟨added, hadded⟩ (ih (hsteps.sound_kept (o := false) hcounted (by simp)).1)

/-! ## Lines that go on behind a block -/

/-- A line that goes on with a production is written directly behind what stands firm. -/
theorem BodyStep.firm_of_goesOn {header : Bool} (h : s.Sound) (hmode : s.mode = .body r)
    (hstep : s.BodyStep r line header s' t) (hps : r.rule.productions ≠ [])
    (hgoes : goesOn line = true) {c : UInt8} (hc : (ink line).head? = some c) :
    ∃ added, s'.firm = s.firm ++ c :: added := by
  have hr : s.openRule? = some r := by simp [openRule?, hmode]
  have hrule : r.rule.Ordered := by
    have := h.mode
    rwa [hmode] at this
  simp only [goesOn, Bool.not_eq_eq_eq_not, Bool.not_true, Bool.or_eq_false_iff] at hgoes
  obtain ⟨⟨hsemi, hpipe⟩, hblock⟩ := hgoes
  -- The productions of the step are read from a text that starts like the line.
  have hread : ∀ {text : Text} {rule : Rule}, (ink text).head? = (ink line).head? →
      r.rule.readProductions text header = .ok rule →
      ∃ added, rule.firmInk = r.rule.firmInk ++ c :: added := by
    intro text rule hhead hprod
    refine Rule.firmInk_readProductions hprod hps ?_ (hhead.trans hc)
    rw [← Bool.not_eq_true] at hpipe ⊢
    rwa [Rule.hasPipe_iff, hhead, ← Rule.hasPipe_iff]
  cases hstep with
  | closed hstart =>
    rw [← Bool.not_eq_true, startsWith_singleton_iff, hstart] at hsemi
    exact absurd rfl hsemi
  | opened hbrace hbalance hblank =>
    simp [opensBlock, hbrace, hbalance, hblank] at hblock
  | @openedBehind i rule _ hbrace hbalance _ hprod =>
    obtain ⟨w, rest, -, -, hink⟩ := exists_unclosed hbrace
    have hinked : ink (line.take i) ≠ [] := by
      intro hnil
      rw [ink_eq_nil_iff] at hnil
      simp [opensBlock, hbrace, hbalance, hnil] at hblock
    obtain ⟨b, u, hu⟩ := List.exists_cons_of_ne_nil hinked
    obtain ⟨added, hadded⟩ := hread (by rw [hink, hu]; rfl) hprod
    exact ⟨added, firm_of_growth hr (Rule.name_readProductions hrule hprod) hadded rfl rfl⟩
  | productions _ _ _ hprod =>
    obtain ⟨added, hadded⟩ := hread rfl hprod
    exact ⟨added, firm_of_growth hr (Rule.name_readProductions hrule hprod) hadded rfl rfl⟩
  | @terminated rule _ _ _ hprod =>
    obtain ⟨added, hadded⟩ := hread (head?_ink_dropEnd_semicolon hsemi) hprod
    have hgrown := Rule.readProductions_grown (o := false) hrule hprod (by simp)
    have hnext : (s.withRule r rule).firm = s.firm ++ c :: added :=
      firm_of_growth hr hgrown.name hadded rfl rfl
    obtain ⟨later, hlater⟩ := extends_leave (h.withRule (r := r) hgrown.ordered) .outside
    exact ⟨added ++ later, by rw [hlater, hnext, List.append_assoc, List.cons_append]⟩

theorem Step.firm_of_interrupts {raw : Text} (h : s.Sound) (hstep : s.Step raw s' t)
    (hinterrupts : s.interrupts raw = true) {c : UInt8} (hc : (ink raw).head? = some c) :
    ∃ added, s'.firm = s.firm ++ c :: added := by
  obtain ⟨r, hmode, hends, hbody, hgoes⟩ : ∃ r, s.mode = .body r ∧ r.rule.endsInBlock = true ∧
      isBodyLine (trimTerminator raw) = true ∧ goesOn (trimTerminator raw) = true := by
    cases hm : s.mode with
    | body r =>
      simp only [interrupts, hm, Bool.and_eq_true] at hinterrupts
      exact ⟨r, rfl, hinterrupts.1.1, hinterrupts.1.2, hinterrupts.2⟩
    | _ => simp [interrupts, hm] at hinterrupts
  have hps : r.rule.productions ≠ [] := by
    intro hnil
    simp [Rule.endsInBlock, hnil] at hends
  simp only [isBodyLine, Bool.not_eq_eq_eq_not, Bool.not_true, Bool.or_eq_false_iff] at hbody
  obtain ⟨⟨⟨⟨hink, hcomment⟩, hmarker⟩, hheader⟩, hend⟩ := hbody
  cases hstep with
  | footer hm => simp [hmode] at hm
  | action hm => simp [hmode] at hm
  | aside _ hline => simp [hink, hcomment] at hline
  | marker _ hline => simp [hmarker] at hline
  | header _ hh => simp [hh] at hheader
  | headerComment _ hh => simp [hh] at hheader
  | headerBody _ hh => simp [hh] at hheader
  | stop _ hline => simp [hline] at hend
  | outside hm => simp [hmode] at hm
  | body hm _ _ _ _ _ hstep =>
    rw [hmode, Mode.body.injEq] at hm
    rw [← hm] at hstep
    exact hstep.firm_of_goesOn h hmode hps hgoes (by rwa [ink_trimTerminator])

theorem LineSteps.firm_of_interrupts {raw : Text} (h : s.Sound) (hsteps : LineSteps s raw s')
    (hinterrupts : s.interrupts raw = true) {c : UInt8} (hc : (ink raw).head? = some c) :
    ∃ added, s'.firm = s.firm ++ c :: added := by
  cases hsteps with
  | last hstep => exact hstep.firm_of_interrupts h hinterrupts hc
  | more hstep hsteps =>
    obtain ⟨added, hadded⟩ := hstep.firm_of_interrupts h hinterrupts hc
    obtain ⟨later, hlater⟩ := hsteps.extends_firm (hstep.sound_kept (o := false) h (by simp)).1
    exact ⟨added ++ later, by rw [hlater, hadded, List.append_assoc, List.cons_append]⟩

/-- The state before the first line that goes on behind a block. -/
theorem Reads.exists_interruption {ls : List Text} (hreads : Reads s ls s') {l : Text}
    (hl : interruption? s ls = some l) :
    ∃ before after mid next, ls = before ++ l :: after ∧ Reads s before mid ∧
      interruption? s before = none ∧ mid.interrupts l = true ∧ mid.line l = .ok next ∧
      Reads next after s' := by
  induction hreads with
  | nil s => simp [interruption?] at hl
  | @cons s next s' k ls hline hrest ih =>
    rw [interruption?, hline] at hl
    split at hl
    · rename_i hk
      obtain rfl : k = l := Option.some.inj hl
      exact ⟨[], ls, s, next, rfl, .nil s, rfl, hk, hline, hrest⟩
    · rename_i hk
      obtain ⟨before, after, mid, next', rfl, hbefore, hnone, hint, hmid, hafter⟩ := ih hl
      refine ⟨k :: before, after, mid, next', rfl, .cons hline hbefore, ?_, hint, hmid, hafter⟩
      rw [interruption?, if_neg hk, hline]
      exact hnone

/-- Behind what stands firm, a block comes first when a line is about to interrupt. -/
theorem exists_written_of_interrupts {raw : Text} (h : s.Sound) (hinterrupts : s.interrupts raw = true) :
    ∃ added, s.written = s.firm ++ openBrace :: added := by
  cases hmode : s.mode with
  | body r =>
    have hr : s.openRule? = some r := by simp [openRule?, hmode]
    have hrule : r.rule.Ordered := by
      have := h.mode
      rwa [hmode] at this
    simp only [interrupts, hmode, Rule.endsInBlock, Bool.and_eq_true] at hinterrupts
    have hblocks : r.rule.blocks ((r.rule.productions.length : Int) - 1) ≠ [] := by
      simpa using hinterrupts.1.1.2
    obtain ⟨a, as, has⟩ := List.exists_cons_of_ne_nil hblocks
    have ha : a.Framed := hrule.framed_blocks _ a (by rw [has]; exact List.mem_cons_self)
    obtain ⟨u, hu⟩ := List.head?_eq_some_iff.1 ha
    refine ⟨u ++ (blocksInk as ++ keptInk r.after), ?_⟩
    rw [written, firm_of_openRule hr, hmode, Mode.ink, OpenRule.front,
      Rule.bodyInk_eq_firmInk, has, blocksInk_cons, hu]
    simp
  | _ => simp [interrupts, hmode] at hinterrupts

/-- The first visible byte of a line that interrupts is no semicolon. -/
theorem head?_of_interrupts {raw : Text} (h : s.interrupts raw = true) :
    ∃ c, (ink raw).head? = some c ∧ c ≠ semicolon := by
  cases hmode : s.mode with
  | body r =>
    simp only [interrupts, hmode, isBodyLine, goesOn, Bool.and_eq_true, Bool.not_eq_eq_eq_not,
      Bool.not_true, Bool.or_eq_false_iff] at h
    have hsemi := h.2.1.1
    cases hink : ink raw with
    | nil =>
      rw [← ink_trimTerminator, ink_eq_nil_iff] at hink
      simp [hink] at h
    | cons c t =>
      refine ⟨c, rfl, ?_⟩
      rintro rfl
      rw [← Bool.not_eq_true, startsWith_trim_iff, ink_trimTerminator, hink] at hsemi
      exact hsemi rfl
  | _ => simp [interrupts, hmode] at h

end Scan

namespace Document

variable {text : Text} {d : Document}

/-- A line that goes on with a production behind a block, with something else than a block, is
written before that block. -/
theorem parse_order_broken (h : Document.parse text = .ok d)
    (hrules : ∀ e ∈ d.entries, e.isRule = true) {l : Text}
    (hl : Scan.start.interruption? (lines text) = some l)
    (hbrace : (ink l).head? ≠ some openBrace) :
    withoutSemicolons (ink d.render) ≠ withoutSemicolons (ink text) := by
  obtain ⟨s, hreads, hentries, -⟩ := parse_cases h
  have hstart : Scan.start.Sound := ⟨by simp [Scan.start], trivial⟩
  obtain ⟨before, after, mid, next, hlines, hbefore, hnone, hint, hline, hafter⟩ :=
    hreads.exists_interruption hl
  have hsteps := Scan.line_lineSteps hline
  -- What was read before the line is in order, with a block at its end.
  have hmidRules : mid.RulesOnly := by
    have hall : s.RulesOnly := by rwa [Scan.rulesOnly_iff, ← hentries]
    obtain ⟨later, hlater⟩ := hafter.outline_eq
    obtain ⟨added, hadded⟩ := hsteps.outline_eq
    exact (hall.of_outline hlater).of_outline hadded
  obtain ⟨hmid, hkept⟩ := hbefore.sound_kept (o := true) hstart fun _ => ⟨hmidRules, hnone⟩
  obtain ⟨blocks, hblocks⟩ := Scan.exists_written_of_interrupts hmid hint
  have htext : withoutSemicolons (ink text)
      = withoutSemicolons mid.firm ++ openBrace :: withoutSemicolons
          (blocks ++ (l :: after).flatMap ink) := by
    have hink : ink text = before.flatMap ink ++ (l :: after).flatMap ink := by
      rw [← List.flatMap_append, ← hlines, ← ink_flatten (endedLines_lines text), flatten_lines]
    have hfront : withoutSemicolons mid.written = withoutSemicolons (before.flatMap ink) :=
      hkept.order rfl
    rw [hink, withoutSemicolons_append, ← hfront, hblocks, withoutSemicolons_append,
      withoutSemicolons_cons (by decide)]
    simp
  -- What is written starts the same way, and goes on with the line.
  obtain ⟨c, hc, hsemi⟩ := Scan.head?_of_interrupts hint
  have hcounted : Scan.Sound { mid with lines := mid.lines + 1 } := ⟨hmid.closed, hmid.mode⟩
  obtain ⟨added, hadded⟩ := hsteps.firm_of_interrupts hcounted hint hc
  have hnext := (hsteps.sound_kept (o := false) hcounted (by simp)).1
  obtain ⟨later, hlater⟩ := hafter.extends_firm hnext
  obtain ⟨rest, hrest⟩ :=
    Scan.exists_entriesInk_eq (hreads.sound_kept (o := false) hstart (by simp)).1
  have hrender : withoutSemicolons (ink d.render)
      = withoutSemicolons mid.firm ++ c :: withoutSemicolons (added ++ later ++ rest) := by
    have hcountedFirm : Scan.firm { mid with lines := mid.lines + 1 } = mid.firm := rfl
    rw [Document.ink_render (parse_endedEntries h), hentries, hrest, hlater, hadded, hcountedFirm]
    simp [withoutSemicolons_cons hsemi]
  rw [hrender, htext]
  intro heq
  rw [List.append_cancel_left_eq, List.cons.injEq] at heq
  exact hbrace (by rw [hc, heq.1])

/-- Symbols and blocks keep their order exactly when no line goes on with a production behind a
block; a line that goes on with a block of its own is not judged. -/
theorem parse_order (h : Document.parse text = .ok d) (hrules : ∀ e ∈ d.entries, e.isRule = true) :
    (Scan.start.interruption? (lines text) = none →
      withoutSemicolons (ink d.render) = withoutSemicolons (ink text)) ∧
    (∀ l, Scan.start.interruption? (lines text) = some l → (ink l).head? ≠ some openBrace →
      withoutSemicolons (ink d.render) ≠ withoutSemicolons (ink text)) :=
  ⟨fun hnone => (parse_kept (o := true) h fun _ => ⟨hrules, hnone⟩).order rfl,
    fun _ hl hbrace => parse_order_broken h hrules hl hbrace⟩

/-- The symbol behind a block is written before it. -/
theorem parse_order_continued :
    ∃ d, Document.parse (bytes "a: b \x7b\n\x7d\nc\n") = .ok d ∧
      Scan.start.interruption? (lines (bytes "a: b \x7b\n\x7d\nc\n")) = some (bytes "c\n") ∧
      withoutSemicolons (ink d.render) ≠ withoutSemicolons (ink (bytes "a: b \x7b\n\x7d\nc\n")) := by
  have h : Document.parse (bytes "a: b \x7b\n\x7d\nc\n")
      = .ok ⟨[.rule
          { name := bytes "a", line := 1, productions := [bytes "b c"]
            actions := [⟨bytes " \x7b\n\x7d", 0, 1⟩] }]⟩ := by decide +kernel
  have hl : Scan.start.interruption? (lines (bytes "a: b \x7b\n\x7d\nc\n"))
      = some (bytes "c\n") := by decide +kernel
  exact ⟨_, h, hl, (parse_order h (by decide)).2 _ hl (by decide)⟩

end Document

end GrammarLayout
