import GrammarLayout.Pass.RoundTrip
import GrammarLayout.Proofs.Idempotent.Parsed
import GrammarLayout.Proofs.Pass.RoundTrip

/-!
# Laying out what was read back

A document that is laid out is written, and the text is read again.  What is read differs from what
was written where the text does not tell: the numbers of lines, the settings of rules, and the
blanks in front of the first production.  Laying it out once more makes up for that.

What is proved here:

* `Rule.LaidOut.writtenLike` — a rule that was read back is laid out as the written one;
* `Document.render_layOut_of_readBack` — a document that was read back is laid out to the text that
  it was read from.
-/

namespace GrammarLayout

open Ascii Text

/-! ## Reading back -/

/-- An action without the number of its line. -/
def Action.unnumbered (a : Action) : Action := { a with line := 0 }

namespace Rule

/-- Production `i` as it is read from its line. -/
def readProduction (r : Rule) (i : Nat) (p : Text) : Text :=
  if hasPipe p then r.productionLine i p else trim p

/-- What reading makes of a written rule, as far as the productions `qs` and the blocks `bs`. -/
structure ReadUpTo (r : Rule) (qs : List Text) (bs : List Action) (r' : Rule) : Prop where
  /-- The name is kept. -/
  name : r'.name = r.name
  /-- Every production is read from its line. -/
  productions : r'.productions = qs.mapIdx r.readProduction
  /-- Every block is kept, and follows the same production. -/
  actions : r'.actions.map Action.unnumbered = bs.map Action.unnumbered
  /-- The other settings are those of every rule that is read. -/
  settings : r' = { name := r'.name, line := r'.line, productions := r'.productions,
                    actions := r'.actions }

/-- What reading makes of a written rule. -/
def ReadBack (r r' : Rule) : Prop := r.ReadUpTo r.productions r.actions r'

/-- Two rules that are written alike, apart from the padding of their names. -/
structure WrittenLike (r r' : Rule) : Prop where
  /-- They have one name. -/
  name : r'.name = r.name
  /-- The colon is set alike. -/
  colonSpacing : r'.colonSpacing = r.colonSpacing
  /-- The semicolon is indented alike. -/
  terminatorIndent : r'.terminatorIndent = r.terminatorIndent
  /-- The productions have the same lines. -/
  lines : r'.productions.mapIdx r'.productionLine = r.productions.mapIdx r.productionLine
  /-- The blocks are the same. -/
  actions : r'.actions.map Action.unnumbered = r.actions.map Action.unnumbered

end Rule

/-- Two entries with the same line, or with rules that `R` relates. -/
inductive Entry.Matches (R : Rule → Rule → Prop) : Entry → Entry → Prop where
  /-- The line is the same. -/
  | verbatim {v v' : Verbatim} (h : v'.text = v.text) : Matches R (.verbatim v) (.verbatim v')
  /-- The rules are related. -/
  | rule {r r' : Rule} (h : R r r') : Matches R (.rule r) (.rule r')

/-- What reading makes of a written document. -/
def Document.ReadBack (d d' : Document) : Prop :=
  List.Forall₂ (Entry.Matches Rule.ReadBack) d.entries d'.entries

/-! ## Writing alike -/

theorem Rule.actionTexts_unnumbered (as : List Action) :
    actionTexts (as.map Action.unnumbered) = actionTexts as := by
  rw [actionTexts, List.flatMap_map]
  rfl

namespace Rule

variable {r r' : Rule}

theorem actionTexts_congr {as as' : List Action}
    (h : as'.map Action.unnumbered = as.map Action.unnumbered) : actionTexts as' = actionTexts as := by
  rw [← actionTexts_unnumbered, h, actionTexts_unnumbered]

theorem takeWhile_unnumbered {as as' : List Action}
    (h : as'.map Action.unnumbered = as.map Action.unnumbered) (i : Int) :
    (as'.takeWhile (·.owner ≤ i)).map Action.unnumbered
        = (as.takeWhile (·.owner ≤ i)).map Action.unnumbered ∧
      (as'.dropWhile (·.owner ≤ i)).map Action.unnumbered
        = (as.dropWhile (·.owner ≤ i)).map Action.unnumbered := by
  have htake : ∀ bs : List Action, (bs.takeWhile (·.owner ≤ i)).map Action.unnumbered
      = (bs.map Action.unnumbered).takeWhile (·.owner ≤ i) := by
    intro bs
    rw [List.takeWhile_map]
    rfl
  have hdrop : ∀ bs : List Action, (bs.dropWhile (·.owner ≤ i)).map Action.unnumbered
      = (bs.map Action.unnumbered).dropWhile (·.owner ≤ i) := by
    intro bs
    rw [List.dropWhile_map]
    rfl
  exact ⟨by rw [htake, htake, h], by rw [hdrop, hdrop, h]⟩

/-- Productions with the same lines and blocks that are the same are written alike. -/
theorem renderFrom_congr {ps ps' : List Text} {as as' : List Action} {i : Nat}
    (hlines : ps'.mapIdx (fun j p => r'.productionLine (i + j) p)
      = ps.mapIdx fun j p => r.productionLine (i + j) p)
    (has : as'.map Action.unnumbered = as.map Action.unnumbered) :
    r'.renderFrom i ps' as' = r.renderFrom i ps as := by
  induction ps generalizing i ps' as as' with
  | nil =>
    obtain rfl : ps' = [] := by simpa using hlines
    exact actionTexts_congr has
  | cons p ps ih =>
    cases ps' with
    | nil => simp at hlines
    | cons p' ps' =>
      rw [List.mapIdx_cons, List.mapIdx_cons, List.cons.injEq] at hlines
      obtain ⟨htake, hdrop⟩ := takeWhile_unnumbered has i
      have hlater : ps'.mapIdx (fun j p => r'.productionLine (i + 1 + j) p)
          = ps.mapIdx fun j p => r.productionLine (i + 1 + j) p := by
        simpa only [Nat.add_right_comm, Nat.add_assoc] using hlines.2
      rw [renderFrom, renderFrom, ih hlater hdrop, actionTexts_congr htake]
      simp only [Nat.add_zero] at hlines
      rw [hlines.1]

/-- Rules that are written alike have the same text when their names are padded alike. -/
theorem WrittenLike.render_eq (h : r.WrittenLike r') (n : Nat) :
    { r' with namePadding := n }.render = { r with namePadding := n }.render := by
  obtain ⟨htake, hdrop⟩ := takeWhile_unnumbered h.actions (-1)
  have hbody : { r' with namePadding := n }.renderFrom 0 r'.productions
        (r'.actions.dropWhile (·.owner ≤ -1))
      = { r with namePadding := n }.renderFrom 0 r.productions
        (r.actions.dropWhile (·.owner ≤ -1)) := by
    refine renderFrom_congr ?_ hdrop
    simp only [Nat.zero_add]
    exact h.lines
  unfold render header terminator
  rw [hbody, actionTexts_congr htake, h.name, h.colonSpacing, h.terminatorIndent]

end Rule

section Entries

variable {es es' : List Entry} (h : List.Forall₂ (Entry.Matches Rule.WrittenLike) es es')
  (width : Text → Nat)
include h

theorem widestAfter_congr : widestAfter width es' = widestAfter width es := by
  induction h with
  | nil => rfl
  | cons he _ ih =>
    cases he with
    | verbatim hv => rw [widestAfter, widestAfter, ih, Verbatim.isBlank, Verbatim.isBlank, hv]
    | rule hr => rw [widestAfter, widestAfter, ih, hr.name]

/-- Entries that are written alike have the same text when their colons are lined up. -/
theorem render_alignColonsFrom (widest : Nat) :
    (alignColonsFrom width widest es').flatMap Entry.render
      = (alignColonsFrom width widest es).flatMap Entry.render := by
  induction h generalizing widest with
  | nil => rfl
  | cons he htail ih =>
    cases he with
    | verbatim hv =>
      rw [alignColonsFrom, alignColonsFrom, List.flatMap_cons, List.flatMap_cons, ih,
        Verbatim.isBlank, Verbatim.isBlank, Entry.render, Entry.render, hv]
    | rule hr =>
      have hwidth := congrArg width hr.name
      rw [alignColonsFrom, alignColonsFrom, List.flatMap_cons, List.flatMap_cons, ih, hwidth,
        widestAfter_congr htail width, Entry.render, Entry.render, hr.render_eq]

/-- Entries that are written alike have the same text when no name is padded. -/
theorem render_unpadded (hes : ∀ r, .rule r ∈ es → r.namePadding = 0)
    (hes' : ∀ r, .rule r ∈ es' → r.namePadding = 0) :
    es'.flatMap Entry.render = es.flatMap Entry.render := by
  induction h with
  | nil => rfl
  | cons he _ ih =>
    have hrest := ih (fun r hr => hes r (List.mem_cons_of_mem _ hr))
      fun r hr => hes' r (List.mem_cons_of_mem _ hr)
    rw [List.flatMap_cons, List.flatMap_cons, hrest]
    cases he with
    | verbatim hv => rw [Entry.render, Entry.render, hv]
    | @rule r r' hr =>
      have hzero := hr.render_eq 0
      rw [← hes r (by simp)] at hzero
      rw [show (Entry.rule r').render = r'.render from rfl, show (Entry.rule r).render = r.render
        from rfl, ← hzero, hes r (by simp), ← hes' r' (by simp)]

end Entries

/-- Blank lines are inserted at the same places. -/
theorem separate_matches {R : Rule → Rule → Prop} {es es' : List Entry}
    (h : List.Forall₂ (Entry.Matches R) es es') (style : EmptyLineStyle) {p p' : Option Entry}
    (hp : p.map Entry.line? = p'.map Entry.line?) (seenRule : Bool) :
    List.Forall₂ (Entry.Matches R) (style.separate p seenRule es) (style.separate p' seenRule es') := by
  induction h generalizing p p' seenRule with
  | nil => exact .nil
  | @cons e e' _ _ he _ ih =>
    have hline : e.line? = e'.line? ∧ e.isRule = e'.isRule := by
      cases he with
      | verbatim hv => exact ⟨congrArg some hv.symm, rfl⟩
      | rule hr => exact ⟨rfl, rfl⟩
    rw [EmptyLineStyle.separate, EmptyLineStyle.separate, style.wantsBlank_congr seenRule hp hline.1,
      hline.2]
    have hbehind : (some e).map Entry.line? = (some e').map Entry.line? := congrArg some hline.1
    have hrest := List.Forall₂.cons he (ih hbehind (seenRule || e'.isRule))
    split_ifs
    exacts [.cons (.verbatim rfl) hrest, hrest]

/-- No rule is inserted. -/
theorem EmptyLineStyle.mem_of_rule_mem_separate {style : EmptyLineStyle} {p : Option Entry}
    {seenRule : Bool} {es : List Entry} {r : Rule} (h : .rule r ∈ style.separate p seenRule es) :
    .rule r ∈ es := by
  induction es generalizing p seenRule with
  | nil => exact h
  | cons e es ih =>
    have hrest : .rule r ∈ e :: style.separate (some e) (seenRule || e.isRule) es := by
      rw [separate] at h
      split_ifs at h
      exacts [(List.mem_cons.1 h).resolve_left (by simp), h]
    rcases List.mem_cons.1 hrest with rfl | hmem
    exacts [List.mem_cons_self, List.mem_cons_of_mem _ (ih hmem)]

/-! ## Laying out what was read back -/

namespace Rule

/-- A rule after all passes, as they leave a rule that was read. -/
structure LaidOut (s : Style) (r : Rule) : Prop where
  /-- Productions and blocks are in parts. -/
  regular : r.Regular
  /-- With indentation no production has a block to take out. -/
  unlifted : s.indent.enabled = true → ∀ p ∈ r.productions, liftable? p = none
  /-- Productions are indented by the style. -/
  productionIndent : r.productionIndent = s.layIndent [space, space]
  /-- The semicolon is indented by the style. -/
  terminatorIndent : r.terminatorIndent = s.layIndent [space, space]
  /-- The colon is set by the style. -/
  colonSpacing : r.colonSpacing = if s.spacing.enabled then s.spacing.aroundColon else true
  /-- Names are padded only where colons are lined up. -/
  namePadding : s.alignsPipes = false → r.namePadding = 0
  /-- The passes are done. -/
  fixed : r.layOut s = r

end Rule

/-- What is read from the line of a first production is one. -/
theorem IsProduction.readProduction_zero {p : Text} (h : IsProduction 0 p) {r : Rule}
    (hindent : ∀ c ∈ r.productionIndent, isBlank c = true) :
    hasPipe (r.readProduction 0 p) = hasPipe p ∧ IsProduction 0 (r.readProduction 0 p) ∧
      bare (r.readProduction 0 p) = bare p := by
  cases h with
  | first hb =>
    rw [Rule.readProduction, hb.unpiped, if_neg Bool.false_ne_true, hb.trimmed]
    exact ⟨hb.unpiped, .first hb, rfl⟩
  | @alternative _ w v b hw hv hb hgap =>
    have hread : r.readProduction 0 (GrammarLayout.alternative w v b)
        = GrammarLayout.alternative r.productionIndent v b := by
      rw [Rule.readProduction, hasPipe_alternative hw, if_pos rfl, Rule.productionLine, if_pos rfl,
        trim_alternative hw hv hb.trimmed hgap]
      rfl
    rw [hread, hasPipe_alternative hw, hasPipe_alternative hindent, bare_alternative hw hv hb,
      bare_alternative hindent hv hb]
    exact ⟨rfl, .alternative 0 hindent hv hb hgap, rfl⟩

/-- What is read from the line of a later production is the production. -/
theorem IsProduction.readProduction_succ {i : Nat} {p : Text} (h : IsProduction (i + 1) p) (r : Rule) :
    r.readProduction (i + 1) p = p := by
  cases h with
  | @alternative _ w v b hw hv hb hgap =>
    have hend := endsVisible_trim (GrammarLayout.alternative w v b)
    rw [trim_alternative hw hv hb.trimmed hgap] at hend
    rw [Rule.readProduction, hasPipe_alternative hw, if_pos rfl, Rule.productionLine, if_neg (by simp),
      hasPipe_alternative hw, if_pos rfl]
    have hvisible : EndsVisible (GrammarLayout.alternative w v b) := by
      rw [GrammarLayout.alternative, endsVisible_append_cons (by decide) (by decide)]
      exact (endsVisible_append_cons (a := []) (c := pipe) (by decide) (by decide)).1 hend
    exact hvisible.trimBlanksEnd

/-- A first production that was read back is laid out on the line that it was read from. -/
theorem IsProduction.trim_layProduction_zero {p : Text} (h : IsProduction 0 p) (s : Style)
    {indent : Text} (hindent : ∀ c ∈ indent, isBlank c = true) (piped : Bool) {r : Rule}
    (hr : r.productionIndent = indent) (hfixed : s.layProduction indent piped 0 p = p) :
    trim (s.layProduction indent piped 0 (r.readProduction 0 p)) = trim p := by
  cases h with
  | first hb =>
    rw [Rule.readProduction, hb.unpiped, if_neg Bool.false_ne_true, hb.trimmed, hfixed, hb.trimmed]
  | @alternative _ w v b hw hv hb hgap =>
    have hbody := Style.layBody_isBody (s := s) hb
    have hnil := Style.gap_layBody_eq_nil (v := v) hb hgap (s := s)
    have hread : r.readProduction 0 (GrammarLayout.alternative w v b)
        = GrammarLayout.alternative indent v b := by
      rw [Rule.readProduction, hasPipe_alternative hw, if_pos rfl, Rule.productionLine, if_pos rfl,
        trim_alternative hw hv hb.trimmed hgap, hr]
      rfl
    have htrim : ∀ {w' : Text}, (∀ c ∈ w', isBlank c = true) →
        trim (s.layProduction indent piped 0 (GrammarLayout.alternative w' v b))
          = pipe :: ((if isLoneBlock (s.layBody b) && (s.spacesOperators || s.alignsActions)
              then [space] else v) ++ s.layBody b) := by
      intro w' hw'
      rw [Style.layProduction_zero_alternative hw' hv indent piped hb hgap]
      refine trim_alternative ?_ ?_ hbody.trimmed fun hempty => (hnil hempty).2
      · split_ifs
        exacts [by simp, hw']
      · split_ifs
        exacts [by simp [isBlank], hv]
    rw [hread, htrim hindent, ← htrim hw, hfixed]

namespace Rule

variable {r r' : Rule} {s : Style}

theorem layAction_unnumbered (s : Style) (indent : Text) (r : Rule) (a : Action) :
    r.layAction s indent a.unnumbered = (r.layAction s indent a).unnumbered := by
  have hindented : ∀ a : Action, (if s.indent.enabled then a.unnumbered.indented s.indent.unit
      else a.unnumbered) = (if s.indent.enabled then a.indented s.indent.unit else a).unnumbered := by
    intro a
    split_ifs <;> rfl
  have hplaced : ∀ a : Action, (if s.brace.enabled then a.unnumbered.placeBrace s.brace indent
      else a.unnumbered)
        = (if s.brace.enabled then a.placeBrace s.brace indent else a).unnumbered := by
    intro a
    unfold Action.placeBrace
    rw [show a.unnumbered.onOwnLine = a.onOwnLine from rfl]
    cases s.brace.placement <;> dsimp only <;> split_ifs <;> rfl
  have hspaced : ∀ a : Action, (if s.spacesOperators then a.unnumbered.spaceLines else a.unnumbered)
      = (if s.spacesOperators then a.spaceLines else a).unnumbered := by
    intro a
    split_ifs <;> rfl
  have hlined : ∀ a : Action, (if s.alignsActions then r.alignBlock s.indent.unit a.unnumbered
      else a.unnumbered)
        = (if s.alignsActions then r.alignBlock s.indent.unit a else a).unnumbered := by
    intro a
    unfold alignBlock
    rw [show a.unnumbered.multiline = a.multiline from rfl,
      show a.unnumbered.body = a.body from rfl]
    split_ifs
    · split <;> rfl
    · rfl
    · rfl
  unfold layAction
  dsimp only
  rw [hindented, hplaced, hspaced, hlined]

/-- The passes treat an action alike in two rules whose lines are indented alike. -/
theorem layAction_congr (hlead : ∀ owner lead, r'.leadIndent owner lead = r.leadIndent owner lead)
    (s : Style) (indent : Text) (a : Action) : r'.layAction s indent a = r.layAction s indent a := by
  have hlined : ∀ a : Action, r'.alignBlock s.indent.unit a = r.alignBlock s.indent.unit a := by
    intro a
    rw [alignBlock, alignBlock, braceIndent_eq, braceIndent_eq, hlead]
  rw [layAction, layAction]
  simp only [hlined]

theorem ReadBack.getElem? (h : r.ReadBack r') (i : Nat) :
    r'.productions[i]? = (r.productions[i]?).map (r.readProduction i) := by
  rw [h.productions, List.getElem?_mapIdx]

namespace LaidOut

variable (h : r.LaidOut s) (hback : r.ReadBack r')
include h

theorem isBlank_of_mem_productionIndent : ∀ c ∈ r.productionIndent, isBlank c = true :=
  h.regular.productionIndent

theorem layIndent_productionIndent : s.layIndent r.productionIndent = r.productionIndent := by
  rw [h.productionIndent, s.layIndent_layIndent]

/-- The passes leave every production as it is. -/
theorem layProduction_eq {i : Nat} {p : Text} (hp : r.productions[i]? = some p) :
    s.layProduction r.productionIndent r.startsPiped i p = p := by
  have hproductions := h.regular.productions_layOut (s := s)
  rw [h.fixed, h.layIndent_productionIndent] at hproductions
  have hget : r.productions[i]? = _ := congrArg (·[i]?) hproductions
  rw [List.getElem?_mapIdx, hp] at hget
  exact (Option.some.inj hget).symm

/-- A production is read back as one, with the pipe and the text that it had. -/
theorem isProduction_readBack {i : Nat} {p : Text} (hp : r.productions[i]? = some p) :
    hasPipe (r.readProduction i p) = hasPipe p ∧ IsProduction i (r.readProduction i p) ∧
      bare (r.readProduction i p) = bare p := by
  have hproduction := h.regular.productions i p hp
  cases i with
  | zero => exact hproduction.readProduction_zero h.isBlank_of_mem_productionIndent
  | succ i =>
    rw [hproduction.readProduction_succ]
    exact ⟨rfl, hproduction, rfl⟩

include hback

theorem startsPiped_readBack : r'.startsPiped = r.startsPiped := by
  rw [startsPiped, startsPiped, List.head?_eq_getElem?, List.head?_eq_getElem?,
    hback.getElem?]
  cases hp : r.productions[0]? with
  | none => rfl
  | some p =>
    rw [Option.map_some, Option.any_some, Option.any_some, (h.isProduction_readBack hp).1]

theorem productionIndent_readBack : s.layIndent r'.productionIndent = r.productionIndent := by
  rw [hback.settings]
  exact h.productionIndent.symm

/-- The productions that are read back after all passes. -/
theorem productions_readBack (i : Nat) : (r'.layOut s).productions[i]? = (r.productions[i]?).map
    fun p => s.layProduction r.productionIndent r.startsPiped i (r.readProduction i p) := by
  have hpiped := Rule.productions_layOut s r' fun p hp => by
    rw [List.head?_eq_getElem?, hback.getElem?] at hp
    obtain ⟨q, hq, rfl⟩ := Option.map_eq_some_iff.1 hp
    exact IsProduction.hasPipe_first (h.isProduction_readBack hq).2.1
  rw [hpiped, List.getElem?_mapIdx, hback.getElem?, Option.map_map,
    h.startsPiped_readBack hback, h.productionIndent_readBack hback]
  rfl

/-- Later productions are the same after all passes. -/
theorem productions_readBack_succ (i : Nat) :
    (r'.layOut s).productions[i + 1]? = r.productions[i + 1]? := by
  rw [h.productions_readBack hback]
  cases hp : r.productions[i + 1]? with
  | none => rfl
  | some p =>
    rw [Option.map_some, (h.regular.productions (i + 1) p hp).readProduction_succ,
      h.layProduction_eq hp]

theorem lines_readBack : (r'.layOut s).productions.mapIdx (r'.layOut s).productionLine
    = r.productions.mapIdx r.productionLine := by
  have hindent : (r'.layOut s).productionIndent = r.productionIndent := by
    rw [productionIndent_layOut, h.productionIndent_readBack hback]
  apply List.ext_getElem?
  intro i
  rw [List.getElem?_mapIdx, List.getElem?_mapIdx]
  cases i with
  | zero =>
    rw [h.productions_readBack hback]
    cases hp : r.productions[0]? with
    | none => rfl
    | some p =>
      have htrim := (h.regular.productions 0 p hp).trim_layProduction_zero s
        h.isBlank_of_mem_productionIndent r.startsPiped rfl (h.layProduction_eq hp)
      simp only [Option.map_some, productionLine, if_true, hindent, htrim]
  | succ i =>
    have hline : ∀ p, (r'.layOut s).productionLine (i + 1) p = r.productionLine (i + 1) p := by
      intro p
      rw [productionLine, productionLine, hindent]
    rw [h.productions_readBack_succ hback, funext hline]

/-- The lines of both rules are indented alike. -/
theorem leadIndent_readBack (owner : Int) (lead : Text) :
    (r'.layOut s).leadIndent owner lead = r.leadIndent owner lead := by
  have hindent : (r'.layOut s).productionIndent = r.productionIndent := by
    rw [productionIndent_layOut, h.productionIndent_readBack hback]
  have hline : (r'.layOut s).lineIndent owner = r.lineIndent owner := by
    unfold lineIndent
    split_ifs with hneg
    · rfl
    obtain ⟨i, rfl⟩ := Int.eq_ofNat_of_zero_le (not_lt.1 hneg)
    rw [Int.toNat_natCast, hindent]
    cases i with
    | zero =>
      rw [h.productions_readBack hback]
      cases r.productions[0]? with
      | none => rfl
      | some p => simp
    | succ i => rw [h.productions_readBack_succ hback]
  rw [leadIndent, leadIndent, hline, hindent]

theorem keptActions_readBack : r'.keptActions s = r'.actions := by
  unfold keptActions
  split_ifs with henabled
  · rw [liftInto, liftedActions_eq_nil]
    · rfl
    · intro q hq
      obtain ⟨i, hi⟩ := List.mem_iff_getElem?.1 hq
      rw [hback.getElem?] at hi
      obtain ⟨p, hp, rfl⟩ := Option.map_eq_some_iff.1 hi
      rw [liftable?_eq_none_iff, (h.isProduction_readBack hp).2.2, ← liftable?_eq_none_iff]
      exact h.unlifted henabled p (List.mem_of_getElem? hp)
  · rfl

theorem actions_readBack :
    (r'.layOut s).actions.map Action.unnumbered = r.actions.map Action.unnumbered := by
  have hlaid : r.actions = r.actions.map (r.layAction s r.productionIndent) := by
    have hactions := r.actions_layOut s
    have hkept : r.keptActions s = r.actions := by
      unfold keptActions
      split_ifs with henabled
      · rw [liftInto, liftedActions_eq_nil (h.unlifted henabled)]
        rfl
      · rfl
    rwa [h.fixed, hkept, h.layIndent_productionIndent] at hactions
  have hmap : ∀ as : List Action, (as.map (r.layAction s r.productionIndent)).map Action.unnumbered
      = (as.map Action.unnumbered).map (r.layAction s r.productionIndent) := by
    intro as
    rw [List.map_map, List.map_map]
    exact List.map_congr_left fun a _ => (r.layAction_unnumbered s _ a).symm
  rw [Rule.actions_layOut, h.keptActions_readBack hback, h.productionIndent_readBack hback,
    funext (layAction_congr (h.leadIndent_readBack hback) s r.productionIndent), hmap, hback.actions,
    ← hmap, ← hlaid]

/-- A rule that was read back is laid out as the written one. -/
theorem writtenLike : r.WrittenLike (r'.layOut s) where
  name := by rw [name_layOut, hback.name]
  colonSpacing := by
    rw [layOut_eq, hback.settings]
    exact h.colonSpacing.symm
  terminatorIndent := by
    rw [layOut_eq, hback.settings]
    exact h.terminatorIndent.symm
  lines := h.lines_readBack hback
  actions := h.actions_readBack hback

end LaidOut

end Rule

namespace Document

variable {s : Style} {laid again : Document}

/-- The rules of a document that was read back have the names of the written ones. -/
theorem ReadBack.ruleNames (h : laid.ReadBack again) : laid.ruleNames = again.ruleNames := by
  have hnames : ∀ {es es' : List Entry}, List.Forall₂ (Entry.Matches Rule.ReadBack) es es' →
      (es.filterMap Entry.rule?).map Rule.name = (es'.filterMap Entry.rule?).map Rule.name := by
    intro es es' hes
    induction hes with
    | nil => rfl
    | cons he _ ih =>
      cases he with
      | verbatim => exact ih
      | rule hr => exact List.cons_eq_cons.2 ⟨hr.name.symm, ih⟩
  exact hnames h

/-- A document with the blank lines that a style asks for. -/
def separated (s : Style) (d : Document) : Document :=
  if s.emptyLine.enabled then d.separate s else d

/-- A document after all passes, with its colons lined up last. -/
theorem layOut_eq_separated (s : Style) (d : Document) : d.layOut s =
    if s.alignsPipes then ((d.mapRules (Rule.layOut s)).separated s).alignColons Text.width
    else (d.mapRules (Rule.layOut s)).separated s := by
  rw [layOut_eq]
  unfold separated
  dsimp only
  split_ifs
  exacts [separate_alignColons Text.width s _, rfl, rfl, rfl]

theorem separated_matches {R : Rule → Rule → Prop} {d d' : Document}
    (h : List.Forall₂ (Entry.Matches R) d.entries d'.entries) (s : Style) :
    List.Forall₂ (Entry.Matches R) (d.separated s).entries (d'.separated s).entries := by
  unfold separated
  split_ifs
  exacts [separate_matches h s.emptyLine rfl false, h]

theorem namePadding_separated {d : Document} (h : ∀ r, .rule r ∈ d.entries → r.namePadding = 0)
    (s : Style) :
    ∀ r, .rule r ∈ ((d.mapRules (Rule.layOut s)).separated s).entries → r.namePadding = 0 := by
  intro r hr
  have hmem : .rule r ∈ (d.mapRules (Rule.layOut s)).entries := by
    unfold separated at hr
    split_ifs at hr
    exacts [EmptyLineStyle.mem_of_rule_mem_separate hr, hr]
  obtain ⟨e, he, hrule⟩ := List.mem_map.1 hmem
  cases e with
  | verbatim v => simp [Entry.mapRule] at hrule
  | rule r₀ =>
    obtain rfl := Entry.rule.inj hrule
    rw [Rule.layOut_eq]
    exact h r₀ he

theorem ReadBack.namePadding (h : laid.ReadBack again) :
    ∀ r, .rule r ∈ again.entries → r.namePadding = 0 := by
  have hentries : ∀ {es es' : List Entry}, List.Forall₂ (Entry.Matches Rule.ReadBack) es es' →
      ∀ r, .rule r ∈ es' → r.namePadding = 0 := by
    intro es es' hes
    induction hes with
    | nil => simp
    | cons he _ ih =>
      intro r hr
      rcases List.mem_cons.1 hr with rfl | hr
      · cases he with
        | rule hback => rw [hback.settings]
      · exact ih r hr
  exact hentries h

/-- Each rule of a document that was read back is laid out as the written one. -/
theorem ReadBack.writtenLike (h : laid.ReadBack again)
    (hlaid : ∀ r, .rule r ∈ laid.entries → r.LaidOut s) :
    List.Forall₂ (Entry.Matches Rule.WrittenLike) (laid.mapRules (Rule.layOut s)).entries
      (again.mapRules (Rule.layOut s)).entries := by
  have hentries : ∀ {es es' : List Entry}, List.Forall₂ (Entry.Matches Rule.ReadBack) es es' →
      (∀ r, .rule r ∈ es → r.LaidOut s) →
      List.Forall₂ (Entry.Matches Rule.WrittenLike) (es.map (Entry.mapRule (Rule.layOut s)))
        (es'.map (Entry.mapRule (Rule.layOut s))) := by
    intro es es' hes hrules
    induction hes with
    | nil => exact .nil
    | cons he _ ih =>
      refine .cons ?_ (ih fun r hr => hrules r (List.mem_cons_of_mem _ hr))
      cases he with
      | verbatim hv => exact .verbatim hv
      | rule hr =>
        have hrule := hrules _ List.mem_cons_self
        have hwritten := hrule.writtenLike hr
        rw [← hrule.fixed] at hwritten
        exact .rule hwritten
  exact hentries h hlaid

/-- A document that was read back is laid out to the text that it was read from. -/
theorem render_layOut_of_readBack (h : laid.ReadBack again)
    (hlaid : ∀ r, .rule r ∈ laid.entries → r.LaidOut s) (hfixed : laid.layOut s = laid) :
    (again.layOut s).render = laid.render := by
  have hseparated := separated_matches (h.writtenLike hlaid) s
  conv_rhs => rw [← hfixed]
  rw [layOut_eq_separated, layOut_eq_separated]
  -- The rules are written alike but for the padding of names, which lining up colons sets anew.
  split_ifs with hpipes
  · exact render_alignColonsFrom hseparated Text.width 0
  · refine render_unpadded hseparated (namePadding_separated (fun r hr => ?_) s)
      (namePadding_separated h.namePadding s)
    exact (hlaid r hr).namePadding (Bool.eq_false_iff.2 hpipes)

end Document

end GrammarLayout
