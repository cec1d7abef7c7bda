import GrammarLayout.Proofs.Idempotent.Blocks
import GrammarLayout.Proofs.Idempotent.Productions
import GrammarLayout.Proofs.Pass.Colons
import GrammarLayout.Proofs.Pass.EmptyLine

/-!
# Laying out a document twice

All passes over a document come down to one change of its rules, followed by
the padding of names and by the blank lines between entries.  What the change
makes of a rule, it leaves as it is: each production and each block is left as
it is by the passes that made it.

What is proved here:

* `Rule.layOut_eq` — a rule after all passes, field by field;
* `Rule.Regular.layOut_layOut` — laying a rule out twice is laying it out once;
* `Document.layOut_eq`, `Document.layOut_layOut` — the same for a document.
-/

namespace GrammarLayout

open Ascii Text

/-! ## Actions in parts -/

/-- The layout in front of a brace: blanks, or a new line with blanks. -/
def IsLead (lead : Text) : Prop :=
  (∀ c ∈ lead, isBlank c = true) ∨ ∃ w, lead = newline :: w ∧ ∀ c ∈ w, isBlank c = true

theorem IsLead.plain {lead : Text} (h : IsLead lead) :
    ∀ c ∈ lead, c = space ∨ c = tab ∨ c = newline := by
  rcases h with h | ⟨w, rfl, hw⟩
  exacts [Action.plain_of_blanks h, Action.plain_newline_cons hw]

theorem IsLead.openBrace_notMem {lead : Text} (h : IsLead lead) : openBrace ∉ lead := by
  intro hmem
  rcases h.plain openBrace hmem with h | h | h <;> exact absurd h (by decide)

/-- The action with another lead and another block. -/
def Action.withParts (a : Action) (lead body : Text) : Action := { a with text := lead ++ body }

/-- An action that is a block behind its lead. -/
structure Action.InParts (a : Action) : Prop where
  /-- The lead. -/
  lead : IsLead a.lead
  /-- The block. -/
  body : IsBlockBody a.body

namespace Action

theorem eq_withParts (a : Action) : a = a.withParts a.lead a.body := by
  rw [withParts, lead_append_body]

section Parts

variable (a : Action) {lead body : Text} (hlead : IsLead lead) (hbody : IsBlockBody body)
include hbody

theorem setText_parts (lead : Text) : a.setText (lead ++ body) = a.withParts lead body := by
  have htrim := hbody.trimLayout
  rw [setText, trimEndWhile_append_of_ne_nil (by rw [htrim]; exact hbody.ne_nil), htrim]
  rfl

include hlead

theorem parts_withParts :
    (a.withParts lead body).lead = lead ∧ (a.withParts lead body).body = body := by
  obtain ⟨t, rfl⟩ := List.head?_eq_some_iff.1 hbody.opened
  exact (Cut.block hlead.openBrace_notMem).lead_body rfl

theorem inParts_withParts : (a.withParts lead body).InParts := by
  obtain ⟨h₁, h₂⟩ := a.parts_withParts hlead hbody
  exact ⟨by rwa [h₁], by rwa [h₂]⟩

theorem indented_withParts {unit : Text} (hunit : ∀ c ∈ unit, isBlank c = true) :
    (a.withParts lead body).indented unit = a.withParts (newline :: unit) (reflowBlock unit body) := by
  rw [indented, (a.parts_withParts hlead hbody).2]
  exact (a.withParts lead body).setText_parts (hbody.reflowBlock hunit) _

theorem placeBrace_withParts (style : BraceStyle) (indent : Text) :
    (a.withParts lead body).placeBrace style indent
      = a.withParts (style.placeLead indent lead) body := by
  obtain ⟨h₁, h₂⟩ := a.parts_withParts hlead hbody
  have hset : ∀ lead', (a.withParts lead body).setText (lead' ++ body) = a.withParts lead' body :=
    fun lead' => (a.withParts lead body).setText_parts hbody lead'
  unfold Action.placeBrace onOwnLine BraceStyle.placeLead
  rw [h₁, h₂]
  cases style.placement <;> dsimp only <;> rw [hset] <;> split_ifs <;> rfl

theorem spaceLines_withParts :
    (a.withParts lead body).spaceLines = a.withParts lead (spacedBody body) := by
  obtain ⟨h₁, h₂⟩ := a.parts_withParts hlead hbody
  rw [spaceLines, h₁, h₂]
  exact (a.withParts lead body).setText_parts hbody.spacedBody lead

theorem alignBlock_withParts {step : Text} (hstep : ∀ c ∈ step, isBlank c = true) {r : Rule}
    (hbase : ∀ c ∈ r.braceIndent (a.withParts lead body), isBlank c = true) :
    r.alignBlock step (a.withParts lead body)
      = a.withParts lead (alignedBody (r.braceIndent (a.withParts lead body)) step body) := by
  obtain ⟨h₁, h₂⟩ := a.parts_withParts hlead hbody
  cases hmulti : (a.withParts lead body).multiline with
  | true =>
    rw [Rule.alignBlock_of_multiline hmulti, h₁, h₂]
    exact (a.withParts lead body).setText_parts (hbody.alignedBody hbase hstep) lead
  | false =>
    have hline : newline ∉ body := by
      rw [Action.multiline, h₂, Bool.eq_false_iff] at hmulti
      exact fun hmem => hmulti (List.contains_iff_mem.2 hmem)
    rw [Rule.alignBlock_of_not_multiline hmulti,
      alignedBody_eq _ step (splitLines_of_notMem hline)]
    rfl

end Parts

end Action

theorem IsLead.placeLead (style : BraceStyle) {indent lead : Text}
    (hindent : ∀ c ∈ indent, isBlank c = true) (h : IsLead lead) :
    IsLead (style.placeLead indent lead) := by
  unfold BraceStyle.placeLead
  split <;> split_ifs
  · exact Or.inl (by simp [isBlank])
  · exact Or.inl (by simp)
  · exact h
  · exact h
  · exact Or.inr ⟨indent, rfl, hindent⟩

/-! ## Rules -/

namespace Style

/-- The indentation of productions after all passes. -/
def layIndent (s : Style) (indent : Text) : Text := if s.indent.enabled then s.indent.unit else indent

theorem isBlank_of_mem_layIndent (s : Style) {indent : Text} (h : ∀ c ∈ indent, isBlank c = true) :
    ∀ c ∈ s.layIndent indent, isBlank c = true := by
  unfold layIndent
  split_ifs
  exacts [s.indent.isBlank_of_mem_unit, h]

theorem layIndent_layIndent (s : Style) (indent : Text) :
    s.layIndent (s.layIndent indent) = s.layIndent indent := by
  unfold layIndent
  split_ifs <;> rfl

end Style

namespace Rule

/-- The rule after all passes but the padding of its name. -/
def layOut (s : Style) (r : Rule) : Rule :=
  let indented := if s.indent.enabled then r.indentBy s.indent.unit else r
  let placed := if s.brace.enabled then indented.placeBraces s.brace else indented
  let spaced := if s.spacing.enabled then placed.spaceSigns s.spacing else placed
  let lined := if s.alignsPipes then spaced.alignPipes else spaced
  if s.alignsActions then lined.alignActions s.indent.unit else lined

/-- Does the first production start with a pipe? -/
def startsPiped (r : Rule) : Bool := r.productions.head?.any hasPipe

/-- The actions of a rule and those that are taken out of its productions. -/
def keptActions (s : Style) (r : Rule) : List Action :=
  if s.indent.enabled then liftInto r.actions 0 r.productions else r.actions

/-- A rule whose productions and actions are in parts. -/
structure Regular (r : Rule) : Prop where
  /-- Each production is an alternative or, if it is the first, a text without a pipe. -/
  productions : ∀ i p, r.productions[i]? = some p → IsProduction i p
  /-- Productions are indented by blanks. -/
  productionIndent : ∀ c ∈ r.productionIndent, isBlank c = true
  /-- Every action is a block behind its lead. -/
  actions : ∀ a ∈ r.actions, a.InParts
  /-- The production that a block follows exists. -/
  owned : ∀ a ∈ r.actions, a.owner < r.productions.length

theorem alignPipes_productions (r : Rule) : r.alignPipes.productions
    = r.productions.mapIdx fun i p =>
        if !r.startsPiped && decide (0 < i) && hasPipe p then r.productionIndent ++ trim p else p := by
  unfold alignPipes startsPiped
  cases hps : r.productions with
  | nil => simp [hps]
  | cons first later =>
    dsimp only
    apply List.ext_getElem?
    intro i
    cases hfirst : hasPipe first with
    | true => cases i <;> simp [hps, hfirst]
    | false =>
      cases i with
      | zero => simp [hfirst]
      | succ i => simp [hfirst]

section Fields

variable (s : Style) (r : Rule)

theorem mapIdx_self (ps : List Text) : ps.mapIdx (fun _ p => p) = ps := by
  apply List.ext_getElem?
  simp

theorem productions_indented :
    (if s.indent.enabled then r.indentBy s.indent.unit else r).productions
      = r.productions.mapIdx fun i p =>
          if s.indent.enabled then indentProduction s.indent.unit i (unlifted p) else p := by
  split_ifs
  · rw [indentBy, liftActions_eq]
    apply List.ext_getElem?
    intro i
    simp only [List.getElem?_map, List.getElem?_mapIdx, Option.map_map]
    rfl
  · exact (mapIdx_self r.productions).symm

theorem productions_spaced :
    (if s.spacing.enabled then r.spaceSigns s.spacing else r).productions
      = r.productions.mapIdx fun i p => if s.spacing.enabled then spaceProduction s.spacing i p else p := by
  split_ifs
  exacts [rfl, (mapIdx_self r.productions).symm]

theorem productions_lined :
    (if s.alignsPipes then r.alignPipes else r).productions
      = r.productions.mapIdx fun i p =>
          if s.alignsPipes && !r.startsPiped && decide (0 < i) && hasPipe p
            then r.productionIndent ++ trim p else p := by
  split_ifs with h
  · rw [alignPipes_productions, h]
    rfl
  · rw [Bool.not_eq_true] at h
    simp [h, mapIdx_self]

theorem productions_joined :
    (if s.alignsActions then r.alignActions s.indent.unit else r).productions
      = r.productions.map fun p => if s.alignsActions then alignInline p else p := by
  split_ifs
  exacts [rfl, (List.map_id' r.productions).symm]

/-- The productions after all passes, if the first one keeps its pipe or goes without. -/
theorem productions_layOut
    (hpiped : ∀ p ∈ r.productions.head?, hasPipe
      (if s.spacing.enabled then spaceProduction s.spacing 0
        (if s.indent.enabled then indentProduction s.indent.unit 0 (unlifted p) else p)
      else if s.indent.enabled then indentProduction s.indent.unit 0 (unlifted p) else p) = hasPipe p) :
    (r.layOut s).productions
      = r.productions.mapIdx (s.layProduction (s.layIndent r.productionIndent) r.startsPiped) := by
  unfold layOut
  dsimp only
  set indented := if s.indent.enabled then r.indentBy s.indent.unit else r with hindented
  set placed := if s.brace.enabled then indented.placeBraces s.brace else indented with hplaced
  set spaced := if s.spacing.enabled then placed.spaceSigns s.spacing else placed with hspaced
  have hplacedProductions : placed.productions = indented.productions := by
    rw [hplaced]
    split_ifs <;> rfl
  have hindent : spaced.productionIndent = s.layIndent r.productionIndent := by
    rw [hspaced, hplaced, hindented, Style.layIndent]
    split_ifs <;> rfl
  have hstart : spaced.startsPiped = r.startsPiped := by
    rw [startsPiped, startsPiped, hspaced, productions_spaced, hplacedProductions, hindented,
      productions_indented]
    cases hps : r.productions with
    | nil => rfl
    | cons first later =>
      rw [hps] at hpiped
      simpa using hpiped first rfl
  rw [productions_joined, productions_lined, hstart, hindent, hspaced, productions_spaced,
    hplacedProductions, hindented, productions_indented]
  apply List.ext_getElem?
  intro i
  simp only [List.getElem?_map, List.getElem?_mapIdx, Option.map_map]
  rfl

end Fields

/-! ## The blocks of a rule -/

/-- The indentation of the line that holds an opening brace behind `lead`. -/
def leadIndent (r : Rule) (owner : Int) (lead : Text) : Text :=
  match afterLastNewline? lead with
  | some indent => indent
  | none => if owner < 0 then r.productionIndent else r.lineIndent owner

theorem braceIndent_eq (r : Rule) (a : Action) : r.braceIndent a = r.leadIndent a.owner a.lead := rfl

theorem leadIndent_congr {r r' : Rule} (hps : r'.productions = r.productions)
    (hindent : r'.productionIndent = r.productionIndent) (owner : Int) (lead : Text) :
    r'.leadIndent owner lead = r.leadIndent owner lead := by
  unfold leadIndent lineIndent
  rw [hps, hindent]

end Rule

/-- A block on one line. -/
theorem isBlockBody_block {inner : Text} (h : newline ∉ inner) :
    IsBlockBody (openBrace :: (inner ++ [closeBrace])) where
  opened := rfl
  tail := by
    have hline : newline ∉ openBrace :: (inner ++ [closeBrace]) := by
      intro hmem
      rcases List.mem_cons.1 hmem with hc | hmem
      · exact absurd hc (by decide)
      · rcases List.mem_append.1 hmem with hmem | hc
        · exact h hmem
        · exact absurd (List.mem_singleton.1 hc) (by decide)
    have htrim : trim (openBrace :: (inner ++ [closeBrace])) = openBrace :: (inner ++ [closeBrace]) := by
      refine trim_eq_self_iff.2 ⟨?_, ?_⟩
      · exact (startsVisible_append_cons (a := []) (by decide) (by decide)).2 startsVisible_nil
      · exact (endsVisible_append_cons (a := openBrace :: inner) (b := []) (by decide) (by decide)).2
          endsVisible_nil
    rw [splitLines_of_notMem hline]
    intro l hl
    obtain rfl : openBrace :: (inner ++ [closeBrace]) = l := by simpa using hl
    refine ⟨?_, ?_⟩
    · rw [← Bool.not_eq_true, ← trim_eq_nil_iff, htrim]
      exact List.cons_ne_nil _ _
    · rw [htrim]
      rfl

/-- What is taken out of a production is a block on one line, behind a space. -/
theorem parts_of_lifted? {i : Nat} {p : Text} {a : Action} (h : lifted? i p = some a)
    (hline : newline ∉ p) : ∃ inner, Closed inner ∧ newline ∉ inner ∧ a.InParts ∧
      a.body = openBrace :: (inner ++ [closeBrace]) := by
  obtain ⟨⟨before, inner⟩, hparts, rfl⟩ := Option.map_eq_some_iff.1 h
  have hsplit := splitInline?_of_liftable? hparts
  obtain ⟨-, hclosed, -⟩ := clear_of_splitInline? hsplit
  have hinner : newline ∉ inner := by
    obtain ⟨b, rest, hblock, -, -, rfl⟩ := splitInline?_eq hsplit
    refine fun hmem => hline ?_
    rw [firstBlock?_eq hblock]
    simp [hmem]
  have hbody := isBlockBody_block hinner
  have hlead : IsLead [space] := Or.inl (by simp [isBlank])
  have heq : Action.ofText (bytes " \x7b" ++ inner ++ [closeBrace]) i 0
      = (⟨[], i, 0⟩ : Action).withParts [space] (openBrace :: (inner ++ [closeBrace])) := by
    rw [← Action.setText_parts _ hbody]
    simp [Action.ofText, Action.setText, show bytes " \x7b" = [space, openBrace] from rfl]
  refine ⟨inner, hclosed, hinner, ?_⟩
  rw [heq]
  exact ⟨Action.inParts_withParts _ hlead hbody, (Action.parts_withParts _ hlead hbody).2⟩

namespace Rule

variable {r : Rule} {s : Style}

/-- What is taken out of productions is in parts, too. -/
theorem Regular.inParts_keptActions (h : r.Regular) (hline : ∀ p ∈ r.productions, newline ∉ p) :
    ∀ a ∈ r.keptActions s, a.InParts := by
  unfold keptActions
  split_ifs
  · intro a ha
    rcases mem_liftInto ha with ha | ⟨j, -, p, hp, hlift⟩
    · exact h.actions a ha
    · obtain ⟨-, -, -, hparts, -⟩ := parts_of_lifted? hlift (hline p hp)
      exact hparts
  · exact h.actions

theorem isBlank_of_mem_lineIndent (hindent : ∀ c ∈ r.productionIndent, isBlank c = true) (i : Int) :
    ∀ c ∈ r.lineIndent i, isBlank c = true := by
  unfold lineIndent
  split
  · simp
  · split
    · simp
    · split_ifs
      exacts [hindent, isBlank_of_mem_leadingBlanks _]

/-- The line of an opening brace is indented by blanks. -/
theorem isBlank_of_mem_leadIndent (hindent : ∀ c ∈ r.productionIndent, isBlank c = true)
    {lead : Text} (hlead : IsLead lead) (owner : Int) :
    ∀ c ∈ r.leadIndent owner lead, isBlank c = true := by
  unfold leadIndent
  split
  · rename_i indent hlast
    obtain ⟨front, hfront, hnone⟩ := exists_of_afterLastNewline? hlast
    intro c hc
    rcases hlead.plain c (by rw [hfront]; simp [hc]) with rfl | rfl | rfl
    · rfl
    · rfl
    · exact absurd hc hnone
  · split_ifs
    exacts [hindent, isBlank_of_mem_lineIndent hindent owner]

/-- One action under all passes over its rule. -/
def layAction (s : Style) (indent : Text) (r : Rule) (a : Action) : Action :=
  let indented := if s.indent.enabled then a.indented s.indent.unit else a
  let placed := if s.brace.enabled then indented.placeBrace s.brace indent else indented
  let spaced := if s.spacesOperators then placed.spaceLines else placed
  if s.alignsActions then r.alignBlock s.indent.unit spaced else spaced

/-- All passes over one action, part by part. -/
theorem layAction_withParts {indent : Text} (hindent : ∀ c ∈ indent, isBlank c = true)
    (hproductions : ∀ c ∈ r.productionIndent, isBlank c = true) (a : Action) {lead body : Text}
    (hlead : IsLead lead) (hbody : IsBlockBody body) :
    r.layAction s indent (a.withParts lead body) = a.withParts (s.layLead indent lead)
      (s.layBlock (r.leadIndent a.owner (s.layLead indent lead)) body) := by
  have hunit := s.indent.isBlank_of_mem_unit
  unfold layAction Style.layBlock Style.layLead
  dsimp only
  have hindented : (if s.indent.enabled then (a.withParts lead body).indented s.indent.unit
        else a.withParts lead body)
      = a.withParts (if s.indent.enabled then newline :: s.indent.unit else lead)
          (if s.indent.enabled then reflowBlock s.indent.unit body else body) := by
    split_ifs
    exacts [a.indented_withParts hlead hbody hunit, rfl]
  have hled : IsLead (if s.indent.enabled then newline :: s.indent.unit else lead) := by
    split_ifs
    exacts [Or.inr ⟨_, rfl, hunit⟩, hlead]
  have hflowed : IsBlockBody (if s.indent.enabled then reflowBlock s.indent.unit body else body) := by
    split_ifs
    exacts [hbody.reflowBlock hunit, hbody]
  rw [hindented]
  generalize (if s.indent.enabled then newline :: s.indent.unit else lead) = led at *
  generalize (if s.indent.enabled then reflowBlock s.indent.unit body else body) = flowed at *
  have hplaced : (if s.brace.enabled then (a.withParts led flowed).placeBrace s.brace indent
        else a.withParts led flowed)
      = a.withParts (if s.brace.enabled then s.brace.placeLead indent led else led) flowed := by
    split_ifs
    exacts [a.placeBrace_withParts hled hflowed s.brace indent, rfl]
  have hput : IsLead (if s.brace.enabled then s.brace.placeLead indent led else led) := by
    split_ifs
    exacts [hled.placeLead s.brace hindent, hled]
  rw [hplaced]
  generalize (if s.brace.enabled then s.brace.placeLead indent led else led) = put at *
  have hspaced : (if s.spacesOperators then (a.withParts put flowed).spaceLines
        else a.withParts put flowed)
      = a.withParts put (if s.spacesOperators then spacedBody flowed else flowed) := by
    split_ifs
    exacts [a.spaceLines_withParts hput hflowed, rfl]
  have hcode : IsBlockBody (if s.spacesOperators then spacedBody flowed else flowed) := by
    split_ifs
    exacts [hflowed.spacedBody, hflowed]
  rw [hspaced, Style.layCode]
  generalize (if s.spacesOperators then spacedBody flowed else flowed) = code at *
  have hbase : r.braceIndent (a.withParts put code) = r.leadIndent a.owner put := by
    rw [braceIndent_eq, (a.parts_withParts hput hcode).1]
    rfl
  have hblank := isBlank_of_mem_leadIndent hproductions hput a.owner
  split_ifs
  · rw [a.alignBlock_withParts hput hcode hunit (by rwa [hbase]), hbase]
  · rfl

theorem alignBlock_congr {r r' : Rule} (hps : r'.productions = r.productions)
    (hindent : r'.productionIndent = r.productionIndent) (step : Text) (a : Action) :
    r'.alignBlock step a = r.alignBlock step a := by
  have hbase : r'.braceIndent a = r.braceIndent a := leadIndent_congr hps hindent a.owner a.lead
  rw [alignBlock, alignBlock, hbase]

/-- The fields of a rule after all passes. -/
theorem layOut_eq (s : Style) (r : Rule) : r.layOut s =
    { r with
      productions := (r.layOut s).productions
      actions := (r.layOut s).actions
      colonSpacing := if s.spacing.enabled then s.spacing.aroundColon else r.colonSpacing
      productionIndent := s.layIndent r.productionIndent
      terminatorIndent := s.layIndent r.terminatorIndent } := by
  have hlined : ∀ x : Rule, ∃ ps, (if s.alignsPipes then x.alignPipes else x)
      = { x with productions := ps } := by
    intro x
    split_ifs
    exacts [⟨_, x.alignPipes_eq⟩, ⟨_, rfl⟩]
  unfold layOut Style.layIndent
  dsimp only
  obtain ⟨ps, hps⟩ := hlined (if s.spacing.enabled then
    (if s.brace.enabled then (if s.indent.enabled then r.indentBy s.indent.unit else r).placeBraces
      s.brace else if s.indent.enabled then r.indentBy s.indent.unit else r).spaceSigns s.spacing
    else if s.brace.enabled then (if s.indent.enabled then r.indentBy s.indent.unit else r).placeBraces
      s.brace else if s.indent.enabled then r.indentBy s.indent.unit else r)
  rw [hps]
  split_ifs <;> rfl

theorem productionIndent_layOut (s : Style) (r : Rule) :
    (r.layOut s).productionIndent = s.layIndent r.productionIndent := by
  rw [layOut_eq]

/-- Each block goes through all passes on its own. -/
theorem actions_layOut (s : Style) (r : Rule) : (r.layOut s).actions
    = (r.keptActions s).map ((r.layOut s).layAction s (s.layIndent r.productionIndent)) := by
  have hindented : (if s.indent.enabled then r.indentBy s.indent.unit else r).actions
      = (r.keptActions s).map fun a => if s.indent.enabled then a.indented s.indent.unit else a := by
    unfold keptActions
    split_ifs
    exacts [rfl, (List.map_id' r.actions).symm]
  have hindent : (if s.indent.enabled then r.indentBy s.indent.unit else r).productionIndent
      = s.layIndent r.productionIndent := by
    unfold Style.layIndent
    split_ifs <;> rfl
  have hplaced : ∀ x : Rule, (if s.brace.enabled then x.placeBraces s.brace else x).actions
      = x.actions.map fun a =>
          if s.brace.enabled then a.placeBrace s.brace x.productionIndent else a := by
    intro x
    split_ifs
    exacts [rfl, (List.map_id' x.actions).symm]
  have hspaced : ∀ x : Rule, (if s.spacing.enabled then x.spaceSigns s.spacing else x).actions
      = x.actions.map fun a => if s.spacesOperators then a.spaceLines else a := by
    intro x
    unfold Style.spacesOperators spaceSigns
    cases s.spacing.enabled <;> cases s.spacing.aroundEquals <;> simp
  have hlined : ∀ x : Rule, (if s.alignsPipes then x.alignPipes else x).actions = x.actions := by
    intro x
    split_ifs
    exacts [x.actions_alignPipes, rfl]
  have hjoined : ∀ x : Rule, (if s.alignsActions then x.alignActions s.indent.unit else x).actions
      = x.actions.map fun a => if s.alignsActions then
          (if s.alignsActions then x.alignActions s.indent.unit else x).alignBlock s.indent.unit a
        else a := by
    intro x
    split_ifs
    · exact List.map_congr_left fun a _ => alignBlock_congr rfl rfl s.indent.unit a
    · exact (List.map_id' x.actions).symm
  conv_lhs => rw [layOut, hjoined, hlined, hspaced, hplaced, hindented, hindent]
  simp only [List.map_map]
  rfl

/-- The blocks after all passes. -/
theorem Regular.actions_layOut (h : r.Regular) (hparts : ∀ a ∈ r.keptActions s, a.InParts) :
    (r.layOut s).actions = (r.keptActions s).map fun a =>
        let lead := s.layLead (s.layIndent r.productionIndent) a.lead
        a.withParts lead (s.layBlock ((r.layOut s).leadIndent a.owner lead) a.body) := by
  have hindent := s.isBlank_of_mem_layIndent h.productionIndent
  rw [Rule.actions_layOut]
  refine List.map_congr_left fun a ha => ?_
  conv_lhs => rw [a.eq_withParts]
  exact layAction_withParts hindent (by rwa [productionIndent_layOut]) a (hparts a ha).lead
    (hparts a ha).body

/-! ## Laying a rule out twice -/

theorem IsProduction.hasPipe_first {p : Text} (h : IsProduction 0 p) : hasPipe
    (if s.spacing.enabled then spaceProduction s.spacing 0
      (if s.indent.enabled then indentProduction s.indent.unit 0 (unlifted p) else p)
    else if s.indent.enabled then indentProduction s.indent.unit 0 (unlifted p) else p) = hasPipe p := by
  have hspaced : ∀ q, hasPipe (spaceProduction s.spacing 0 q) = hasPipe q := by
    intro q
    unfold spaceProduction
    cases s.spacing.aroundEquals <;> simp [hasPipe_spaceBlocks]
  have hindented : hasPipe (if s.indent.enabled then indentProduction s.indent.unit 0 (unlifted p) else p)
      = hasPipe p := by
    split_ifs
    · have htrim : ∀ q, hasPipe (indentProduction s.indent.unit 0 q) = hasPipe q := by
        intro q
        rw [indentProduction_eq, if_pos rfl, hasPipe, trim_trim, ← hasPipe]
      rw [htrim]
      cases h with
      | alternative _ hw hv hb _ =>
        rw [unlifted_alternative hw hv hb, hasPipe_alternative hw, hasPipe_alternative hw]
      | first hb => rw [hb.unlifted.unpiped, hb.unpiped]
    · rfl
  split_ifs at hindented ⊢ <;> simp only [hspaced, hindented]

theorem isLead_layLead {indent lead : Text} (hindent : ∀ c ∈ indent, isBlank c = true)
    (h : IsLead lead) : IsLead (s.layLead indent lead) := by
  have hled : IsLead (if s.indent.enabled then newline :: s.indent.unit else lead) := by
    split_ifs
    exacts [Or.inr ⟨_, rfl, s.indent.isBlank_of_mem_unit⟩, h]
  unfold Style.layLead
  dsimp only
  split_ifs at hled ⊢
  exacts [hled.placeLead s.brace hindent, hled.placeLead s.brace hindent, hled, hled]

theorem afterLastNewline?_newline_cons {w : Text} (hw : newline ∉ w) :
    afterLastNewline? (newline :: w) = some w := by
  have hall : ∀ c ∈ w.reverse, (c != newline) = true := by
    intro c hc
    rw [bne_iff_ne]
    rintro rfl
    exact hw (List.mem_reverse.1 hc)
  have htake : (newline :: w).reverse.takeWhile (· != newline) = w.reverse := by
    rw [List.reverse_cons, List.takeWhile_append_of_pos hall]
    simp
  rw [afterLastNewline?, if_pos (by simp), htake, List.reverse_reverse]

/-- With indentation a lead after all passes is a new line, or nothing but a space. -/
theorem layLead_cases (hindent : s.indent.enabled = true) (indent lead : Text) :
    s.layLead indent lead = newline :: s.indent.unit ∨
      afterLastNewline? (s.layLead indent lead) = none := by
  unfold Style.layLead BraceStyle.placeLead
  rw [if_pos hindent]
  dsimp only
  split
  · split
    · right
      rw [if_pos (by simp)]
      split_ifs <;> rfl
    · left
      simp
  · exact Or.inl rfl

namespace Regular

variable (h : r.Regular)
include h

theorem productions_layOut : (r.layOut s).productions
    = r.productions.mapIdx (s.layProduction (s.layIndent r.productionIndent) r.startsPiped) := by
  refine Rule.productions_layOut s r fun p hp => IsProduction.hasPipe_first (h.productions 0 p ?_)
  rwa [← List.head?_eq_getElem?]

/-- What all passes leave of a production has no block to take out. -/
theorem liftable?_layOut (hindent : s.indent.enabled = true) :
    ∀ p ∈ (r.layOut s).productions, liftable? p = none := by
  rw [h.productions_layOut]
  intro q hq
  obtain ⟨i, hi, rfl⟩ := List.mem_mapIdx.1 hq
  exact (h.productions i _ (List.getElem?_eq_getElem hi)).liftable?_layProduction s
    (s.isBlank_of_mem_layIndent h.productionIndent) _ hindent

theorem keptActions_layOut : (r.layOut s).keptActions s = (r.layOut s).actions := by
  unfold keptActions liftInto
  split_ifs with hindent
  · rw [liftedActions_eq_nil (h.liftable?_layOut hindent)]
    rfl
  · rfl

theorem owner_keptActions : ∀ a ∈ r.keptActions s, a.owner < r.productions.length := by
  unfold keptActions
  split_ifs
  · intro a ha
    rcases mem_liftInto ha with ha | ⟨j, hj, p, -, hlift⟩
    · exact h.owned a ha
    · rw [owner_lifted? hlift]
      omega
  · exact h.owned

/-- With indentation every production is indented by one step. -/
theorem lineIndent_layOut (hindent : s.indent.enabled = true) {owner : Int} (hlower : 0 ≤ owner)
    (hupper : owner < r.productions.length) : (r.layOut s).lineIndent owner = s.indent.unit := by
  have hunit : s.layIndent r.productionIndent = s.indent.unit := if_pos hindent
  obtain ⟨i, rfl⟩ := Int.eq_ofNat_of_zero_le hlower
  have hi : i < r.productions.length := by omega
  have hget : (r.layOut s).productions[i]?
      = some (s.layProduction s.indent.unit r.startsPiped i r.productions[i]) := by
    rw [h.productions_layOut, List.getElem?_mapIdx, List.getElem?_eq_getElem hi, hunit]
    rfl
  have hblank := s.indent.isBlank_of_mem_unit
  rw [lineIndent, if_neg (by omega), Int.toNat_natCast, hget]
  dsimp only
  rw [productionIndent_layOut, hunit]
  split_ifs with hfirst
  · rfl
  · push Not at hfirst
    obtain ⟨hi0, -⟩ := hfirst
    have hproduction := h.productions i _ (List.getElem?_eq_getElem hi)
    generalize r.productions[i] = p at hproduction
    cases hproduction with
    | first hb => exact absurd rfl hi0
    | @alternative _ w v b hw hv hb hgap =>
      obtain ⟨j, rfl⟩ := Nat.exists_eq_succ_of_ne_zero (n := i) (by omega)
      rw [Style.layProduction_alternative hw hv hblank _ j hb hgap, leadingBlanks_alternative]
      · split_ifs <;> rfl
      · split_ifs
        exacts [hblank, hblank]

/-- With indentation the brace of every block stands at one step. -/
theorem leadIndent_layOut (hindent : s.indent.enabled = true) {owner : Int}
    (hupper : owner < r.productions.length) (indent lead : Text) :
    (r.layOut s).leadIndent owner (s.layLead indent lead) = s.indent.unit := by
  have hnone : newline ∉ s.indent.unit := newline_notMem_of_blanks s.indent.isBlank_of_mem_unit
  unfold leadIndent
  rcases layLead_cases hindent indent lead with hlead | hlead
  · rw [hlead, afterLastNewline?_newline_cons hnone]
  · rw [hlead]
    dsimp only
    split_ifs with howner
    · rw [productionIndent_layOut]
      exact if_pos hindent
    · exact h.lineIndent_layOut hindent (by omega) hupper

section Twice

variable (hparts : ∀ a ∈ r.keptActions s, a.InParts)
include hparts

/-- The lead and the block of each action after all passes. -/
theorem parts_layOut {b : Action} (hb : b ∈ (r.layOut s).actions) : ∃ a ∈ r.keptActions s,
    b.owner = a.owner ∧ b.lead = s.layLead (s.layIndent r.productionIndent) a.lead ∧
      b.body = s.layBlock ((r.layOut s).leadIndent a.owner b.lead) a.body ∧ b.InParts := by
  rw [h.actions_layOut hparts] at hb
  obtain ⟨a, ha, rfl⟩ := List.mem_map.1 hb
  have hindent := s.isBlank_of_mem_layIndent h.productionIndent
  have hlead := isLead_layLead (s := s) hindent (hparts a ha).lead
  have hbase := isBlank_of_mem_leadIndent (r := r.layOut s) (by rwa [productionIndent_layOut])
    hlead a.owner
  have hbody := Style.isBlockBody_layBlock hbase (hparts a ha).body (s := s)
  obtain ⟨h₁, h₂⟩ := a.parts_withParts hlead hbody
  refine ⟨a, ha, rfl, h₁, ?_, a.inParts_withParts hlead hbody⟩
  dsimp only
  rw [h₂, h₁]

theorem layOut : (r.layOut s).Regular where
  productions i q hq := by
    rw [h.productions_layOut, List.getElem?_mapIdx, Option.map_eq_some_iff] at hq
    obtain ⟨p, hp, rfl⟩ := hq
    exact (h.productions i p hp).layProduction s (s.isBlank_of_mem_layIndent h.productionIndent) _
  productionIndent := by
    rw [productionIndent_layOut]
    exact s.isBlank_of_mem_layIndent h.productionIndent
  actions b hb := by
    obtain ⟨_, -, -, -, -, hinparts⟩ := h.parts_layOut hparts hb
    exact hinparts
  owned b hb := by
    obtain ⟨a, ha, howner, -⟩ := h.parts_layOut hparts hb
    rw [howner, h.productions_layOut, List.length_mapIdx]
    exact h.owner_keptActions a ha

omit hparts in
theorem startsPiped_layOut : (r.layOut s).startsPiped = r.startsPiped := by
  have hindent := s.isBlank_of_mem_layIndent h.productionIndent
  have hproductions := h.productions
  rw [startsPiped, startsPiped, h.productions_layOut]
  cases hps : r.productions with
  | nil => rfl
  | cons p ps =>
    rw [hps] at hproductions
    rw [List.mapIdx_cons, List.head?_cons, List.head?_cons, Option.any_some, Option.any_some,
      (hproductions 0 p rfl).hasPipe_layProduction s hindent]

theorem productions_twice : ((r.layOut s).layOut s).productions = (r.layOut s).productions := by
  have hindent := s.isBlank_of_mem_layIndent h.productionIndent
  rw [(h.layOut hparts).productions_layOut, h.startsPiped_layOut, productionIndent_layOut,
    s.layIndent_layIndent, h.productions_layOut]
  apply List.ext_getElem?
  intro i
  rw [List.getElem?_mapIdx, List.getElem?_mapIdx]
  cases hp : r.productions[i]? with
  | none => rfl
  | some p =>
    rw [Option.map_some, Option.map_some, (h.productions i p hp).layProduction_layProduction s hindent]

theorem actions_twice : ((r.layOut s).layOut s).actions = (r.layOut s).actions := by
  have hindent := s.isBlank_of_mem_layIndent h.productionIndent
  have hlaid := h.layOut hparts
  rw [hlaid.actions_layOut (by rw [h.keptActions_layOut]; exact hlaid.actions), h.keptActions_layOut]
  refine (List.map_congr_left fun b hb => ?_).trans (List.map_id' _)
  obtain ⟨a, ha, howner, hlead, hbody, hinparts⟩ := h.parts_layOut hparts hb
  have hagain : s.layLead (s.layIndent (r.layOut s).productionIndent) b.lead = b.lead := by
    rw [productionIndent_layOut, s.layIndent_layIndent, hlead, s.layLead_layLead]
  have hbase : ((r.layOut s).layOut s).leadIndent b.owner b.lead = (r.layOut s).leadIndent a.owner b.lead := by
    rw [howner]
    exact leadIndent_congr (h.productions_twice hparts)
      (by rw [productionIndent_layOut, productionIndent_layOut, s.layIndent_layIndent]) _ _
  have hblank := isBlank_of_mem_leadIndent (r := r.layOut s)
    (by rwa [productionIndent_layOut]) hinparts.lead a.owner
  have hcode : s.layBlock ((r.layOut s).leadIndent a.owner b.lead) b.body = b.body := by
    rw [hbody]
    refine Style.layBlock_layBlock hblank (hparts a ha).body fun henabled => ?_
    rw [hlead]
    exact h.leadIndent_layOut henabled (h.owner_keptActions a ha) _ _
  dsimp only
  rw [hagain, hbase, hcode]
  exact b.eq_withParts.symm

/-- Laying a rule out twice is laying it out once. -/
theorem layOut_layOut : (r.layOut s).layOut s = r.layOut s := by
  rw [layOut_eq s (r.layOut s), h.productions_twice hparts, h.actions_twice hparts,
    layOut_eq s r, s.layIndent_layIndent, s.layIndent_layIndent]
  congr 1
  split_ifs <;> rfl

end Twice

end Regular

end Rule

/-! ## Laying a document out twice -/

theorem Rule.namePadding_layOut (s : Style) (r : Rule) (n : Nat) :
    { r with namePadding := n }.layOut s = { r.layOut s with namePadding := n } := by
  have hspaced : ∀ x : Rule, (if s.spacing.enabled then { x with namePadding := n }.spaceSigns s.spacing
      else { x with namePadding := n })
      = { (if s.spacing.enabled then x.spaceSigns s.spacing else x) with namePadding := n } := by
    intro x
    split_ifs <;> rfl
  have hplaced : ∀ x : Rule, (if s.brace.enabled then { x with namePadding := n }.placeBraces s.brace
      else { x with namePadding := n })
      = { (if s.brace.enabled then x.placeBraces s.brace else x) with namePadding := n } := by
    intro x
    split_ifs <;> rfl
  have hindented : (if s.indent.enabled then { r with namePadding := n }.indentBy s.indent.unit
      else { r with namePadding := n })
      = { (if s.indent.enabled then r.indentBy s.indent.unit else r) with namePadding := n } := by
    split_ifs <;> rfl
  have hlined : ∀ x : Rule, (if s.alignsPipes then { x with namePadding := n }.alignPipes
      else { x with namePadding := n })
      = { (if s.alignsPipes then x.alignPipes else x) with namePadding := n } := by
    intro x
    split_ifs
    exacts [x.alignPipes_namePadding n, rfl]
  unfold layOut
  dsimp only at hspaced hplaced hindented hlined ⊢
  rw [hindented, hplaced, hspaced, hlined]
  split_ifs <;> rfl

theorem Rule.name_layOut (s : Style) (r : Rule) : (r.layOut s).name = r.name := by
  rw [layOut_eq]

namespace Document

theorem mapRules_ite (b : Bool) (f : Rule → Rule) (d : Document) :
    (if b then d.mapRules f else d) = d.mapRules fun r => if b then f r else r := by
  cases b
  exacts [d.mapRules_id.symm, rfl]

/-- Pipes and blocks are lined up rule by rule, and then the colons. -/
theorem align_eq (width : Text → Nat) (s : Style) (d : Document) :
    (if s.alignment.enabled then d.align width s else d)
    = let laid := d.mapRules fun r =>
        let lined := if s.alignsPipes then r.alignPipes else r
        if s.alignsActions then lined.alignActions s.indent.unit else lined
      if s.alignsPipes then laid.alignColons width else laid := by
  have halign : (if s.alignment.enabled then d.align width s else d)
      = let lined := if s.alignsPipes then (d.alignColons width).mapRules Rule.alignPipes else d
        if s.alignsActions then lined.mapRules (Rule.alignActions s.indent.unit) else lined := by
    unfold Style.alignsActions Style.alignsPipes align
    cases s.alignment.enabled <;> rfl
  have hjoined : ∀ x : Document,
      (x.mapRules fun r =>
          if s.alignsActions then r.alignActions s.indent.unit else r).alignColons width
        = (x.alignColons width).mapRules fun r =>
            if s.alignsActions then r.alignActions s.indent.unit else r := by
    intro x
    refine alignColons_mapRules width (fun r => ?_) (fun r n => ?_) x <;> split_ifs <;> rfl
  rw [halign]
  dsimp only
  rw [mapRules_ite]
  cases s.alignsPipes with
  | true =>
    rw [if_pos rfl, ← alignColons_mapRules width Rule.name_alignPipes Rule.alignPipes_namePadding,
      ← hjoined, mapRules_comp]
    rfl
  | false => rfl

/-- A document after all passes: rules one by one, then colons, then lines between entries. -/
theorem layOut_eq (s : Style) (d : Document) : d.layOut s =
    let laid := d.mapRules (Rule.layOut s)
    let lined := if s.alignsPipes then laid.alignColons Text.width else laid
    if s.emptyLine.enabled then lined.separate s else lined := by
  have hpasses : d.layOut s
      = let indented := if s.indent.enabled then d.indent s else d
        let placed := if s.brace.enabled then indented.placeBraces s else indented
        let spaced := if s.spacing.enabled then placed.spaceSigns s else placed
        let aligned := if s.alignment.enabled then spaced.align Text.width s else spaced
        if s.emptyLine.enabled then aligned.separate s else aligned := by
    unfold Document.layOut runPasses Style.passes
    rw [List.foldl_filter]
    rfl
  rw [hpasses]
  dsimp only
  rw [align_eq]
  unfold indent placeBraces spaceSigns
  rw [mapRules_ite, mapRules_ite, mapRules_ite, mapRules_comp, mapRules_comp, mapRules_comp]
  rfl

/-- Laying out a document twice is laying it out once. -/
theorem layOut_layOut (s : Style) {d : Document} (hregular : ∀ r, .rule r ∈ d.entries → r.Regular)
    (hline : ∀ r, .rule r ∈ d.entries → ∀ p ∈ r.productions, newline ∉ p) :
    (d.layOut s).layOut s = d.layOut s := by
  have hrules : (d.mapRules (Rule.layOut s)).mapRules (Rule.layOut s) = d.mapRules (Rule.layOut s) :=
    mapRules_mapRules fun r hr =>
      (hregular r hr).layOut_layOut ((hregular r hr).inParts_keptActions (hline r hr))
  have hcolons := fun x : Document =>
    alignColons_mapRules Text.width (Rule.name_layOut s) (Rule.namePadding_layOut s) x
  have hseparate : ∀ x : Document, (x.separate s).separate s = x.separate s := fun x =>
    congrArg mk (EmptyLineStyle.settled_separate x.entries).separate_eq
  rw [layOut_eq s (d.layOut s), layOut_eq s d]
  dsimp only
  split_ifs
  · rw [← separate_mapRules, ← hcolons, hrules, separate_alignColons, hseparate,
      ← separate_alignColons, alignColons_alignColons]
  · rw [← separate_mapRules, hrules, hseparate]
  · rw [← hcolons, hrules, alignColons_alignColons]
  · exact hrules

end Document

end GrammarLayout
