import GrammarLayout.Proofs.Grammar.Alphabet
import GrammarLayout.Proofs.Pass.Alignment
import GrammarLayout.Proofs.Pass.Indent
import GrammarLayout.Proofs.Pass.Relaid

/-!
# The alphabet of what is written

The passes move and rewrite the texts of rules, and the rules are written with
their names, indentation and signs.  All this writes blanks and signs only
besides what was read: the text of a formatted grammar is over every alphabet
with the signs of a file that the text it was made from is over.

What is proved here:

* `over_spaceProduction`, `over_alignInline`, `over_indentProduction` — what a
  pass makes of a production needs the signs of a line only;
* `Rule.Over.rewrite` — each rewrite of a rule stays in the alphabet;
* `format_over` — and so does formatting.
-/

namespace GrammarLayout

open Ascii Text

variable {S : UInt8 → Prop}

/-! ## Operators -/

/-- Spacing operators writes bytes of the line, and spaces. -/
theorem over_spaceOperators (hspace : S space) {line : Text} (h : Over S line) :
    Over S (spaceOperators line) := by
  intro c hc
  rcases mem_spaceOperators hc with rfl | hc
  · exact hspace
  · exact h c hc

/-! ## Productions -/

theorem over_joinInline (hS : LineSigns S) {text inner : Text} (ht : Over S text)
    (hi : Over S inner) : Over S (joinInline text inner) := by
  have hopen : bytes "\x7b " = [openBrace, space] := rfl
  have hclose : bytes " \x7d" = [space, closeBrace] := rfl
  have hboth : bytes "\x7b \x7d" = [openBrace, space, closeBrace] := rfl
  rw [joinInline, hopen, hclose, hboth, over_append]
  constructor
  · split
    · exact over_nil
    · simp [ht, hS.space]
  · split
    · simp [hS.openBrace, hS.space, hS.closeBrace]
    · simp [hi, hS.openBrace, hS.space, hS.closeBrace]

theorem over_of_splitInline? {p before inner : Text} (h : splitInline? p = some (before, inner))
    (hp : Over S p) : Over S before ∧ Over S inner := by
  obtain ⟨b, rest, hblock, -, rfl, rfl⟩ := splitInline?_eq h
  rw [firstBlock?_eq hblock, over_append, over_append, over_cons] at hp
  exact ⟨hp.1.trimEndWhile _, hp.2.1.2⟩

theorem over_spaceBlock (hspace : S space) {inner : Text} (h : Over S inner) :
    Over S (spaceBlock inner) := by
  have hcode := over_spaceOperators hspace h.trim
  simp only [spaceBlock]
  split
  · simp [hspace]
  · simp [hspace, hcode]

theorem over_mapBlocks (hS : LineSigns S) {f : Text → Text} (hf : ∀ t, Over S t → Over S (f t))
    {p : Text} (hp : Over S p) : Over S (mapBlocks f p) := by
  rw [blockLine_eq p, over_append, over_flatMap] at hp
  rw [mapBlocks_eq, over_append, over_flatMap]
  refine ⟨fun b hb => ?_, hp.2⟩
  have hold := hp.1 b hb
  rw [Block.text, over_append, over_append, over_cons] at hold ⊢
  exact ⟨⟨hold.1.1, hS.openBrace, hf _ hold.1.2.2⟩, by simp [hS.closeBrace]⟩

theorem over_spacePipe (hS : LineSigns S) (around : Bool) {p : Text} (hp : Over S p) :
    Over S (spacePipe around p) := by
  have hindent : Over S (leadingBlanks p) := hp.takeWhile _
  have hrest : Over S (trim (dropStart [pipe] (trimBlanksStart p))) :=
    ((hp.dropWhile _).dropStart _).trim
  simp only [spacePipe, show bytes "| " = [pipe, space] from rfl]
  split
  · simp [hindent, hS.pipe]
  · split <;> simp [hindent, hrest, hS.pipe, hS.space]

theorem over_spaceBlocks (hS : LineSigns S) {p : Text} (hp : Over S p) :
    Over S (spaceBlocks p) := by
  unfold spaceBlocks
  split
  · rename_i before inner hsplit
    obtain ⟨hbefore, hinner⟩ := over_of_splitInline? hsplit hp
    exact over_joinInline hS hbefore (over_spaceOperators hS.space hinner.trim)
  · exact over_mapBlocks hS (fun _ => over_spaceBlock hS.space) hp

theorem over_spaceProduction (hS : LineSigns S) (style : SpacingStyle) (i : Nat) {p : Text}
    (hp : Over S p) : Over S (spaceProduction style i p) := by
  have hpiped : Over S (if 0 < i && hasPipe p then spacePipe style.aroundPipe p else p) := by
    split
    · exact over_spacePipe hS _ hp
    · exact hp
  simp only [spaceProduction]
  split
  · exact over_spaceBlocks hS hpiped
  · exact hpiped

theorem over_alignInline (hS : LineSigns S) {p : Text} (hp : Over S p) :
    Over S (alignInline p) := by
  unfold alignInline
  split
  · rename_i before inner hsplit
    obtain ⟨hbefore, hinner⟩ := over_of_splitInline? hsplit hp
    exact over_append.2 ⟨hp.takeWhile _, over_joinInline hS hbefore.trim hinner.trim⟩
  · exact hp

theorem over_indentProduction (hS : LineSigns S) {unit : Text} (hunit : Over S unit) (i : Nat)
    {p : Text} (hp : Over S p) : Over S (indentProduction unit i p) := by
  have hrest : Over S (trim (dropStart [pipe] (trim p))) := (hp.trim.dropStart _).trim
  simp only [indentProduction, show bytes "| " = [pipe, space] from rfl]
  split
  · exact hp.trim
  · split <;> simp [hunit, hrest, hS.pipe, hS.space]

theorem over_unlifted {p : Text} (hp : Over S p) : Over S (unlifted p) := by
  unfold unlifted
  cases h : liftable? p with
  | none => exact hp
  | some parts => exact (over_of_splitInline? (splitInline?_of_liftable? h) hp).1

/-! ## Blocks -/

theorem Action.over_lead {a : Action} (h : Over S a.text) : Over S a.lead := by
  unfold Action.lead
  split <;> exact h.takeWhile _

theorem Action.over_body {a : Action} (h : Over S a.text) : Over S a.body := by
  unfold Action.body
  split <;> exact h.dropWhile _

theorem Action.over_setText (a : Action) {text : Text} (h : Over S text) :
    Over S (a.setText text).text := h.trimEndWhile _

theorem over_lifted? (hS : LineSigns S) {i : Nat} {p : Text} {a : Action} (hp : Over S p)
    (h : lifted? i p = some a) : Over S a.text := by
  obtain ⟨parts, hparts, rfl⟩ := Option.map_eq_some_iff.1 h
  have hinner := (over_of_splitInline? (splitInline?_of_liftable? hparts) hp).2
  refine Over.trimEndWhile ?_ _
  simp [show bytes " \x7b" = [space, openBrace] from rfl, hinner, hS.space, hS.openBrace,
    hS.closeBrace]

theorem over_rebaseLine {base : Text} (hbase : Over S base) (cut : Nat) {l : Text}
    (hl : Over S l) : Over S (rebaseLine base cut l) :=
  fun c hc => (mem_rebaseLine hc).elim (hbase c) (hl c)

theorem over_blockContent (hS : Signs S) {inner : Text} (h : Over S inner) :
    ∀ l ∈ blockContent inner, Over S l := by
  intro l hl
  obtain ⟨head, below, hlines, hplace⟩ := mem_blockContent hl
  have hover : ∀ k ∈ head :: below, Over S k := by
    rw [← hlines]
    exact h.splitOn newline
  rcases hplace with hl | ⟨w, hw, rfl⟩
  · exact hover l (List.mem_cons_of_mem head hl)
  · exact over_append.2 ⟨hS.over_blanks hw, (hover head List.mem_cons_self).trim⟩

theorem over_reflowBlock (hS : Signs S) {unit body : Text} (hunit : Over S unit)
    (hbody : Over S body) : Over S (reflowBlock unit body) := by
  unfold reflowBlock
  split
  · have hinner : Over S (body.drop 1).dropLast :=
      (hbody.drop 1).of_subset fun _ hc => List.dropLast_subset _ hc
    have hlines : ∀ l ∈ rebase (unit ++ unit) (blockContent (body.drop 1).dropLast),
        Over S (l ++ [newline]) := by
      intro l hl
      obtain ⟨k, hk, rfl⟩ := List.mem_map.1 hl
      refine over_append.2 ⟨?_, by simp [hS.newline]⟩
      exact over_rebaseLine (over_append.2 ⟨hunit, hunit⟩) _ (over_blockContent hS hinner k hk)
    rw [over_append, over_append, over_cons, over_cons]
    exact ⟨⟨⟨hS.openBrace, hS.newline, over_flatMap.2 hlines⟩, hunit⟩, by simp [hS.closeBrace]⟩
  · exact hbody

theorem over_spaceActionLine (hspace : S space) {l : Text} (hl : Over S l) :
    Over S (spaceActionLine l) := by
  simp only [spaceActionLine]
  split
  · exact hl
  · exact over_append.2 ⟨hl.takeWhile _, over_spaceOperators hspace (hl.dropWhile _)⟩

theorem over_joinLines (hS : Signs S) {ls : List Text} (h : ∀ l ∈ ls, Over S l) :
    Over S (joinLines ls) := over_join (by simp [hS.newline]) h

theorem over_alignBelow {base step : Text} (hbase : Over S base) (hstep : Over S step)
    {below : List Text} (h : ∀ l ∈ below, Over S l) :
    ∀ l ∈ alignBelow base step below, Over S l := by
  intro l hl c hc
  rcases mem_alignBelow hl hc with hindent | ⟨k, hk, hc⟩
  · exact over_append.2 ⟨hbase, hstep⟩ c hindent
  · exact h k hk c hc

theorem Rule.over_productionLine (hS : LineSigns S) {r : Rule}
    (hindent : Text.Over S r.productionIndent) (i : Nat) {p : Text} (hp : Text.Over S p) :
    Text.Over S (r.productionLine i p) := by
  unfold productionLine
  split
  · exact over_append.2 ⟨hindent, hp.trim⟩
  · split
    · exact hp.trimEndWhile _
    · simp [show bytes "| " = [pipe, space] from rfl, hindent, hp.trim, hS.pipe, hS.space]

/-! ## Rules -/

namespace Rule.Over

variable {r r' : Rule} (h : r.Over S)
include h

theorem liftActions (hS : LineSigns S) : r.liftActions.Over S := by
  rw [liftActions_eq]
  refine { h with productions := fun q hq => ?_, actions := fun a ha => ?_ }
  · obtain ⟨p, hp, rfl⟩ := List.mem_map.1 hq
    exact over_unlifted (h.productions p hp)
  · rcases mem_liftInto ha with ha | ⟨j, -, p, hp, hlifted⟩
    · exact h.actions a ha
    · exact over_lifted? hS (h.productions p hp) hlifted

/-- The productions by number, each rewritten. -/
theorem mapIdx {f : Nat → Text → Text} (hf : ∀ i p, Text.Over S p → Text.Over S (f i p)) :
    ∀ q ∈ r.productions.mapIdx f, Text.Over S q := by
  intro q hq
  obtain ⟨i, hi, rfl⟩ := List.mem_mapIdx.1 hq
  exact hf i _ (h.productions _ (List.getElem_mem hi))

/-- The blocks, each with another text. -/
theorem mapActions {f : Action → Action}
    (hf : ∀ a, Text.Over S a.text → Text.Over S (f a).text) :
    ∀ b ∈ r.actions.map f, Text.Over S b.text := by
  intro b hb
  obtain ⟨a, ha, rfl⟩ := List.mem_map.1 hb
  exact hf a (h.actions a ha)

theorem indentBy (hS : Signs S) {unit : Text} (hunit : Text.Over S unit) :
    (r.indentBy unit).Over S := by
  have hlifted := h.liftActions hS.toLineSigns
  refine ⟨hlifted.word, hlifted.name, ?_, ?_, hunit, hunit⟩
  · exact hlifted.mapIdx fun i p => over_indentProduction hS.toLineSigns hunit i
  · refine hlifted.mapActions fun a ha => a.over_setText ?_
    exact over_append.2 ⟨over_cons.2 ⟨hS.newline, hunit⟩,
      over_reflowBlock hS hunit (Action.over_body ha)⟩

theorem placeBraces (hS : Signs S) (style : BraceStyle) : (r.placeBraces style).Over S := by
  refine { h with actions := h.mapActions fun a ha => ?_ }
  have hbody := Action.over_body ha
  unfold Action.placeBrace
  split
  · split
    · refine a.over_setText (over_append.2 ⟨?_, hbody⟩)
      split <;> simp [hS.space]
    · exact ha
  · split
    · exact ha
    · exact a.over_setText (over_append.2 ⟨over_cons.2 ⟨hS.newline, h.productionIndent⟩, hbody⟩)

theorem spaceSigns (hS : Signs S) (style : SpacingStyle) : (r.spaceSigns style).Over S := by
  have hspaced : ∀ b ∈ r.actions.map Action.spaceLines, Text.Over S b.text := by
    refine h.mapActions fun a ha => a.over_setText (over_append.2 ⟨Action.over_lead ha, ?_⟩)
    refine over_joinLines hS fun l hl => ?_
    obtain ⟨k, hk, rfl⟩ := List.mem_map.1 hl
    exact over_spaceActionLine hS.space ((Action.over_body ha).splitOn _ k hk)
  refine ⟨h.word, h.name, ?_, ?_, h.productionIndent, h.terminatorIndent⟩
  · exact h.mapIdx fun i p => over_spaceProduction hS.toLineSigns style i
  · simp only [Rule.spaceSigns]
    split
    · exact hspaced
    · exact h.actions

theorem alignPipes : r.alignPipes.Over S := by
  unfold Rule.alignPipes
  split
  · exact h
  · rename_i first later hps
    split
    · exact h
    · have hold : ∀ p ∈ first :: later, Text.Over S p := hps ▸ h.productions
      refine { h with productions := fun q hq => ?_ }
      rcases List.mem_cons.1 hq with rfl | hq
      · exact hold q List.mem_cons_self
      · obtain ⟨p, hp, rfl⟩ := List.mem_map.1 hq
        have hp := hold p (List.mem_cons_of_mem first hp)
        split
        · exact over_append.2 ⟨h.productionIndent, hp.trim⟩
        · exact hp

theorem braceIndent {a : Action} (ha : Text.Over S a.text) : Text.Over S (r.braceIndent a) := by
  rcases r.braceIndent_cases a with hlast | hindent | hnil | ⟨p, hp, hlead⟩
  · obtain ⟨front, hsplit, -⟩ := exists_of_afterLastNewline? hlast
    refine (Action.over_lead ha).of_subset fun c hc => ?_
    rw [hsplit]
    exact List.mem_append_right front (List.mem_cons_of_mem newline hc)
  · rw [hindent]
    exact h.productionIndent
  · rw [hnil]
    exact over_nil
  · rw [hlead]
    exact (h.productions p hp).takeWhile _

theorem alignBlock (hS : Signs S) {step : Text} (hstep : Text.Over S step) {a : Action}
    (ha : Text.Over S a.text) : Text.Over S (r.alignBlock step a).text := by
  have hlines := (Action.over_body ha).splitOn newline
  unfold Rule.alignBlock
  split
  · split
    · exact ha
    · rename_i first below hbody
      rw [splitLines] at hbody
      rw [hbody] at hlines
      refine a.over_setText (over_append.2 ⟨Action.over_lead ha, over_joinLines hS ?_⟩)
      refine List.forall_mem_cons.2 ⟨hlines first List.mem_cons_self, ?_⟩
      exact over_alignBelow (h.braceIndent ha) hstep
        fun l hl => hlines l (List.mem_cons_of_mem first hl)
  · exact ha

theorem alignActions (hS : Signs S) {step : Text} (hstep : Text.Over S step) :
    (r.alignActions step).Over S := by
  have hinlined : Rule.Over S { r with productions := r.productions.map alignInline } := by
    refine { h with productions := fun q hq => ?_ }
    obtain ⟨p, hp, rfl⟩ := List.mem_map.1 hq
    exact over_alignInline hS.toLineSigns (h.productions p hp)
  exact { hinlined with actions := h.mapActions fun _ ha => hinlined.alignBlock hS hstep ha }

/-- Each rewrite of a rule stays in the alphabet. -/
theorem rewrite {style : Style} (hS : Signs S) (hr : r.Rewrite style r') : r'.Over S := by
  have hunit := hS.over_blanks style.indent.isBlank_of_mem_unit
  cases hr with
  | indented => exact h.indentBy hS hunit
  | bracesPlaced => exact h.placeBraces hS style.brace
  | signsSpaced => exact h.spaceSigns hS style.spacing
  | padded n => exact { h with }
  | pipesAligned => exact h.alignPipes
  | actionsAligned => exact h.alignActions hS hunit

theorem rewrites {style : Style} (hS : Signs S) (hr : r.Rewrites style r') : r'.Over S := by
  induction hr with
  | refl => exact h
  | tail _ hlast ih => exact ih.rewrite hS hlast

/-! ## Writing -/

theorem renderFrom (hS : Signs S) (i : Nat) {ps : List Text} {as : List Action}
    (hps : ∀ p ∈ ps, Text.Over S p) (has : ∀ a ∈ as, Text.Over S a.text) :
    Text.Over S (r.renderFrom i ps as) := by
  induction ps generalizing i as with
  | nil => exact over_flatMap.2 has
  | cons p ps ih =>
    have hline := over_productionLine hS.toLineSigns h.productionIndent i
      (hps p List.mem_cons_self)
    have hfollowing : Text.Over S (actionTexts (as.takeWhile (·.owner ≤ (i : Int)))) :=
      over_flatMap.2 fun a ha => has a ((List.takeWhile_sublist _).subset ha)
    have hrest : Text.Over S (r.renderFrom (i + 1) ps (as.dropWhile (·.owner ≤ (i : Int)))) :=
      ih (i + 1) (fun q hq => hps q (List.mem_cons_of_mem p hq))
        fun a ha => has a ((List.dropWhile_sublist _).subset ha)
    rw [Rule.renderFrom, over_append, over_append, over_cons]
    exact ⟨⟨⟨hS.newline, hline⟩, hfollowing⟩, hrest⟩

theorem render (hS : Signs S) : Text.Over S r.render := by
  have hheader : Text.Over S r.header := by
    rw [header, over_append, over_append]
    refine ⟨⟨h.name, over_replicate hS.space⟩, ?_⟩
    split
    · simp [show bytes " :" = [space, colon] from rfl, hS.space, hS.colon]
    · simp [show bytes ":" = [colon] from rfl, hS.colon]
  have hterminator : Text.Over S r.terminator := by
    simp [terminator, h.terminatorIndent, hS.newline, hS.semicolon]
  rw [Rule.render, over_append, over_append, over_append]
  refine ⟨⟨⟨hheader, over_flatMap.2 fun a ha => ?_⟩, ?_⟩, hterminator⟩
  · exact h.actions a ((List.takeWhile_sublist _).subset ha)
  · exact h.renderFrom hS 0 h.productions
      fun a ha => h.actions a ((List.dropWhile_sublist _).subset ha)

end Rule.Over

/-! ## Documents -/

theorem Document.over_render (hS : Signs S) {d : Document} (h : ∀ e ∈ d.entries, e.Over S) :
    Over S d.render := by
  refine over_flatMap.2 fun e he => ?_
  have hover := h e he
  cases e with
  | verbatim v => exact hover
  | rule r => exact hover.render hS

/-- A document that was read and laid out is over the alphabet of its text. -/
theorem Document.layOut_over (style : Style) (hS : Signs S) {text : Text} {d : Document}
    (htext : Over S text) (h : Document.parse text = .ok d) :
    ∀ e ∈ (d.layOut style).entries, e.Over S := by
  refine (d.runPasses_relaid style style.passes).forall_entries ?_ ?_ (parse_over hS h htext)
  · exact fun hr hover => Rule.Over.rewrites hover hS hr
  · simp [Entry.Over, Verbatim.blank, hS.newline]

/-- Formatting writes nothing of its own but blanks and signs: the result is over every alphabet
with the signs of a file that the text is over. -/
theorem format_over (style : Style) (hS : Signs S) {text out : Text} (htext : Over S text)
    (h : format style text = .ok out) : Over S out := by
  obtain ⟨d, hd, hout⟩ := exists_of_bind_eq_ok h
  obtain rfl : (d.layOut style).render = out := Except.ok.inj hout
  exact Document.over_render hS (Document.layOut_over style hS htext hd)

end GrammarLayout
