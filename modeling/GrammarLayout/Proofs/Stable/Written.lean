import GrammarLayout.Proofs.Stable.Lines
import GrammarLayout.Proofs.Stable.ReadBack

/-!
# Reading a written document

A rule is written as a header, productions, blocks and a semicolon.  When every
production is written on a legible line, and every block closes on its last
line, the reader gets the rule back.

What is proved here:

* `Rule.Legible`, `Document.Legible` — rules and documents of which every line
  can be told for what it is;
* `Scan.reads_rule_of_legible` — such a rule is read back;
* `Document.parse_render_of_legible` — such a document is read back.
-/

namespace GrammarLayout

open Ascii Text

/-! ## Blocks -/

/-- The lines of a block that is opened on the first and closed on the last of them. -/
def BlockCloses : List Text → Prop
  | [] => False
  | first :: below => closingBraceFrom 0 first = none ∧ Closes (braceBalance first) below

/-- An action that is written so that it can be read. -/
structure Action.Legible (a : Action) : Prop extends a.InParts where
  /-- No line of it ends with a carriage return. -/
  lines : carriageReturn ∉ a.body
  /-- The block closes on its last line. -/
  closes : BlockCloses (splitLines a.body)

theorem Text.isSingleLine_of_mem_splitLines {s l : Text} (h : carriageReturn ∉ s)
    (hl : l ∈ splitLines s) : IsSingleLine l :=
  isSingleLine_iff.2 ⟨newline_notMem_of_mem_splitLines hl, fun hmem => h (mem_of_mem_splitOn hl _ hmem)⟩

namespace Action.Legible

variable {a : Action} (h : a.Legible)
include h

/-- The text of the action: its lead, the line that opens the block, and the other lines. -/
theorem exists_lines : ∃ l₀ below, a.text = a.lead ++ (l₀ ++ newline :: joinLines below) ∧
    IsOpening l₀ ∧ Closes (braceBalance l₀) below ∧ (∀ l ∈ below, IsSingleLine l) ∧
      ∀ l ∈ below.getLast?, IsEndLine l := by
  have hcloses := h.closes
  have htail := h.body.tail
  have hsingle : ∀ l ∈ splitLines a.body, IsSingleLine l := fun l =>
    isSingleLine_of_mem_splitLines h.lines
  obtain ⟨l₀, below, hlines⟩ := List.exists_cons_of_ne_nil (splitLines_ne_nil a.body)
  rw [hlines] at hcloses htail hsingle
  obtain ⟨hunclosed, hbelow⟩ := hcloses
  obtain ⟨next, ls, rfl⟩ := List.exists_cons_of_ne_nil hbelow.ne_nil
  have hbody : a.body = l₀ ++ newline :: joinLines (next :: ls) := by
    rw [← joinLines_splitLines a.body, hlines, joinLines_cons (by simp)]
  have hopened := h.body.opened
  rw [hbody] at hopened
  have hne : l₀ ≠ [] := by
    rintro rfl
    exact absurd (Option.some.inj hopened) (by decide)
  rw [List.head?_append_of_ne_nil _ hne] at hopened
  refine ⟨l₀, next :: ls, ?_, ⟨hopened, hunclosed, hsingle l₀ List.mem_cons_self⟩, hbelow,
    fun l hl => hsingle l (List.mem_cons_of_mem l₀ hl), htail⟩
  rw [← hbody, lead_append_body]

end Action.Legible

/-! ## A line and its blocks -/

namespace Scan

variable {closed : List Entry} {s : Scan} {n : Nat} {l : Text} {x : Rule}

/-- The line `l` leads to the rule `x`, and a block may open behind it. -/
structure LeadsTo (s : Scan) (l : Text) (closed : List Entry) (x : Rule) (n : Nat) : Prop where
  /-- It is one line. -/
  oneLine : newline ∉ l
  /-- The line by itself. -/
  alone : s.line (l ++ [newline]) = .ok ⟨closed, .body ⟨x, []⟩, n⟩
  /-- The line with the start of a block. -/
  opened : ∀ v l₀, (∀ c ∈ v, isBlank c = true) → IsOpening l₀ →
    s.line (l ++ (v ++ l₀) ++ [newline]) = .ok ⟨closed, .action ⟨x, []⟩
      ⟨v ++ l₀, braceBalance l₀, (x.productions.length : Int) - 1, n⟩, n⟩

/-- A line is read with the block behind it. -/
theorem LeadsTo.reads_block (h : s.LeadsTo l closed x n) {a : Action} (ha : a.Legible) :
    ∃ k n', ∀ rest s', Reads ⟨closed, .body
        ⟨x.addAction ⟨a.text, (x.productions.length : Int) - 1, k⟩, []⟩, n'⟩ (Text.lines rest) s' →
      Reads s (Text.lines (l ++ a.text ++ newline :: rest)) s' := by
  obtain ⟨l₀, below, htext, hopening, hcloses, hlines, hend⟩ := ha.exists_lines
  rcases ha.lead with hlead | ⟨v, hlead, hv⟩
  · -- The block opens on the line.
    obtain ⟨n', hn'⟩ := reads_closing closed ⟨x, []⟩
      ⟨a.lead ++ l₀, braceBalance l₀, (x.productions.length : Int) - 1, n⟩ n hcloses hlines hend
    refine ⟨n, n', fun rest s' hrest => ?_⟩
    have hfirst : newline ∉ l ++ (a.lead ++ l₀) := by
      rw [List.mem_append, List.mem_append, not_or, not_or]
      exact ⟨h.oneLine, newline_notMem_of_blanks hlead, hopening.single.oneLine⟩
    have hcut : l ++ a.text ++ newline :: rest
        = l ++ (a.lead ++ l₀) ++ newline :: (joinLines below ++ newline :: rest) := by
      rw [htext]
      simp
    rw [hcut]
    refine reads_line hfirst (h.opened _ _ hlead hopening) (hn' rest s' ?_)
    rw [htext] at hrest
    simpa using hrest
  · -- The block opens on the next line.
    obtain ⟨n', hn'⟩ := reads_closing closed ⟨x, []⟩
      ⟨newline :: (v ++ l₀), braceBalance l₀, (x.productions.length : Int) - 1, n + 1⟩ (n + 1) hcloses
      hlines hend
    refine ⟨n + 1, n', fun rest s' hrest => ?_⟩
    have hfirst : newline ∉ v ++ l₀ := by
      rw [List.mem_append, not_or]
      exact ⟨newline_notMem_of_blanks hv, hopening.single.oneLine⟩
    have hcut : l ++ a.text ++ newline :: rest
        = l ++ newline :: (v ++ l₀ ++ newline :: (joinLines below ++ newline :: rest)) := by
      rw [htext, hlead]
      simp
    rw [hcut]
    refine reads_line h.oneLine h.alone (reads_line hfirst (line_opened hv hopening) ?_)
    refine hn' rest s' ?_
    rw [htext, hlead] at hrest
    simpa using hrest

end Scan

/-! ## Rules -/

/-- A rule that is written so that it can be read. -/
structure Rule.Legible (r : Rule) : Prop where
  /-- There is a name. -/
  named : r.name ≠ []
  /-- The name is a word. -/
  name : ∀ p ∈ pieces r.name, p.isWord = true
  /-- The first production is indented by blanks. -/
  productionIndent : ∀ c ∈ r.productionIndent, isBlank c = true
  /-- The semicolon is indented by blanks. -/
  terminatorIndent : ∀ c ∈ r.terminatorIndent, isBlank c = true
  /-- Every production is written on a legible line. -/
  lines : ∀ i p, r.productions[i]? = some p → IsLegible (r.productionLine i p)
  /-- Every production but the first starts with a pipe. -/
  piped : ∀ i p, r.productions[i + 1]? = some p → hasPipe p = true
  /-- The blocks are in the order of their productions, and no two belong to the same one. -/
  ordered : r.actions.Pairwise (·.owner < ·.owner)
  /-- Every block belongs to a production, or stands in front of the first. -/
  lower : ∀ a ∈ r.actions, -1 ≤ a.owner
  /-- The production that a block belongs to exists. -/
  upper : ∀ a ∈ r.actions, a.owner < r.productions.length
  /-- Every block can be read. -/
  blocks : ∀ a ∈ r.actions, a.Legible

namespace Rule

variable {r x : Rule} {qs : List Text} {bs : List Action}

theorem ReadUpTo.addProduction (h : r.ReadUpTo qs bs x) (p : Text) :
    r.ReadUpTo (qs ++ [p]) bs (x.addProduction (r.readProduction qs.length p)) where
  name := h.name
  productions := by rw [Rule.addProduction, h.productions, List.mapIdx_concat]
  actions := h.actions
  settings := by
    rw [h.settings]
    rfl

theorem ReadUpTo.addAction (h : r.ReadUpTo qs bs x) {a b : Action}
    (hab : b.unnumbered = a.unnumbered) : r.ReadUpTo qs (bs ++ [a]) (x.addAction b) where
  name := h.name
  productions := h.productions
  actions := by rw [Rule.addAction, List.map_append, List.map_append, h.actions, List.map_singleton,
    List.map_singleton, hab]
  settings := by
    rw [h.settings]
    rfl

theorem ReadUpTo.length_productions (h : r.ReadUpTo qs bs x) : x.productions.length = qs.length := by
  rw [h.productions, List.length_mapIdx]

/-- What is read from the line of a production starts with a pipe if the production does, and is
the production up to its indentation. -/
theorem Legible.readProduction_eq (h : r.Legible) {i : Nat} {p : Text}
    (hp : r.productions[i]? = some p) :
    (if hasPipe (r.productionLine i p) then r.productionLine i p else trim (r.productionLine i p))
        = r.readProduction i p ∧ (hasPipe (r.productionLine i p) = true ∨ i = 0) := by
  cases i with
  | zero =>
    have hline : r.productionLine 0 p = r.productionIndent ++ trim p := if_pos rfl
    have htrim : trim (r.productionIndent ++ trim p) = trim p := by
      rw [trim_blanks_append h.productionIndent, trim_trim]
    have hpipe : hasPipe (r.productionIndent ++ trim p) = hasPipe p := by
      rw [hasPipe, htrim, ← hasPipe]
    refine ⟨?_, Or.inr rfl⟩
    rw [readProduction, hline, hpipe, htrim]
  | succ i =>
    have hpipe := h.piped i p hp
    have hline : r.productionLine (i + 1) p = trimBlanksEnd p := by
      rw [productionLine, if_neg (by simp), if_pos hpipe]
    rw [hline, hasPipe_trimBlanksEnd, hpipe, readProduction, if_pos hpipe, hline]
    exact ⟨rfl, Or.inl rfl⟩

end Rule

namespace Scan

variable {closed : List Entry} {s : Scan} {n : Nat} {l : Text} {r x : Rule} {qs : List Text}
  {bs : List Action}

variable (closed n) in
/-- The line of a production leads to the rule with this production. -/
theorem leadsTo_production (h : r.Legible) {p : Text} {ps : List Text}
    (hps : r.productions = qs ++ p :: ps) (hx : r.ReadUpTo qs bs x) :
    (⟨closed, .body ⟨x, []⟩, n⟩ : Scan).LeadsTo (r.productionLine qs.length p) closed
      (x.addProduction (r.readProduction qs.length p)) (n + 1) := by
  have hp : r.productions[qs.length]? = some p := by simp [hps]
  have hline := h.lines qs.length p hp
  obtain ⟨hread, hfirst⟩ := h.readProduction_eq hp
  have hnil : hasPipe (r.productionLine qs.length p) = true ∨ x.productions = [] := by
    refine hfirst.imp_right fun hzero => ?_
    rw [← List.length_eq_zero_iff, hx.length_productions]
    exact hzero
  rw [← hread]
  refine ⟨hline.single.oneLine, ?_, fun v l₀ hv h₀ => ?_⟩
  · have hproductions := hline.readProductions (v := []) (by simp) hnil
    rw [List.append_nil] at hproductions
    exact line_legible hline hproductions
  · exact line_openedBehind hline hv h₀ (hline.readProductions hv hnil)

variable (closed n) in
/-- The header leads to the rule with nothing in it. -/
theorem leadsTo_header (h : r.Legible) :
    (⟨closed, .outside, n⟩ : Scan).LeadsTo r.header closed { name := r.name, line := n + 1 } (n + 1) := by
  obtain ⟨w, hw, hheader⟩ := r.exists_header
  rw [hheader]
  refine ⟨?_, line_named h.name h.named hw, fun v l₀ hv h₀ => ?_⟩
  · rw [List.mem_append, List.mem_append, not_or, not_or]
    refine ⟨(isSingleLine_of_words h.name).oneLine, fun hmem => ?_, by decide⟩
    exact absurd (hw newline hmem) (by decide)
  · have hcut : r.name ++ (w ++ [colon]) ++ (v ++ l₀) ++ [newline]
        = r.name ++ (w ++ colon :: (v ++ l₀)) ++ [newline] := by simp
    rw [hcut]
    exact line_namedOpened h.name h.named hw hv h₀

/-- A line is read with the blocks behind it, of which there is one at most. -/
theorem LeadsTo.reads_blocks (hs : s.LeadsTo l closed x n) (h : r.Legible)
    (hx : r.ReadUpTo qs bs x) {as : List Action} (has : r.actions = bs ++ as)
    (howner : ∀ a ∈ as, (qs.length : Int) - 1 ≤ a.owner) :
    ∃ x' n', r.ReadUpTo qs (bs ++ as.takeWhile (·.owner ≤ (qs.length : Int) - 1)) x' ∧
      (∀ a ∈ as.dropWhile (·.owner ≤ (qs.length : Int) - 1), (qs.length : Int) ≤ a.owner) ∧
      ∀ rest s', Reads ⟨closed, .body ⟨x', []⟩, n'⟩ (Text.lines rest) s' →
        Reads s (Text.lines (l ++ Rule.actionTexts (as.takeWhile (·.owner ≤ (qs.length : Int) - 1))
          ++ newline :: rest)) s' := by
  have hordered : as.Pairwise (·.owner < ·.owner) := by
    have hall := h.ordered
    rw [has, List.pairwise_append] at hall
    exact hall.2.1
  rcases owner_cases hordered howner with hnone | ⟨a, as, rfl, hown, hlater⟩
  · obtain ⟨htake, hdrop⟩ := takeWhile_owner_of_lt hnone
    rw [htake, hdrop, List.append_nil]
    refine ⟨x, n, hx, fun b hb => by have := hnone b hb; omega, fun rest s' hrest => ?_⟩
    rw [show l ++ Rule.actionTexts [] = l from List.append_nil l]
    exact reads_line hs.oneLine hs.alone hrest
  · obtain ⟨htake, hdrop⟩ := takeWhile_owner_of_lt hlater
    obtain ⟨k, n', hn'⟩ := hs.reads_block (h.blocks a (by rw [has]; simp))
    rw [List.takeWhile_cons_of_pos (by simp [hown]), List.dropWhile_cons_of_pos (by simp [hown]), htake,
      hdrop]
    have hadded : (⟨a.text, (x.productions.length : Int) - 1, k⟩ : Action).unnumbered = a.unnumbered := by
      rw [hx.length_productions, ← hown]
      rfl
    refine ⟨_, n', hx.addAction hadded, fun b hb => by have := hlater b hb; omega,
      fun rest s' hrest => ?_⟩
    rw [show Rule.actionTexts [a] = a.text from List.append_nil a.text]
    exact hn' rest s' hrest

variable (closed) in
/-- The productions of a rule are read with their blocks: when the productions `qs` and the blocks
`bs` have been read, the others are read from what is written behind them. -/
theorem reads_renderFrom_of_legible (h : r.Legible) (z : Text) (qs : List Text) {ps : List Text}
    (bs : List Action) {as : List Action} (hps : r.productions = qs ++ ps)
    (has : r.actions = bs ++ as) (howner : ∀ a ∈ as, (qs.length : Int) ≤ a.owner)
    (hx : r.ReadUpTo qs bs x) (n : Nat) :
    ∃ body x' n', r.renderFrom qs.length ps as ++ newline :: z = newline :: body ∧ r.ReadBack x' ∧
      ∀ s', Reads ⟨closed, .body ⟨x', []⟩, n'⟩ (Text.lines z) s' →
        Reads ⟨closed, .body ⟨x, []⟩, n⟩ (Text.lines body) s' := by
  induction ps generalizing qs bs as x n with
  | nil =>
    rw [List.append_nil] at hps
    obtain rfl : as = [] := by
      rw [List.eq_nil_iff_forall_not_mem]
      intro a ha
      have hlt := h.upper a (by rw [has]; exact List.mem_append_right _ ha)
      have hle := howner a ha
      rw [hps] at hlt
      omega
    rw [List.append_nil] at has
    refine ⟨z, x, n, rfl, ?_, fun s' hrest => hrest⟩
    rw [Rule.ReadBack, hps, has]
    exact hx
  | cons p ps ih =>
    have hlength : ((qs ++ [p]).length : Int) - 1 = qs.length := by
      rw [List.length_append, List.length_singleton]
      omega
    obtain ⟨x₁, n₁, hx₁, hlater, hblocks⟩ := (leadsTo_production closed n h hps hx).reads_blocks h
      (hx.addProduction p) has (by rw [hlength]; exact howner)
    rw [hlength] at hx₁ hlater hblocks
    obtain ⟨body, x₂, n₂, hbody, hx₂, hreads⟩ := ih (qs ++ [p]) _ (by simp [hps])
      (by rw [has, List.append_assoc, List.takeWhile_append_dropWhile]) hlater hx₁ n₁
    rw [List.length_append, List.length_singleton] at hbody
    refine ⟨_, x₂, n₂, ?_, hx₂, fun s' hrest => hblocks body s' (hreads s' hrest)⟩
    rw [Rule.renderFrom, List.append_assoc, hbody]
    simp

variable (closed) in
/-- A legible rule is read back. -/
theorem reads_rule_of_legible (h : r.Legible) (n : Nat) : ∃ x n', r.ReadBack x ∧
    Reads ⟨closed, .outside, n⟩ (Text.lines r.render) ⟨closed ++ [.rule x], .outside, n'⟩ := by
  have hstart : r.ReadUpTo [] [] { name := r.name, line := n + 1 } := ⟨rfl, rfl, rfl, rfl⟩
  have hminus : (([] : List Text).length : Int) - 1 = -1 := rfl
  obtain ⟨x₁, n₁, hx₁, hlater, hblocks⟩ := (leadsTo_header closed n h).reads_blocks h hstart
    (List.nil_append _).symm h.lower
  rw [hminus] at hx₁ hlater hblocks
  obtain ⟨body, x, n', hbody, hx, hreads⟩ := reads_renderFrom_of_legible closed h
    (r.terminatorIndent ++ [semicolon] ++ newline :: []) [] _ rfl
    (by rw [List.nil_append, List.takeWhile_append_dropWhile]) hlater hx₁ n₁
  refine ⟨x, n' + 1, hx, ?_⟩
  have hrender : r.render = r.header ++ Rule.actionTexts (r.actions.takeWhile (·.owner ≤ -1))
      ++ newline :: body := by
    rw [← hbody, Rule.render, Rule.terminator]
    simp
  have hend : newline ∉ r.terminatorIndent ++ [semicolon] :=
    newline_notMem_blanks_concat h.terminatorIndent (by decide)
  rw [hrender]
  exact hblocks body _ (hreads _ (reads_line hend (line_terminator h.terminatorIndent) (.nil _)))

end Scan

/-! ## Lines between rules -/

/-- A line that the reader keeps outside every rule. -/
def Verbatim.Legible (v : Verbatim) : Prop :=
  v.isBlank = true ∨ v.isComment = true ∨
    header? (trimTerminator v.text) = none ∧ isFooterMarker v.text = false

/-- An entry that is written so that it can be read before the sections after the grammar. -/
def Entry.Legible : Entry → Prop
  | .verbatim v => v.Legible
  | .rule r => r.Legible

/-- A document that is written so that it can be read. -/
structure Document.Legible (d : Document) : Prop where
  /-- Every entry but perhaps the last ends with a newline. -/
  ended : EndedEntries d.entries
  /-- Every line is one line. -/
  oneLine : ∀ v, .verbatim v ∈ d.entries → lines v.text = [v.text]
  /-- A line that opens a section after the grammar is followed by lines only. -/
  divided : ∃ (front : List Entry) (back : List Verbatim),
    d.entries = front ++ back.map Entry.verbatim ∧ (∀ e ∈ front, e.Legible) ∧
      ∀ v ∈ back.head?, isFooterMarker v.text = true

theorem EndedEntries.lines_cons {e : Entry} {es : List Entry} (h : EndedEntries (e :: es)) :
    lines ((e :: es).flatMap Entry.render) = lines e.render ++ lines (es.flatMap Entry.render) := by
  rw [List.flatMap_cons]
  cases es with
  | nil => rw [List.flatMap_nil, List.append_nil, show lines [] = [] by rw [lines], List.append_nil]
  | cons next es =>
    cases h with
    | cons he _ => exact lines_append he _

theorem EndedEntries.of_append {es back : List Entry} (h : EndedEntries (es ++ back)) :
    EndedEntries back := by
  induction es with
  | nil => exact h
  | cons e es ih =>
    have hcons : EndedEntries (e :: (es ++ back)) := h
    exact ih hcons.tail

theorem isFooterMarker_trimTerminator (raw : Text) :
    isFooterMarker (trimTerminator raw) = isFooterMarker raw := by
  rw [isFooterMarker, isFooterMarker, trim_trimTerminator]

namespace Scan

variable {closed : List Entry} {n : Nat}

/-- A line outside every rule is kept. -/
theorem line_kept {v : Verbatim} (h : v.Legible) : (⟨closed, .outside, n⟩ : Scan).line v.text
    = .ok ⟨closed ++ [.verbatim { v with synthetic := false }], .outside, n + 1⟩ := by
  cases haside : ((trim (trimTerminator v.text)).isEmpty
      || startsWith [hash] (trim (trimTerminator v.text))) with
  | true =>
    refine line_of_segment ?_
    simp only [segment, grammarLine, if_pos haside]
    rfl
  | false =>
    rw [trim_trimTerminator, Bool.or_eq_false_iff, isEmpty_trim] at haside
    rcases h with hblank | hcomment | ⟨hheader, hmarker⟩
    · rw [Verbatim.isBlank, haside.1] at hblank
      exact absurd hblank (by decide)
    · rw [Verbatim.isComment, haside.2] at hcomment
      exact absurd hcomment (by decide)
    · refine line_of_segment ?_
      simp [segment, grammarLine, trim_trimTerminator, isEmpty_trim, -List.isEmpty_iff, haside,
        isFooterMarker_trimTerminator, hmarker, hheader, keep]

/-- The line that opens the sections after the grammar is kept. -/
theorem line_marker {v : Verbatim} (h : isFooterMarker v.text = true) :
    (⟨closed, .outside, n⟩ : Scan).line v.text
      = .ok ⟨closed ++ [.verbatim { v with synthetic := false }], .footer, n + 1⟩ := by
  obtain ⟨t, ht⟩ := List.isPrefixOf_iff_prefix.1 h
  have haside : ((trim (trimTerminator v.text)).isEmpty
      || startsWith [hash] (trim (trimTerminator v.text))) = false := by
    rw [trim_trimTerminator, ← ht]
    rfl
  refine line_of_segment ?_
  rw [← isFooterMarker_trimTerminator] at h
  simp only [segment, grammarLine, haside, h, if_true, Bool.false_eq_true, if_false]
  simp [leave, keep, entries, openRule?]

variable (closed n) in
/-- Lines in the sections after the grammar are kept. -/
theorem reads_footer {vs : List Verbatim} (hlines : ∀ v ∈ vs, Text.lines v.text = [v.text])
    (hended : EndedEntries (vs.map Entry.verbatim)) : ∃ es n',
      List.Forall₂ (Entry.Matches Rule.ReadBack) (vs.map Entry.verbatim) es ∧
      Reads ⟨closed, .footer, n⟩ (Text.lines ((vs.map Entry.verbatim).flatMap Entry.render))
        ⟨closed ++ es, .footer, n'⟩ := by
  induction vs generalizing closed n with
  | nil => exact ⟨[], n, .nil, by rw [List.append_nil]; exact .nil _⟩
  | cons v vs ih =>
    obtain ⟨es, n', hes, hreads⟩ := ih (closed ++ [.verbatim ⟨v.text, false⟩]) (n + 1)
      (fun w hw => hlines w (List.mem_cons_of_mem v hw)) hended.tail
    refine ⟨.verbatim ⟨v.text, false⟩ :: es, n', .cons (.verbatim rfl) hes, ?_⟩
    have hline : (⟨closed, .footer, n⟩ : Scan).line v.text
        = .ok ⟨closed ++ [.verbatim ⟨v.text, false⟩], .footer, n + 1⟩ := line_of_segment rfl
    rw [List.map_cons, EndedEntries.lines_cons hended, Entry.render, hlines v List.mem_cons_self]
    rw [List.append_assoc, List.singleton_append] at hreads
    exact .cons hline hreads

variable (closed) in
/-- Entries in front of the sections after the grammar are read back one after the other. -/
theorem reads_front {es back : List Entry} (h : ∀ e ∈ es, e.Legible)
    (hlines : ∀ v, .verbatim v ∈ es → Text.lines v.text = [v.text])
    (hended : EndedEntries (es ++ back)) (n : Nat) :
    ∃ es' n', List.Forall₂ (Entry.Matches Rule.ReadBack) es es' ∧
      ∀ s', Reads ⟨closed ++ es', .outside, n'⟩ (Text.lines (back.flatMap Entry.render)) s' →
        Reads ⟨closed, .outside, n⟩ (Text.lines ((es ++ back).flatMap Entry.render)) s' := by
  induction es generalizing closed n with
  | nil => exact ⟨[], n, .nil, fun s' hrest => by rwa [List.append_nil] at hrest⟩
  | cons e es ih =>
    have hnext : ∀ e' n₁, Entry.Matches Rule.ReadBack e e' →
        Reads ⟨closed, .outside, n⟩ (Text.lines e.render) ⟨closed ++ [e'], .outside, n₁⟩ →
        ∃ es' n', List.Forall₂ (Entry.Matches Rule.ReadBack) (e :: es) es' ∧
          ∀ s', Reads ⟨closed ++ es', .outside, n'⟩ (Text.lines (back.flatMap Entry.render)) s' →
            Reads ⟨closed, .outside, n⟩ (Text.lines ((e :: es ++ back).flatMap Entry.render)) s' := by
      intro e' n₁ he' hfirst
      obtain ⟨es', n', hes, hreads⟩ := ih (closed ++ [e'])
        (fun x hx => h x (List.mem_cons_of_mem e hx))
        (fun v hv => hlines v (List.mem_cons_of_mem e hv)) hended.tail n₁
      refine ⟨e' :: es', n', .cons he' hes, fun s' hrest => ?_⟩
      have hcons : EndedEntries (e :: (es ++ back)) := hended
      rw [List.cons_append, hcons.lines_cons]
      refine hfirst.append (hreads s' ?_)
      rwa [List.append_assoc, List.singleton_append]
    have he := h e List.mem_cons_self
    cases e with
    | verbatim v =>
      refine hnext (.verbatim ⟨v.text, false⟩) (n + 1) (.verbatim rfl) ?_
      rw [Entry.render, hlines v List.mem_cons_self]
      exact .cons (line_kept he) (.nil _)
    | rule r =>
      obtain ⟨x, n₁, hx, hreads⟩ := reads_rule_of_legible closed he n
      exact hnext (.rule x) n₁ (.rule hx) hreads

end Scan

/-- A legible document is read back from its text. -/
theorem Document.parse_render_of_legible {d : Document} (h : d.Legible) :
    ∃ again, Document.parse d.render = .ok again ∧ d.ReadBack again := by
  obtain ⟨front, back, hentries, hfront, hback⟩ := h.divided
  have hended := h.ended
  have hlines := h.oneLine
  rw [hentries] at hended hlines
  obtain ⟨es, n, hes, hreads⟩ := Scan.reads_front [] hfront
    (fun v hv => hlines v (List.mem_append_left _ hv)) hended 0
  rw [← hentries, List.nil_append] at hreads
  have hparse : ∀ s : Scan, Scan.Reads Scan.start (lines d.render) s → s.finish = .ok ⟨s.entries⟩ →
      Document.parse d.render = .ok ⟨s.entries⟩ := by
    intro s hs hfinish
    rw [Document.parse, hs.foldlM_eq]
    exact hfinish
  have htail := hended.of_append
  cases back with
  | nil =>
    refine ⟨_, hparse _ (hreads _ (.nil _)) rfl, ?_⟩
    rw [List.map_nil, List.append_nil] at hentries
    have hkept : (⟨es, .outside, n⟩ : Scan).entries = es := List.append_nil es
    rw [ReadBack, hentries, hkept]
    exact hes
  | cons v vs =>
    have hline : ∀ w ∈ v :: vs, lines w.text = [w.text] := fun w hw =>
      hlines w (List.mem_append_right _ (List.mem_map_of_mem hw))
    obtain ⟨es', n', hes', hfooter⟩ := Scan.reads_footer
      (es ++ [.verbatim ⟨v.text, false⟩]) (n + 1) (fun w hw => hline w (List.mem_cons_of_mem v hw)) htail.tail
    have hmarked : Scan.Reads ⟨es, .outside, n⟩
        (lines (((v :: vs).map Entry.verbatim).flatMap Entry.render))
        ⟨es ++ [.verbatim ⟨v.text, false⟩] ++ es', .footer, n'⟩ := by
      rw [List.map_cons, htail.lines_cons, Entry.render, hline v List.mem_cons_self]
      exact .cons (Scan.line_marker (hback v rfl)) hfooter
    refine ⟨_, hparse _ (hreads _ hmarked) rfl, ?_⟩
    have hkept : (⟨es ++ [.verbatim ⟨v.text, false⟩] ++ es', .footer, n'⟩ : Scan).entries
        = es ++ .verbatim ⟨v.text, false⟩ :: es' := by
      rw [Scan.entries, List.append_assoc, List.append_assoc, List.singleton_append]
      exact congrArg (es ++ .verbatim ⟨v.text, false⟩ :: ·) (List.append_nil es')
    rw [ReadBack, hentries, hkept]
    exact List.rel_append hes (.cons (.verbatim rfl) hes')

end GrammarLayout
