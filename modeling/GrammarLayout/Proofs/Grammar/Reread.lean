import GrammarLayout.Proofs.Grammar.WrittenLine

/-!
# Reading back what was written

A document whose rules are written in the plain way (symbols for productions, a
block behind the production it belongs to) is read back as it was: the text of
the document, read line by line, gives its entries again.  Only what a text does
not say is set anew: the lines on which rules and blocks stand, and the settings
for writing a rule.

What is proved here:

* `Scan.reads_block`, `Scan.reads_renderFrom`, `Scan.reads_rule` — a block, the
  productions of a rule, and a whole rule are read back;
* `Document.parse_render` — a well-formed document is read back from its text.
-/

namespace GrammarLayout

open Ascii Text

/-! ## Well-formed documents -/

/-- After each line some of the `depth` open braces are open, and after the last line just one. -/
def StaysOpen (depth : Int) : List Text → Prop
  | [] => depth = 1
  | l :: ls => 0 < depth + braceBalance l ∧ StaysOpen (depth + braceBalance l) ls

/-- A block over several lines, behind the space that separates it from its production. -/
def IsBlockText (text : Text) : Prop :=
  ∃ content w, (∀ l ∈ content, newline ∉ l ∧ l.getLast? ≠ some carriageReturn) ∧
    StaysOpen 1 content ∧ (∀ c ∈ w, isBlank c = true) ∧
    text = joinLines ([space, openBrace] :: (content ++ [w ++ [closeBrace]]))

/-- A blank line or a comment, with its newline. -/
structure Verbatim.WellFormed (v : Verbatim) : Prop where
  /-- It is one line. -/
  oneLine : ∃ l, newline ∉ l ∧ v.text = l ++ [newline]
  /-- It is blank or a comment. -/
  aside : v.isBlank = true ∨ v.isComment = true

/-- A rule whose productions are symbols and whose blocks stand behind their productions. -/
structure Rule.WellFormed (r : Rule) : Prop where
  /-- There is a name. -/
  named : r.name ≠ []
  /-- The name is a word. -/
  name : ∀ c ∈ r.name, isTokenByte c = true
  /-- Productions are indented by blanks. -/
  productionIndent : ∀ c ∈ r.productionIndent, isBlank c = true
  /-- The semicolon is indented by blanks. -/
  terminatorIndent : ∀ c ∈ r.terminatorIndent, isBlank c = true
  /-- The first production is a list of symbols, but not the word that ends a grammar. -/
  first : ∀ p ∈ r.productions.head?, IsSymbols p ∧ p ≠ bytes "end"
  /-- Every other production starts with a pipe. -/
  later : ∀ p ∈ r.productions.tail, IsAlternative p
  /-- The blocks are in the order of their productions, and no two belong to the same one. -/
  ordered : r.actions.Pairwise (·.owner < ·.owner)
  /-- Every block belongs to a production. -/
  owned : ∀ a ∈ r.actions, 0 ≤ a.owner ∧ a.owner < r.productions.length
  /-- Every block is written over several lines. -/
  blocks : ∀ a ∈ r.actions, IsBlockText a.text

/-- A well-formed line or rule. -/
def Entry.WellFormed : Entry → Prop
  | .verbatim v => v.WellFormed
  | .rule r => r.WellFormed

/-- A document of well-formed entries. -/
def Document.WellFormed (d : Document) : Prop := ∀ e ∈ d.entries, e.WellFormed

/-! ## What is read back -/

/-- The line on which a block opens when the rule is written behind `n` lines: the header, the
productions up to its own, and the lines of the blocks before it come first. -/
def Rule.blockLine (r : Rule) (n : Nat) (a : Action) : Int :=
  n + 2 + a.owner + (actionTexts (r.actions.filter (·.owner < a.owner))).count newline

/-- The block as it is read back from a rule behind `n` lines. -/
def Rule.rereadAction (r : Rule) (n : Nat) (a : Action) : Action :=
  { a with line := r.blockLine n a }

/-- The rule as it is read back from behind `n` lines. -/
def Rule.reread (r : Rule) (n : Nat) : Rule :=
  { name := r.name
    line := n + 1
    productions := r.productions
    actions := r.actions.map (r.rereadAction n) }

/-- The entry as it is read back from behind `n` lines. -/
def Entry.reread (n : Nat) : Entry → Entry
  | .verbatim v => .verbatim { v with synthetic := false }
  | .rule r => .rule (r.reread n)

/-- Entries as they are read back from behind `n` lines. -/
def rereadFrom (n : Nat) : List Entry → List Entry
  | [] => []
  | e :: es => e.reread n :: rereadFrom (n + e.render.count newline) es

/-- The document as it is read back. -/
def Document.reread (d : Document) : Document := ⟨rereadFrom 0 d.entries⟩

/-! ## Runs of lines -/

namespace Scan

variable {closed : List Entry} {r : OpenRule} {n : Nat} {w core : Text} {rule : Rule}

theorem Reads.append {s₁ s₂ s₃ : Scan} {a b : List Text} (h : Reads s₁ a s₂) (h' : Reads s₂ b s₃) :
    Reads s₁ (a ++ b) s₃ := by
  induction h with
  | nil => exact h'
  | cons hline _ ih => exact .cons hline (ih h')

theorem Reads.foldlM_eq {s s' : Scan} {ls : List Text} (h : Reads s ls s') :
    ls.foldlM Scan.line s = .ok s' := by
  induction h with
  | nil => rfl
  | cons hline _ ih => rw [List.foldlM_cons, hline]; exact ih

theorem reads_line {s next s' : Scan} {l rest : Text} (hl : newline ∉ l)
    (hline : s.line (l ++ [newline]) = .ok next) (hrest : Reads next (Text.lines rest) s') :
    Reads s (Text.lines (l ++ newline :: rest)) s' := by
  rw [lines_append_newline hl]
  exact .cons hline hrest

theorem newline_notMem_blanks_concat (hw : ∀ c ∈ w, isBlank c = true) {c : UInt8}
    (hc : newline ≠ c) : newline ∉ w ++ [c] := by
  rw [List.mem_append, not_or, List.mem_singleton]
  exact ⟨newline_notMem_of_blanks hw, hc⟩

/-- The lines of a block behind its first line are read up to the line that closes it. -/
theorem reads_block {content : List Text} (hw : ∀ c ∈ w, isBlank c = true)
    (hlines : ∀ l ∈ content, newline ∉ l ∧ l.getLast? ≠ some carriageReturn)
    {depth : Int} (hopen : StaysOpen depth content) {text rest : Text} {owner : Int} {k m : Nat}
    {s' : Scan} (hm : m = n + 1 + (joinLines (content ++ [w ++ [closeBrace]])).count newline)
    (hrest : Reads
      ⟨closed, .body ⟨r.rule.addAction
        ⟨text ++ newline :: joinLines (content ++ [w ++ [closeBrace]]), owner, k⟩, r.after⟩, m⟩
      (Text.lines rest) s') :
    Reads ⟨closed, .action r ⟨text, depth, owner, k⟩, n⟩
      (Text.lines (joinLines (content ++ [w ++ [closeBrace]]) ++ newline :: rest)) s' := by
  induction content generalizing text depth n with
  | nil =>
    obtain rfl : depth = 1 := hopen
    have hjoin : joinLines ([] ++ [w ++ [closeBrace]]) = w ++ [closeBrace] := rfl
    rw [hjoin] at hm hrest ⊢
    have hnone : newline ∉ w ++ [closeBrace] := newline_notMem_blanks_concat hw (by decide)
    rw [List.count_eq_zero.2 hnone] at hm
    rw [hm] at hrest
    exact reads_line hnone (line_closing hw) hrest
  | cons l content ih =>
    obtain ⟨hl, hend⟩ := hlines l List.mem_cons_self
    have hjoin : joinLines (l :: content ++ [w ++ [closeBrace]])
        = l ++ newline :: joinLines (content ++ [w ++ [closeBrace]]) := by
      rw [joinLines, List.cons_append, join_cons (by simp)]
      simp [joinLines]
    rw [hjoin] at hm hrest ⊢
    rw [List.append_assoc, List.cons_append]
    refine reads_line hl (line_content hl hend hopen.1) ?_
    refine ih (fun l' hl' => hlines l' (List.mem_cons_of_mem l hl')) hopen.2 ?_ ?_
    · rw [hm, List.count_append, List.count_eq_zero.2 hl, List.count_cons_self]
      omega
    · rw [List.append_assoc, List.cons_append]
      exact hrest

/-- A production and its block are read. -/
theorem reads_opening (h : IsProductionLine w core) {text rest : Text} (htext : IsBlockText text)
    (hread : r.rule.readProductions (w ++ core ++ [space]) false = .ok rule) {s' : Scan}
    (hrest : Reads
      ⟨closed, .body ⟨rule.addAction ⟨text, (rule.productions.length : Int) - 1, (n + 1 : Nat)⟩,
        r.after⟩, n + 1 + text.count newline⟩ (Text.lines rest) s') :
    Reads ⟨closed, .body r, n⟩ (Text.lines (w ++ core ++ text ++ newline :: rest)) s' := by
  obtain ⟨content, w', hlines, hopen, hw', rfl⟩ := htext
  have hjoin : joinLines ([space, openBrace] :: (content ++ [w' ++ [closeBrace]]))
      = [space, openBrace] ++ newline :: joinLines (content ++ [w' ++ [closeBrace]]) := by
    rw [joinLines, join_cons (by simp)]
    simp [joinLines]
  have hfirst : newline ∉ w ++ core ++ [space, openBrace] := by
    rw [List.mem_append, not_or]
    exact ⟨h.oneLine, by decide⟩
  have htext : w ++ core ++ joinLines ([space, openBrace] :: (content ++ [w' ++ [closeBrace]]))
      ++ newline :: rest = (w ++ core ++ [space, openBrace])
      ++ newline :: (joinLines (content ++ [w' ++ [closeBrace]]) ++ newline :: rest) := by
    rw [hjoin]
    simp
  rw [htext]
  refine reads_line hfirst (line_opening h hread) (reads_block hw' hlines hopen rfl ?_)
  rw [hjoin] at hrest
  have hcount : n + 1 + ([space, openBrace]
      ++ newline :: joinLines (content ++ [w' ++ [closeBrace]])).count newline
      = n + 1 + 1 + (joinLines (content ++ [w' ++ [closeBrace]])).count newline := by
    rw [List.count_append, List.count_cons_self, List.count_eq_zero.2 (by decide)]
    omega
  rw [hcount] at hrest
  exact hrest

end Scan

/-! ## Productions and their blocks -/

/-- The line of a production is read as this production. -/
theorem Rule.exists_productionLine {r : Rule} (h : r.WellFormed) {qs ps : List Text} {p : Text}
    (hps : r.productions = qs ++ p :: ps) :
    ∃ w core, r.productionLine qs.length p = w ++ core ∧ IsProductionLine w core ∧
      core ≠ bytes "end" ∧ ∀ (rule : Rule) (t : Text), rule.productions = qs →
        (∀ c ∈ t, isBlank c = true) →
          rule.readProductions (w ++ core ++ t) false = .ok (rule.addProduction p) := by
  cases qs with
  | nil =>
    obtain ⟨hp, hend⟩ := h.first p (by rw [hps]; rfl)
    refine ⟨r.productionIndent, p, ?_, hp.isProductionLine h.productionIndent, hend, ?_⟩
    · rw [List.length_nil, productionLine, if_pos rfl, hp.crisp.trim_eq]
    · intro rule t hrule ht
      rw [List.append_assoc]
      exact readProductions_first hrule h.productionIndent hp ht
  | cons q qs =>
    obtain ⟨w, sym, hw, hsym, rfl⟩ := h.later p (by rw [hps]; simp)
    refine ⟨w, pipe :: space :: sym, ?_, hsym.isProductionLine_pipe hw, ?_, ?_⟩
    · have hpipe : hasPipe (w ++ pipe :: space :: sym) = true := by
        rw [hasPipe, startsWith_singleton_iff]
        exact head?_trim_append (isSpaces_of_blanks hw) (by decide) _
      have htrim : trimBlanksEnd (w ++ pipe :: space :: sym) = w ++ pipe :: space :: sym := by
        simpa [trimBlanksEnd] using hsym.crisp_pipe.trimEndWhile_append
          (fun _ => isBlank_eq_false_of_isVisible) (t := []) (by simp) w
      rw [productionLine, if_neg (by simp), if_pos hpipe, htrim]
    · intro heq
      have hletters : bytes "end" = [0x65, 0x6E, 0x64] := rfl
      exact absurd (List.cons.inj (heq.trans hletters)).1 (by decide)
    · intro rule t _ ht
      rw [List.append_assoc]
      exact readProductions_alternative rule hw hsym ht

/-- No block of a later production is written behind production `i`. -/
theorem takeWhile_owner_of_lt {i : Int} {as : List Action} (h : ∀ a ∈ as, i < a.owner) :
    as.takeWhile (·.owner ≤ i) = [] ∧ as.dropWhile (·.owner ≤ i) = as := by
  cases as with
  | nil => exact ⟨rfl, rfl⟩
  | cons a as =>
    have ha : ¬ (decide (a.owner ≤ i) = true) := by
      have := h a List.mem_cons_self
      simpa using this
    exact ⟨List.takeWhile_cons_of_neg ha, List.dropWhile_cons_of_neg ha⟩

/-- Of blocks in order that start with those of production `i` or later, at most the first belongs
to it. -/
theorem owner_cases {i : Int} {as : List Action} (hordered : as.Pairwise (·.owner < ·.owner))
    (hi : ∀ a ∈ as, i ≤ a.owner) :
    (∀ a ∈ as, i < a.owner) ∨
      ∃ a as', as = a :: as' ∧ a.owner = i ∧ ∀ b ∈ as', i < b.owner := by
  cases as with
  | nil => exact Or.inl (by simp)
  | cons a as =>
    rw [List.pairwise_cons] at hordered
    have ha := hi a List.mem_cons_self
    by_cases hown : a.owner = i
    · exact Or.inr ⟨a, as, rfl, hown, fun b hb => hown ▸ hordered.1 b hb⟩
    · refine Or.inl fun b hb => ?_
      rcases List.mem_cons.1 hb with rfl | hb
      · omega
      · have := hordered.1 b hb
        omega

/-- The line on which a block opens, when the blocks before it are `bs`. -/
theorem Rule.blockLine_eq {r : Rule} (h : r.WellFormed) {bs as : List Action} {a : Action}
    (hsplit : r.actions = bs ++ a :: as) (n : Nat) :
    r.blockLine n a = n + 2 + a.owner + (actionTexts bs).count newline := by
  have hordered := h.ordered
  rw [hsplit, List.pairwise_append, List.pairwise_cons] at hordered
  obtain ⟨-, ⟨hafter, -⟩, hbefore⟩ := hordered
  have hbs : bs.filter (·.owner < a.owner) = bs := by
    rw [List.filter_eq_self]
    intro b hb
    simpa using hbefore b hb a List.mem_cons_self
  have has : (a :: as).filter (·.owner < a.owner) = [] := by
    rw [List.filter_eq_nil_iff]
    intro b hb
    rcases List.mem_cons.1 hb with rfl | hb
    · simp
    · have := hafter b hb
      simp only [decide_eq_true_eq]
      omega
  rw [blockLine, hsplit, List.filter_append, hbs, has, List.append_nil]

/-- The rule as it is read back, as far as the productions `qs` and the blocks `bs`. -/
def Rule.rereadUpTo (r : Rule) (n : Nat) (qs : List Text) (bs : List Action) : Rule :=
  { r.reread n with productions := qs, actions := bs.map (r.rereadAction n) }

theorem Rule.rereadUpTo_addProduction (r : Rule) (n : Nat) (qs : List Text) (bs : List Action)
    (p : Text) : (r.rereadUpTo n qs bs).addProduction p = r.rereadUpTo n (qs ++ [p]) bs := rfl

theorem Rule.rereadUpTo_addAction (r : Rule) (n : Nat) (qs : List Text) (bs : List Action)
    (a : Action) : (r.rereadUpTo n qs bs).addAction (r.rereadAction n a)
      = r.rereadUpTo n qs (bs ++ [a]) := by
  simp [rereadUpTo, addAction]

namespace Scan

variable {closed : List Entry} {n : Nat} {r : Rule}

/-- The productions of a rule are read with their blocks: when the productions `qs` and the blocks
`bs` have been read, the others are read from what is written behind them. -/
theorem reads_renderFrom (h : r.WellFormed) {z : Text} {s' : Scan}
    (hz : Reads ⟨closed, .body ⟨r.reread n, []⟩,
      n + 1 + r.productions.length + (Rule.actionTexts r.actions).count newline⟩ (Text.lines z) s')
    (qs : List Text) {ps : List Text} (bs : List Action) {as : List Action}
    (hps : r.productions = qs ++ ps) (has : r.actions = bs ++ as)
    (howner : ∀ a ∈ as, (qs.length : Int) ≤ a.owner) :
    ∃ body, r.renderFrom qs.length ps as ++ newline :: z = newline :: body ∧
      Reads ⟨closed, .body ⟨r.rereadUpTo n qs bs, []⟩,
        n + 1 + qs.length + (Rule.actionTexts bs).count newline⟩ (Text.lines body) s' := by
  -- Every production is written behind a newline that ends the line before it, so the text that is
  -- left is read without its first newline.
  induction ps generalizing qs bs as with
  | nil =>
    rw [List.append_nil] at hps
    obtain rfl : as = [] := by
      rw [List.eq_nil_iff_forall_not_mem]
      intro a ha
      have hlt := (h.owned a (by rw [has]; exact List.mem_append_right _ ha)).2
      have hle := howner a ha
      rw [hps] at hlt
      omega
    rw [List.append_nil] at has
    refine ⟨z, rfl, ?_⟩
    rw [← hps, ← has]
    exact hz
  | cons p ps ih =>
    obtain ⟨w, core, hline, hprod, hend, hread⟩ := Rule.exists_productionLine h hps
    have hordered : as.Pairwise (·.owner < ·.owner) := by
      have := h.ordered
      rw [has, List.pairwise_append] at this
      exact this.2.1
    have hnext : ∀ b : Action, (qs.length : Int) < b.owner →
        ((qs ++ [p]).length : Int) ≤ b.owner := by
      intro b hb
      rw [List.length_append, List.length_singleton]
      omega
    rcases owner_cases hordered howner with hnone | ⟨a, as, rfl, hown, hlater⟩
    · -- No block: the line holds the production alone.
      obtain ⟨body, hbody, hreads⟩ :=
        ih (qs ++ [p]) bs (by simp [hps]) has fun b hb => hnext b (hnone b hb)
      obtain ⟨htake, hdrop⟩ := takeWhile_owner_of_lt hnone
      rw [List.length_append, List.length_singleton] at hbody hreads
      refine ⟨w ++ core ++ newline :: body, ?_, ?_⟩
      · rw [Rule.renderFrom, htake, hdrop, hline, ← hbody]
        simp [Rule.actionTexts]
      · have hrule := hread (r.rereadUpTo n qs bs) [] rfl (by simp)
        rw [List.append_nil, Rule.rereadUpTo_addProduction] at hrule
        refine reads_line hprod.oneLine (line_production hprod hend hrule) ?_
        rw [show n + 1 + qs.length + (Rule.actionTexts bs).count newline + 1
          = n + 1 + (qs.length + 1) + (Rule.actionTexts bs).count newline by omega]
        exact hreads
    · -- The block of the production opens on its line.
      obtain ⟨body, hbody, hreads⟩ := ih (qs ++ [p]) (bs ++ [a]) (by simp [hps]) (by simp [has])
        fun b hb => hnext b (hlater b hb)
      obtain ⟨htake, hdrop⟩ := takeWhile_owner_of_lt hlater
      rw [List.length_append, List.length_singleton] at hbody hreads
      refine ⟨w ++ core ++ a.text ++ newline :: body, ?_, ?_⟩
      · rw [Rule.renderFrom, List.takeWhile_cons_of_pos (by simp [hown]),
          List.dropWhile_cons_of_pos (by simp [hown]), htake, hdrop, hline, ← hbody]
        simp [Rule.actionTexts]
      · have hrule := hread (r.rereadUpTo n qs bs) [space] rfl (by simp [isBlank])
        rw [Rule.rereadUpTo_addProduction] at hrule
        refine reads_opening hprod (h.blocks a (by simp [has])) hrule ?_
        have haction : (⟨a.text, ((r.rereadUpTo n (qs ++ [p]) bs).productions.length : Int) - 1,
            ((n + 1 + qs.length + (Rule.actionTexts bs).count newline + 1 : Nat) : Int)⟩ : Action)
            = r.rereadAction n a := by
          rw [Rule.rereadAction, Rule.blockLine_eq h has, hown]
          simp [Rule.rereadUpTo]
          omega
        have hcount : n + 1 + qs.length + (Rule.actionTexts bs).count newline + 1
            + a.text.count newline
            = n + 1 + (qs.length + 1) + (Rule.actionTexts (bs ++ [a])).count newline := by
          simp [Rule.actionTexts]
          omega
        rw [haction, Rule.rereadUpTo_addAction, hcount]
        exact hreads

end Scan

/-! ## Entries and documents -/

namespace Rule

variable {r : Rule} (h : r.WellFormed)
include h

theorem newline_notMem_header : newline ∉ r.header := by
  obtain ⟨w, hw, hheader⟩ := r.exists_header
  rw [hheader, List.mem_append, List.mem_append]
  rintro (hmem | hmem | hmem)
  · exact absurd (h.name newline hmem) (by decide)
  · exact absurd (hw newline hmem) (by decide)
  · exact absurd hmem (by decide)

/-- Every production takes one line, and the blocks take the lines of their texts. -/
theorem count_renderFrom (qs : List Text) {ps : List Text} (hps : r.productions = qs ++ ps)
    (as : List Action) :
    (r.renderFrom qs.length ps as).count newline = ps.length + (actionTexts as).count newline := by
  induction ps generalizing qs as with
  | nil => simp [renderFrom]
  | cons p ps ih =>
    obtain ⟨w, core, hline, hprod, -⟩ := exists_productionLine h hps
    have hrest := ih (qs ++ [p]) (by simp [hps]) (as.dropWhile (·.owner ≤ (qs.length : Int)))
    have hsplit : (actionTexts as).count newline
        = (actionTexts (as.takeWhile (·.owner ≤ (qs.length : Int)))).count newline
          + (actionTexts (as.dropWhile (·.owner ≤ (qs.length : Int)))).count newline := by
      rw [← List.count_append, actionTexts_takeWhile_append]
    rw [List.length_append, List.length_singleton] at hrest
    rw [renderFrom, List.count_append, List.count_append, List.count_cons_self, hrest, hline,
      List.count_eq_zero.2 hprod.oneLine, hsplit, List.length_cons]
    omega

/-- A rule with a block for each production at most has no block before the first. -/
theorem render_eq : r.render = r.header ++ (r.renderFrom 0 r.productions r.actions
    ++ newline :: (r.terminatorIndent ++ [semicolon] ++ newline :: [])) := by
  have howner : ∀ a ∈ r.actions, (-1 : Int) < a.owner := fun a ha => by
    have := (h.owned a ha).1
    omega
  obtain ⟨htake, hdrop⟩ := takeWhile_owner_of_lt howner
  rw [render, htake, hdrop, terminator]
  simp [actionTexts]

theorem count_render : r.render.count newline
    = 2 + r.productions.length + (actionTexts r.actions).count newline := by
  have hindent : newline ∉ r.terminatorIndent := newline_notMem_of_blanks h.terminatorIndent
  have hsemi : ([semicolon] : Text).count newline = 0 := by decide
  have hbody : (r.renderFrom 0 r.productions r.actions).count newline
      = r.productions.length + (actionTexts r.actions).count newline :=
    count_renderFrom h [] rfl r.actions
  rw [render_eq h, List.count_append, List.count_append, hbody,
    List.count_eq_zero.2 (newline_notMem_header h), List.count_cons_self, List.count_append,
    List.count_append, List.count_eq_zero.2 hindent, hsemi, List.count_cons_self, List.count_nil]
  omega

end Rule

namespace Scan

variable {closed : List Entry} {n : Nat}

/-- A rule is read back from its text. -/
theorem reads_rule {r : Rule} (h : r.WellFormed) :
    Reads ⟨closed, .outside, n⟩ (Text.lines r.render)
      ⟨closed ++ [.rule (r.reread n)], .outside, n + r.render.count newline⟩ := by
  have hsemi : newline ∉ r.terminatorIndent ++ [semicolon] :=
    newline_notMem_blanks_concat h.terminatorIndent (by decide)
  have hend : Reads ⟨closed, .body ⟨r.reread n, []⟩,
      n + 1 + r.productions.length + (Rule.actionTexts r.actions).count newline⟩
      (Text.lines (r.terminatorIndent ++ [semicolon] ++ newline :: []))
      ⟨closed ++ [.rule (r.reread n)], .outside, n + r.render.count newline⟩ := by
    refine reads_line hsemi (line_terminator h.terminatorIndent) ?_
    rw [Rule.count_render h, show n + 1 + r.productions.length
      + (Rule.actionTexts r.actions).count newline + 1
      = n + (2 + r.productions.length + (Rule.actionTexts r.actions).count newline) by omega]
    exact .nil _
  obtain ⟨body, hbody, hreads⟩ := reads_renderFrom h hend [] [] rfl rfl
    fun a ha => (h.owned a ha).1
  rw [List.length_nil] at hbody
  nth_rewrite 1 [Rule.render_eq h]
  rw [hbody]
  exact reads_line (Rule.newline_notMem_header h) (line_header h.named h.name) hreads

/-- An entry is read back from its text. -/
theorem reads_entry {e : Entry} (h : e.WellFormed) :
    Reads ⟨closed, .outside, n⟩ (Text.lines e.render)
      ⟨closed ++ [e.reread n], .outside, n + e.render.count newline⟩ := by
  cases e with
  | rule r => exact reads_rule h
  | verbatim v =>
    obtain ⟨l, hl, htext⟩ := h.oneLine
    have hline : (⟨closed, .outside, n⟩ : Scan).line v.text = _ := line_verbatim h.aside
    have hcount : v.text.count newline = 1 := by
      rw [htext, List.count_append, List.count_eq_zero.2 hl]
      rfl
    rw [htext] at hline
    rw [Entry.render, Entry.reread, hcount, htext]
    exact reads_line hl hline (.nil _)

theorem ended_render {e : Entry} (h : e.WellFormed) : Text.Ended e.render := by
  cases e with
  | verbatim v =>
    obtain ⟨l, -, htext⟩ := h.oneLine
    exact ⟨l, htext⟩
  | rule r => exact r.ended_render

/-- Entries are read back one after the other. -/
theorem reads_entries {es : List Entry} (h : ∀ e ∈ es, e.WellFormed) :
    Reads ⟨closed, .outside, n⟩ (Text.lines (es.flatMap Entry.render))
      ⟨closed ++ rereadFrom n es, .outside, n + (es.flatMap Entry.render).count newline⟩ := by
  induction es generalizing closed n with
  | nil =>
    rw [rereadFrom, List.append_nil]
    exact .nil _
  | cons e es ih =>
    have he := h e List.mem_cons_self
    have hrest : Reads ⟨closed ++ [e.reread n], .outside, n + e.render.count newline⟩ _ _ :=
      ih fun e' he' => h e' (List.mem_cons_of_mem e he')
    rw [List.flatMap_cons, lines_append (ended_render he), List.count_append, rereadFrom]
    rw [List.append_assoc, List.singleton_append, Nat.add_assoc] at hrest
    exact (reads_entry he).append hrest

end Scan

/-- A well-formed document is read back from its text: the entries are the same, on the lines on
which they were written. -/
theorem Document.parse_render {d : Document} (h : d.WellFormed) :
    Document.parse d.render = .ok d.reread := by
  have hreads : Scan.Reads ⟨[], .outside, 0⟩ _ _ := Scan.reads_entries h
  have hrun := hreads.foldlM_eq
  rw [Document.parse, Document.render, Scan.start, hrun]
  simp [bind, Except.bind, Scan.finish, Scan.entries, Scan.openRule?, Document.reread]

/-- A rule with quoted braces and pipes, a block behind its first production, and its own way of
being written. -/
def quotedRule : Rule :=
  { name := bytes "items"
    line := 0
    productions := [bytes "'\x7b' item \"|\"", bytes "  | end"]
    actions := [⟨bytes " \x7b\n  if (x) \x7b\n  \x7d\n\x7d", 0, 0⟩]
    namePadding := 1
    productionIndent := [tab]
    terminatorIndent := [] }

/-- A comment, an inserted blank line, and a rule. -/
def quotedDocument : Document :=
  ⟨[.verbatim ⟨bytes "# list\n", false⟩, .verbatim .blank, .rule quotedRule]⟩

theorem quotedRule_wellFormed : quotedRule.WellFormed := by
  have hfirst : IsSymbols (bytes "'\x7b' item \"|\"") := by
    refine ⟨[bytes "'\x7b'", bytes "item", bytes "\"|\""], by simp, ?_, rfl⟩
    simp only [List.forall_mem_cons]
    refine ⟨?_, ?_, ?_, by simp⟩
    · exact .literal (q := singleQuote) (s := [openBrace]) (by decide +kernel)
        (by unfold IsLiteralText; decide +kernel)
    · exact .word (by decide +kernel) (by decide +kernel)
    · exact .literal (q := doubleQuote) (s := [pipe]) (by decide +kernel)
        (by unfold IsLiteralText; decide +kernel)
  have hlater : IsAlternative (bytes "  | end") :=
    ⟨[space, space], bytes "end", by decide +kernel,
      ⟨[bytes "end"], by simp, by simpa using .word (by decide +kernel) (by decide +kernel), rfl⟩, rfl⟩
  have hblock : IsBlockText (bytes " \x7b\n  if (x) \x7b\n  \x7d\n\x7d") :=
    ⟨[bytes "  if (x) \x7b", bytes "  \x7d"], [], by decide +kernel, ⟨by decide +kernel, by decide +kernel, rfl⟩,
      by simp, rfl⟩
  exact
    { named := by decide +kernel
      name := by decide +kernel
      productionIndent := by decide +kernel
      terminatorIndent := by decide +kernel
      first := by simpa [quotedRule] using ⟨hfirst, by decide +kernel⟩
      later := by simpa [quotedRule] using hlater
      ordered := by simp [quotedRule]
      owned := by simp [quotedRule]
      blocks := by simpa [quotedRule] using hblock }

theorem quotedDocument_wellFormed : quotedDocument.WellFormed := by
  simp only [Document.WellFormed, quotedDocument, List.forall_mem_cons]
  exact ⟨⟨⟨bytes "# list", by decide +kernel, rfl⟩, Or.inr (by decide +kernel)⟩,
    ⟨⟨[], by decide +kernel, rfl⟩, Or.inl (by decide +kernel)⟩, quotedRule_wellFormed, by simp⟩

theorem Document.parse_render_quoted :
    Document.parse quotedDocument.render
      = .ok ⟨[.verbatim ⟨bytes "# list\n", false⟩, .verbatim ⟨bytes "\n", false⟩,
          .rule
            { name := bytes "items"
              line := 3
              productions := [bytes "'\x7b' item \"|\"", bytes "  | end"]
              actions := [⟨bytes " \x7b\n  if (x) \x7b\n  \x7d\n\x7d", 0, 4⟩] }]⟩ :=
  Document.parse_render quotedDocument_wellFormed

end GrammarLayout
