import GrammarLayout.Proofs.Grammar.Blocks
import GrammarLayout.Proofs.Grammar.Cut
import GrammarLayout.Proofs.Pass.Alignment
import GrammarLayout.Proofs.Pass.Moved
import GrammarLayout.Proofs.Pass.Relaid

/-!
# Aligning a document twice

The alignment pass measures what it does not change: the names of rules, the
indentation of productions, and the layout in front of blocks.  So it measures
the same when it is run again, and finds everything in place.  The layout it
measures has to be blanks and newlines, since the lines of a block are told from
their indentation by blanks.

What is proved here:

* `Document.alignColons_alignColons` — colons;
* `PipesAligned.map_alignInline` — lined up pipes stay so when blocks in
  productions are joined to them;
* `alignInline_alignInline` — blocks in productions;
* `alignBelow_alignBelow`, `Rule.Measured.alignBlock_alignBlock` — blocks on several
  lines;
* `Rule.Measured.alignActions_alignActions` — the blocks of a rule.
-/

namespace GrammarLayout

open Ascii Text

/-! ## Colons -/

section Colons

variable (width : Text → Nat)

theorem widestAfter_alignColonsFrom (widest : Nat) (es : List Entry) :
    widestAfter width (alignColonsFrom width widest es) = widestAfter width es := by
  induction es generalizing widest with
  | nil => rfl
  | cons e es ih =>
    cases e with
    | rule r => rw [alignColonsFrom, widestAfter, widestAfter, ih]
    | verbatim v => rw [alignColonsFrom, widestAfter, widestAfter, ih]

theorem alignColonsFrom_alignColonsFrom (widest : Nat) (es : List Entry) :
    alignColonsFrom width widest (alignColonsFrom width widest es)
      = alignColonsFrom width widest es := by
  induction es generalizing widest with
  | nil => rfl
  | cons e es ih =>
    cases e with
    | rule r => simp only [alignColonsFrom, widestAfter_alignColonsFrom, ih]
    | verbatim v => simp only [alignColonsFrom, ih]

theorem Document.alignColons_alignColons (d : Document) :
    (d.alignColons width).alignColons width = d.alignColons width :=
  congrArg Document.mk (alignColonsFrom_alignColonsFrom width 0 d.entries)

variable {f : Rule → Rule} (hname : ∀ r, (f r).name = r.name)
  (hpad : ∀ (r : Rule) (n : Nat), f { r with namePadding := n } = { f r with namePadding := n })
include hname

theorem widestAfter_map (es : List Entry) :
    widestAfter width (es.map (Entry.mapRule f)) = widestAfter width es := by
  induction es with
  | nil => rfl
  | cons e es ih =>
    cases e with
    | rule r => rw [List.map_cons, Entry.mapRule, widestAfter, widestAfter, ih, hname]
    | verbatim v => rw [List.map_cons, Entry.mapRule, widestAfter, widestAfter, ih]

include hpad

/-- A change of rules that leaves their names may come before or after the colons are lined up. -/
theorem alignColonsFrom_map (widest : Nat) (es : List Entry) :
    alignColonsFrom width widest (es.map (Entry.mapRule f))
      = (alignColonsFrom width widest es).map (Entry.mapRule f) := by
  induction es generalizing widest with
  | nil => rfl
  | cons e es ih =>
    cases e with
    | rule r =>
      have hwidth : width (f r).name = width r.name := by rw [hname]
      rw [List.map_cons, Entry.mapRule, alignColonsFrom, hwidth, widestAfter_map width hname, ih]
      exact congrArg (fun r' => Entry.rule r' :: _) (hpad r _).symm
    | verbatim v =>
      rw [List.map_cons, Entry.mapRule, alignColonsFrom, ih]
      rfl

theorem Document.alignColons_mapRules (d : Document) :
    (d.mapRules f).alignColons width = (d.alignColons width).mapRules f :=
  congrArg Document.mk (alignColonsFrom_map width hname hpad 0 d.entries)

end Colons

/-! ## Blocks in productions -/

theorem alignInline_of_splitInline? {p before inner : Text}
    (h : splitInline? p = some (before, inner)) :
    alignInline p = leadingBlanks p ++ joinInline (trim before) (trim inner) := by
  rw [alignInline, h]

theorem alignInline_of_none {p : Text} (h : splitInline? p = none) : alignInline p = p := by
  rw [alignInline, h]

/-- A text and a block, joined behind blanks, are found again. -/
theorem splitInline?_blanks_joinInline {w text inner : Text} (hw : ∀ c ∈ w, isBlank c = true)
    (htext : Clear text) (htrim : trim text = text) (hinner : Closed inner) :
    ∃ before, splitInline? (w ++ joinInline text inner) = some (before, padded inner) ∧
      trim before = text := by
  have hclosed : Closed (padded inner) := hinner.congr (filter_isBrace_padded inner)
  have hclear := Clear.of_isSpaces (isSpaces_of_blanks hw)
  have hspace : ∀ c ∈ [space], isAsciiSpace c = true := List.forall_mem_singleton.2 rfl
  rw [joinInline_eq, ← List.append_assoc]
  split_ifs with hempty
  · rw [splitInline?_block ((Clear.append_iff hclear).2 .nil) hclosed]
    refine ⟨_, rfl, ?_⟩
    rw [trim_trimBlanksEnd, trim_blanks_append hw, List.isEmpty_iff.1 hempty]
    rfl
  · have hboth : Clear (text ++ [space]) :=
      (Clear.append_iff htext).2 (.of_neutral (List.forall_mem_singleton.2 rfl))
    rw [splitInline?_block ((Clear.append_iff hclear).2 hboth) hclosed]
    refine ⟨_, rfl, ?_⟩
    rw [trim_trimBlanksEnd, trim_blanks_append hw, trim_append_spaces hspace, htrim]

theorem leadingBlanks_alignInline (p : Text) : leadingBlanks (alignInline p) = leadingBlanks p := by
  cases hsplit : splitInline? p with
  | none => rw [alignInline_of_none hsplit]
  | some parts =>
    rw [alignInline_of_splitInline? hsplit]
    have htrim := trim_joinInline (startsVisible_trim parts.1) (trim parts.2)
    exact leadingBlanks_append (fun c hc => List.mem_takeWhile_imp hc)
      (trim_eq_self_iff.1 htrim).1.head?

/-- Joining a block to its production twice is joining it once. -/
theorem alignInline_alignInline (p : Text) : alignInline (alignInline p) = alignInline p := by
  cases hsplit : splitInline? p with
  | none => rw [alignInline_of_none hsplit, alignInline_of_none hsplit]
  | some parts =>
    obtain ⟨before, inner⟩ := parts
    obtain ⟨b, rest, hblock, -, rfl, rfl⟩ := splitInline?_eq hsplit
    obtain ⟨-, hclear, hclosed⟩ := firstBlock?_eq_some_iff.1 hblock
    have hblanks : ∀ c ∈ leadingBlanks p, isBlank c = true := fun c hc => List.mem_takeWhile_imp hc
    obtain ⟨before, hagain, hbefore⟩ := splitInline?_blanks_joinInline hblanks
      hclear.trimBlanksEnd.trim (trim_trim _) (hclosed.congr (filter_isBrace_trim b.inner))
    rw [← alignInline_of_splitInline? hsplit] at hagain
    rw [alignInline_of_splitInline? hagain, leadingBlanks_alignInline, hbefore, trim_padded,
      trim_trim, alignInline_of_splitInline? hsplit]

theorem hasPipe_alignInline (p : Text) : hasPipe (alignInline p) = hasPipe p := by
  rw [Bool.eq_iff_iff, Rule.hasPipe_iff, Rule.hasPipe_iff, ink_alignInline]

/-! ## Pipes -/

/-- The later productions stand behind `indent`, unless the first one has a pipe too. -/
def PipesAligned (indent : Text) : List Text → Prop
  | [] => True
  | first :: later =>
      hasPipe first = false → ∀ p ∈ later, hasPipe p = true → p = indent ++ trim p

theorem Rule.alignPipes_eq_self {r : Rule} (h : PipesAligned r.productionIndent r.productions) :
    r.alignPipes = r := by
  unfold alignPipes
  split
  · rfl
  · rename_i first later hps
    split
    · rfl
    · rename_i hfirst
      rw [hps] at h
      have hkept : (later.map fun p => if hasPipe p then r.productionIndent ++ trim p else p)
          = later := by
        refine (List.map_congr_left fun p hp => ?_).trans (List.map_id' later)
        split_ifs with hpipe
        · exact (h (by simpa using hfirst) p hp hpipe).symm
        · rfl
      rw [hkept, ← hps]

theorem Rule.pipesAligned_alignPipes {r : Rule}
    (hindent : ∀ c ∈ r.productionIndent, isBlank c = true) :
    PipesAligned r.productionIndent r.alignPipes.productions := by
  unfold alignPipes
  split
  · rename_i hps
    rw [hps]
    trivial
  · rename_i first later hps
    split
    · rename_i hfirst
      rw [hps]
      intro hnone
      rw [hfirst] at hnone
      exact absurd hnone (by decide)
    · intro _ q hq hpipe
      obtain ⟨p, -, rfl⟩ := List.mem_map.1 hq
      split_ifs at hpipe ⊢ with hp
      · rw [trim_blanks_append hindent, trim_trim]
      · exact absurd hpipe hp

/-- Pipes that are lined up stay where they are when the blocks in productions are joined to them. -/
theorem PipesAligned.map_alignInline {indent : Text} (hindent : ∀ c ∈ indent, isBlank c = true)
    {ps : List Text} (h : PipesAligned indent ps) : PipesAligned indent (ps.map alignInline) := by
  cases ps with
  | nil => trivial
  | cons first later =>
    intro hfirst q hq hpipe
    obtain ⟨p, hp, rfl⟩ := List.mem_map.1 hq
    rw [hasPipe_alignInline] at hfirst hpipe
    have hplace := h hfirst p hp hpipe
    cases hsplit : splitInline? p with
    | none => rwa [alignInline_of_none hsplit]
    | some parts =>
      have hlead : leadingBlanks p = indent := by
        rw [hplace]
        exact leadingBlanks_append hindent (startsVisible_trim p).head?
      rw [alignInline_of_splitInline? hsplit, hlead, trim_blanks_append hindent,
        trim_joinInline (startsVisible_trim parts.1)]

/-! ## Lines of blocks -/

/-- A line below an opening brace is not a line with a closing brace unless it was one. -/
theorem startsWith_closeBrace_moveLine {base : Text} (hbase : ∀ c ∈ base, isBlank c = true)
    (cut : Nat) (l : Text) : startsWith [closeBrace] (trim (moveLine id base cut l))
      = startsWith [closeBrace] (trim l) := by
  rw [Bool.eq_iff_iff, startsWith_trim_iff, startsWith_trim_iff, ink_moveLine hbase]

/-- A last line that is trimmed stays so, wherever it is moved to. -/
theorem exists_alignBelow_concat (base step : Text) {content : List Text} {last : Text} (hne : last ≠ [])
    (htrim : trimEndWhile isLayout last = last) :
    ∃ lines last', alignBelow base step (content ++ [last]) = lines ++ [last'] ∧ last' ≠ [] ∧
      trimEndWhile isLayout last' = last' := by
  rw [alignBelow_concat]
  cases hclosing : startsWith [closeBrace] (trim last) with
  | true =>
    obtain ⟨t, ht⟩ := List.head?_eq_some_iff.1 (startsWith_singleton_iff.1 hclosing)
    have hend := (endsVisible_trim last).trimLayout
    refine ⟨_, base ++ trim last, if_pos rfl, by simp [ht], ?_⟩
    rw [trimEndWhile_append_of_ne_nil (by rw [hend, ht]; simp), hend]
  | false =>
    refine ⟨_, moveLine id (base ++ step) (leastIndent (content ++ [last])) last,
      (if_neg Bool.false_ne_true).trans (by rw [alignContent_eq, moveLines, List.map_append]; rfl), ?_⟩
    cases hink : isSpaces last with
    | true =>
      rw [moveLine_of_isSpaces hink]
      exact ⟨hne, htrim⟩
    | false =>
      obtain ⟨hcode, -⟩ := lineCore_of_ink hink
      have hline : trimEndWhile isLayout (lineCore last) = lineCore last := trimLayout_lineCore htrim
      rw [moveLine_of_ink hink, rebaseLine_of_ink hink]
      refine ⟨by simp [hcode], ?_⟩
      rw [trimEndWhile_append_of_ne_nil (by rwa [hline]), hline]

section Below

variable {base step : Text} (hbase : ∀ c ∈ base, isBlank c = true)
  (hstep : ∀ c ∈ step, isBlank c = true)
include hbase hstep

theorem isBlank_of_mem_append : ∀ c ∈ base ++ step, isBlank c = true := by
  intro c hc
  rcases List.mem_append.1 hc with hc | hc
  exacts [hbase c hc, hstep c hc]

/-- Lining up the lines of a block twice is lining them up once. -/
theorem alignBelow_alignBelow (below : List Text) :
    alignBelow base step (alignBelow base step below) = alignBelow base step below := by
  rcases List.eq_nil_or_concat below with rfl | ⟨content, last, rfl⟩
  · rfl
  rw [List.concat_eq_append, alignBelow_concat]
  cases hclosing : startsWith [closeBrace] (trim last) with
  | true =>
    have hlast : trim (base ++ trim last) = trim last := by
      rw [trim_blanks_append hbase, trim_trim]
    rw [if_pos rfl, alignBelow_concat, hlast, hclosing, if_pos rfl,
      alignContent_alignContent hbase hstep]
  | false =>
    set cut := leastIndent (content ++ [last])
    have hsame : startsWith [closeBrace] (trim (moveLine id (base ++ step) cut last)) = false := by
      rw [startsWith_closeBrace_moveLine (isBlank_of_mem_append hbase hstep), hclosing]
    have hmoved : alignContent base step (content ++ [last])
        = content.map (moveLine id (base ++ step) cut) ++ [moveLine id (base ++ step) cut last] := by
      rw [alignContent_eq, moveLines, List.map_append]
      rfl
    rw [if_neg Bool.false_ne_true, hmoved, alignBelow_concat, hsame, if_neg Bool.false_ne_true,
      ← hmoved, alignContent_alignContent hbase hstep]

end Below

/-! ## Bodies -/

/-- The body of an action with its lines brought in line with its first one. -/
def alignedBody (base step body : Text) : Text :=
  match splitLines body with
  | [] => []
  | first :: below => joinLines (first :: alignBelow base step below)

theorem alignedBody_eq {first body : Text} {below : List Text} (base step : Text)
    (h : splitLines body = first :: below) :
    alignedBody base step body = joinLines (first :: alignBelow base step below) := by
  rw [alignedBody, h]

section Body

variable {base step : Text} (hbase : ∀ c ∈ base, isBlank c = true)
  (hstep : ∀ c ∈ step, isBlank c = true)
include hbase hstep

theorem splitLines_alignedBody {first body : Text} {below : List Text}
    (h : splitLines body = first :: below) :
    splitLines (alignedBody base step body) = first :: alignBelow base step below := by
  have hnone : ∀ k ∈ first :: below, newline ∉ k := by
    rw [← h]
    exact fun k hk => newline_notMem_of_mem_splitLines hk
  rw [alignedBody_eq base step h]
  refine splitLines_joinLines (by simp) fun k hk hnewline => ?_
  rcases List.mem_cons.1 hk with rfl | hk
  · exact hnone k List.mem_cons_self hnewline
  · rcases mem_alignBelow hk hnewline with hindent | ⟨m, hm, hc⟩
    · exact absurd (isBlank_of_mem_append hbase hstep newline hindent) (by decide)
    · exact hnone m (List.mem_cons_of_mem first hm) hc

/-- Lining up a body twice is lining it up once. -/
theorem alignedBody_alignedBody (body : Text) :
    alignedBody base step (alignedBody base step body) = alignedBody base step body := by
  obtain ⟨first, below, h⟩ := List.exists_cons_of_ne_nil (splitLines_ne_nil body)
  rw [alignedBody_eq base step (splitLines_alignedBody hbase hstep h),
    alignBelow_alignBelow hbase hstep, alignedBody_eq base step h]

/-- A body that is lined up gets no byte but blanks. -/
theorem mem_alignedBody {body : Text} {c : UInt8} (h : c ∈ alignedBody base step body) :
    isBlank c = true ∨ c = newline ∨ c ∈ body := by
  obtain ⟨first, below, hlines⟩ := List.exists_cons_of_ne_nil (splitLines_ne_nil body)
  have hbody : ∀ k ∈ first :: below, ∀ c ∈ k, c ∈ body := by
    rw [← hlines]
    exact fun k hk c hc => mem_of_mem_splitOn hk c hc
  rw [alignedBody_eq base step hlines] at h
  rcases mem_joinLines h with hnewline | ⟨k, hk, hc⟩
  · exact Or.inr (Or.inl hnewline)
  · rcases List.mem_cons.1 hk with rfl | hk
    · exact Or.inr (Or.inr (hbody k List.mem_cons_self c hc))
    · rcases mem_alignBelow hk hc with hindent | ⟨m, hm, hc⟩
      · exact Or.inl (isBlank_of_mem_append hbase hstep c hindent)
      · exact Or.inr (Or.inr (hbody m (List.mem_cons_of_mem first hm) c hc))

/-- A body that is lined up still follows the same lead. -/
theorem Action.Cut.alignedBody {lead body : Text} (h : Cut lead body) :
    Cut lead (alignedBody base step body) := by
  refine h.congr ?_ fun hmem => ?_
  · cases body with
    | nil => rfl
    | cons c t =>
      have hc : c ≠ newline := by
        rintro rfl
        exact absurd (h.start newline rfl) (by decide)
      obtain ⟨l, ls, hls⟩ := List.exists_cons_of_ne_nil (splitLines_ne_nil t)
      rw [alignedBody_eq base step (splitLines_cons hc hls), head?_joinLines (by simp)]
      rfl
  · rcases mem_alignedBody hbase hstep hmem with h | h | h
    · exact absurd h (by decide)
    · exact absurd h (by decide)
    · exact h

end Body

/-- A trimmed body on several lines stays one when it is lined up. -/
theorem trimLayout_alignedBody (base step : Text) {body : Text} (hlines : newline ∈ body)
    (htrim : trimEndWhile isLayout body = body) :
    newline ∈ alignedBody base step body ∧
      trimEndWhile isLayout (alignedBody base step body) = alignedBody base step body := by
  have hlayout : isLayout newline = true := by decide
  obtain ⟨first, below, hsplit⟩ := List.exists_cons_of_ne_nil (splitLines_ne_nil body)
  have hjoin : joinLines (first :: below) = body := by rw [← hsplit, joinLines_splitLines]
  rcases List.eq_nil_or_concat below with rfl | ⟨content, last, rfl⟩
  · -- A single line holds no newline.
    have hfirst : newline ∉ first := newline_notMem_of_mem_splitLines (by rw [hsplit]; simp)
    rw [← hjoin] at hlines
    exact absurd hlines hfirst
  · rw [List.concat_eq_append] at hsplit hjoin
    have hlast : trimEndWhile isLayout last = last ∧ last ≠ [] := by
      rw [← hjoin, ← List.cons_append, joinLines_concat (by simp)] at htrim
      exact (trimEndWhile_append_cons_eq_self_iff hlayout).1 htrim
    obtain ⟨lines, last', hbelow, hne, hend⟩ := exists_alignBelow_concat base step hlast.2 hlast.1
    rw [alignedBody_eq base step hsplit, hbelow, ← List.cons_append, joinLines_concat (by simp)]
    exact ⟨by simp, (trimEndWhile_append_cons_eq_self_iff hlayout).2 ⟨hend, hne⟩⟩

/-! ## Actions -/

/-- The layout that the pass measures: productions are indented by blanks, and in front of blocks
stand blanks and newlines. -/
structure Rule.Measured (r : Rule) : Prop where
  /-- Productions are indented by blanks. -/
  productionIndent : ∀ c ∈ r.productionIndent, isBlank c = true
  /-- In front of blocks stand blanks and newlines. -/
  leads : ∀ a ∈ r.actions, ∀ c ∈ a.lead, c = space ∨ c = tab ∨ c = newline

/-- The line of an opening brace is indented by blanks. -/
theorem Rule.Measured.isBlank_of_mem_braceIndent {r : Rule} (h : r.Measured) {a : Action}
    (ha : ∀ c ∈ a.lead, c = space ∨ c = tab ∨ c = newline) :
    ∀ c ∈ r.braceIndent a, isBlank c = true := by
  rcases r.braceIndent_cases a with hlast | hindent | hnil | ⟨p, -, hp⟩
  · obtain ⟨front, hlead, hnone⟩ := exists_of_afterLastNewline? hlast
    intro c hc
    rcases ha c (by rw [hlead]; simp [hc]) with rfl | rfl | rfl
    · rfl
    · rfl
    · exact absurd hc hnone
  · rw [hindent]
    exact h.productionIndent
  · rw [hnil]
    exact List.forall_mem_nil _
  · rw [hp]
    exact fun c hc => List.mem_takeWhile_imp hc

theorem Rule.alignBlock_of_multiline {a : Action} (h : a.multiline = true) (step : Text) (r : Rule) :
    r.alignBlock step a = a.setText (a.lead ++ alignedBody (r.braceIndent a) step a.body) := by
  obtain ⟨first, below, hlines⟩ := List.exists_cons_of_ne_nil (splitLines_ne_nil a.body)
  rw [alignBlock, if_pos h, alignedBody, hlines]

theorem Rule.alignBlock_of_not_multiline {a : Action} (h : a.multiline = false) (step : Text)
    (r : Rule) : r.alignBlock step a = a := if_neg (by simp [h])

/-- The indentation of an opening brace depends on what stands in front of it. -/
theorem Rule.braceIndent_setText (r : Rule) {a : Action} {text : Text}
    (h : (a.setText text).lead = a.lead) : r.braceIndent (a.setText text) = r.braceIndent a := by
  rw [braceIndent, h]
  rfl

/-- Lining up a block twice is lining it up once. -/
theorem Rule.Measured.alignBlock_alignBlock {r : Rule} (h : r.Measured) {step : Text}
    (hstep : ∀ c ∈ step, isBlank c = true) {a : Action} (htrim : a.Trimmed)
    (ha : ∀ c ∈ a.lead, c = space ∨ c = tab ∨ c = newline) :
    r.alignBlock step (r.alignBlock step a) = r.alignBlock step a := by
  cases hmulti : a.multiline with
  | false => rw [alignBlock_of_not_multiline hmulti, alignBlock_of_not_multiline hmulti]
  | true =>
    have hbase := h.isBlank_of_mem_braceIndent ha
    set base := r.braceIndent a with hbraces
    obtain ⟨hlines, hkept⟩ :=
      trimLayout_alignedBody base step (List.contains_iff_mem.1 hmulti) htrim.body
    have hne : alignedBody base step a.body ≠ [] := List.ne_nil_of_mem hlines
    obtain ⟨htext, hlead, hbody⟩ := (a.cut.alignedBody hbase hstep).setText hne a
    rw [hkept] at htext hbody
    have hagain : (a.setText (a.lead ++ alignedBody base step a.body)).multiline = true := by
      rw [Action.multiline, hbody]
      exact List.contains_iff_mem.2 hlines
    rw [alignBlock_of_multiline hmulti, ← hbraces, alignBlock_of_multiline hagain,
      r.braceIndent_setText hlead, ← hbraces, hlead, hbody, alignedBody_alignedBody hbase hstep]
    refine Action.setText_eq_self ?_
    rw [htext, trimEndWhile_append_of_ne_nil (by rwa [hkept]), hkept]

/-! ## Rules -/

/-- The rule with its blocks in productions joined to them. -/
def Rule.inlined (r : Rule) : Rule := { r with productions := r.productions.map alignInline }

/-- The actions of a rule play no part in where its blocks belong. -/
theorem Rule.alignActions_eq (step : Text) (r : Rule) : r.alignActions step =
    { r with
      productions := r.productions.map alignInline
      actions := r.actions.map (r.inlined.alignBlock step) } := rfl

theorem Rule.Measured.inlined {r : Rule} (h : r.Measured) : r.inlined.Measured :=
  ⟨h.productionIndent, h.leads⟩

/-- Lining up the blocks of a rule twice is lining them up once. -/
theorem Rule.Measured.alignActions_alignActions {r : Rule} (h : r.Measured) {step : Text}
    (hstep : ∀ c ∈ step, isBlank c = true) (htrim : ∀ a ∈ r.actions, a.Trimmed) :
    (r.alignActions step).alignActions step = r.alignActions step := by
  have hproductions : (r.productions.map alignInline).map alignInline
      = r.productions.map alignInline := by
    rw [List.map_map]
    exact List.map_congr_left fun p _ => alignInline_alignInline p
  have hblock : (r.alignActions step).inlined.alignBlock step = r.inlined.alignBlock step := by
    have hinlined : (r.alignActions step).inlined
        = { r.inlined with actions := (r.alignActions step).actions } := by
      rw [Rule.inlined, Rule.inlined, alignActions_eq, hproductions]
    rw [hinlined]
    rfl
  have hactions : (r.actions.map (r.inlined.alignBlock step)).map (r.inlined.alignBlock step)
      = r.actions.map (r.inlined.alignBlock step) := by
    rw [List.map_map]
    exact List.map_congr_left fun a ha =>
      h.inlined.alignBlock_alignBlock hstep (htrim a ha) (h.leads a ha)
  rw [alignActions_eq step (r.alignActions step), hblock, alignActions_eq step r, hproductions,
    hactions]

end GrammarLayout
