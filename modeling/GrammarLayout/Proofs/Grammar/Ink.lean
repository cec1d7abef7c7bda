import GrammarLayout.Grammar.Document
import GrammarLayout.Proofs.Grammar.Cut

/-!
# The ink of a written rule

`Rule.render` weaves two lists, the productions and the action blocks, into one
text.  Here that text is compared with its ink: when the blocks are in the
order of their productions, the ink of a rule is its name, its colon, each
production followed by its own blocks, and its semicolon.

What is proved here:

* `Rule.Ordered` — the blocks of a rule are in the order of their productions,
  and each belongs to a production or stands before the first;
* `Rule.ink_render` — the ink of an ordered rule, from which
  `bodyInk_addProduction`, `bodyInk_addAction` and `bodyInk_extendProduction`
  say what each step of building a rule adds;
* `Document.ink_render` — the ink of a document is the ink of its entries.
-/

namespace GrammarLayout

open Ascii Text

/-! ## Blocks -/

namespace Action

/-- Nothing visible stands before the opening brace of a block. -/
def Framed (a : Action) : Prop := (ink a.text).head? = some openBrace

theorem openBrace_notMem_of_isSpaces {w : Text} (h : isSpaces w = true) : openBrace ∉ w := by
  intro hmem
  have := mem_ink (c := openBrace) (by decide) (by decide) hmem
  rw [ink_of_isSpaces h] at this
  simp at this

namespace Framed

variable {a : Action} (h : a.Framed)
include h

theorem exists_text : ∃ rest, a.body = openBrace :: rest ∧ isSpaces a.lead = true := by
  obtain ⟨w, rest, htext, hw⟩ := exists_of_head?_ink h
  obtain ⟨hlead, hbody⟩ := (Cut.block (openBrace_notMem_of_isSpaces hw)).lead_body htext
  exact ⟨rest, hbody, by rw [hlead]; exact hw⟩

theorem isSpaces_lead : isSpaces a.lead = true := by
  obtain ⟨-, -, hlead⟩ := h.exists_text
  exact hlead

theorem ink_body : ink a.body = ink a.text := by
  rw [← lead_append_body, ink_isSpaces_append h.isSpaces_lead]

theorem seam (x s : Text) : Seam x (a.text ++ s) := by
  refine seam_of_head ?_
  obtain ⟨rest, hrest, hspaces⟩ := h.exists_text
  rw [← lead_append_body, hrest]
  have hlead := isContinuation_head_of_isSpaces hspaces
  cases hl : a.lead with
  | nil =>
    intro c hc
    obtain rfl : openBrace = c := by simpa using hc
    decide
  | cons b w =>
    rw [hl] at hlead
    simpa using hlead

end Framed

end Action

/-- The ink of blocks written one after the other. -/
def blocksInk (as : List Action) : Text := as.flatMap fun a => ink a.text

@[simp] theorem blocksInk_nil : blocksInk [] = [] := rfl

@[simp] theorem blocksInk_cons (a : Action) (as : List Action) :
    blocksInk (a :: as) = ink a.text ++ blocksInk as := rfl

@[simp] theorem blocksInk_append (as bs : List Action) :
    blocksInk (as ++ bs) = blocksInk as ++ blocksInk bs := List.flatMap_append

theorem ink_append_actionTexts {as : List Action} (h : ∀ a ∈ as, a.Framed) (x : Text) :
    ink (x ++ Rule.actionTexts as) = ink x ++ blocksInk as := by
  induction as generalizing x with
  | nil => simp [Rule.actionTexts]
  | cons a as ih =>
    have hcons : Rule.actionTexts (a :: as) = a.text ++ Rule.actionTexts as := rfl
    rw [hcons, ink_append ((h a List.mem_cons_self).seam x _),
      ih (fun b hb => h b (List.mem_cons_of_mem a hb)) a.text, blocksInk_cons]

/-! ## Rules -/

namespace Rule

/-- A production starts with a pipe when its first visible byte is one. -/
theorem hasPipe_iff {p : Text} : hasPipe p = true ↔ (ink p).head? = some pipe :=
  startsWith_trim_iff

/-- A line that starts with a pipe still does so without what stands behind its first part. -/
theorem hasPipe_of_ink {line front rest : Text} {c : UInt8}
    (hline : ink line = ink front ++ c :: rest) (hc : c ≠ pipe) (h : hasPipe line = true) : hasPipe front = true := by
  rw [hasPipe_iff, hline] at h
  rw [hasPipe_iff]
  cases hf : ink front with
  | nil =>
    rw [hf] at h
    exact absurd (by simpa using h) hc
  | cons b f =>
    rw [hf] at h
    exact h

/-- The blocks that follow production `i`. -/
def blocks (r : Rule) (i : Int) : List Action := r.actions.filter fun a => a.owner = i

/-- The blocks are in the order of their productions, later productions start with a pipe, and
nothing visible is used to indent. -/
structure Ordered (r : Rule) : Prop where
  /-- Blocks of earlier productions come first. -/
  sorted : r.actions.Pairwise fun a b => a.owner ≤ b.owner
  /-- A block follows a production or stands before the first. -/
  lower : ∀ a ∈ r.actions, -1 ≤ a.owner
  /-- The production that a block follows exists. -/
  upper : ∀ a ∈ r.actions, a.owner < r.productions.length
  /-- Nothing visible stands before a block. -/
  framed : ∀ a ∈ r.actions, a.Framed
  /-- Every production but the first starts with a pipe. -/
  piped : ∀ p ∈ r.productions.tail, hasPipe p = true
  /-- The first production is indented by white space. -/
  productionIndent : ∀ c ∈ r.productionIndent, isBlank c = true
  /-- The semicolon is indented by white space. -/
  terminatorIndent : ∀ c ∈ r.terminatorIndent, isBlank c = true

theorem Ordered.framed_blocks {r : Rule} (h : r.Ordered) (i : Int) : ∀ a ∈ r.blocks i, a.Framed :=
  fun a ha => h.framed a (List.mem_filter.1 ha).1

/-- The ink of a production and of the blocks that follow it. -/
def productionInk (r : Rule) (p : Text × Nat) : Text := ink p.1 ++ blocksInk (r.blocks p.2)

/-- The ink of a rule between its colon and its semicolon. -/
def bodyInk (r : Rule) : Text :=
  blocksInk (r.blocks (-1)) ++ r.productions.zipIdx.flatMap r.productionInk

theorem mem_bodyInk_of_production {r : Rule} {p : Text} (hp : p ∈ r.productions) {c : UInt8}
    (hc : c ∈ ink p) : c ∈ r.bodyInk := by
  obtain ⟨i, hi, rfl⟩ := List.getElem_of_mem hp
  have hmem : (r.productions[i], i) ∈ r.productions.zipIdx :=
    List.mem_zipIdx_iff_getElem?.2 (List.getElem?_eq_getElem hi)
  exact List.mem_append_right _ (List.mem_flatMap.2 ⟨_, hmem, List.mem_append_left _ hc⟩)

theorem Ordered.mem_bodyInk_of_action {r : Rule} (h : r.Ordered) {a : Action} (ha : a ∈ r.actions)
    {c : UInt8} (hc : c ∈ ink a.text) : c ∈ r.bodyInk := by
  have hblocks : ∀ {i : Int}, a.owner = i → c ∈ blocksInk (r.blocks i) := fun hi =>
    List.mem_flatMap.2 ⟨a, List.mem_filter.2 ⟨ha, by simpa using hi⟩, hc⟩
  have hlower := h.lower a ha
  have hupper := h.upper a ha
  by_cases hfirst : a.owner = -1
  · exact List.mem_append_left _ (hblocks hfirst)
  · obtain ⟨i, hi⟩ : ∃ i : Nat, a.owner = i := ⟨a.owner.toNat, by omega⟩
    have hlt : i < r.productions.length := by omega
    have hmem : (r.productions[i], i) ∈ r.productions.zipIdx :=
      List.mem_zipIdx_iff_getElem?.2 (List.getElem?_eq_getElem hlt)
    exact List.mem_append_right _
      (List.mem_flatMap.2 ⟨_, hmem, List.mem_append_right _ (hblocks hi)⟩)

/-! ### Weaving productions and blocks -/

theorem actionTexts_takeWhile_append (p : Action → Bool) (as : List Action) :
    actionTexts (as.takeWhile p) ++ actionTexts (as.dropWhile p) = actionTexts as := by
  unfold actionTexts
  rw [← List.flatMap_append, List.takeWhile_append_dropWhile]

theorem takeWhile_owner {as : List Action} (hs : as.Pairwise fun a b => a.owner ≤ b.owner)
    (i : Int) (hi : ∀ a ∈ as, i ≤ a.owner) :
    (as.takeWhile fun a => a.owner ≤ i) = as.filter fun a => a.owner = i := by
  induction as with
  | nil => rfl
  | cons a as ih =>
    have hle := hi a List.mem_cons_self
    rw [List.pairwise_cons] at hs
    by_cases h : a.owner = i
    · rw [List.takeWhile_cons_of_pos (by simp [h]), List.filter_cons_of_pos (by simp [h]),
        ih hs.2 fun b hb => hi b (List.mem_cons_of_mem a hb)]
    · rw [List.takeWhile_cons_of_neg (by simp; omega), List.filter_cons_of_neg (by simp [h])]
      symm
      rw [List.filter_eq_nil_iff]
      intro b hb
      have := hs.1 b hb
      simp
      omega

theorem dropWhile_owner {as : List Action} (hs : as.Pairwise fun a b => a.owner ≤ b.owner)
    (i : Int) (hi : ∀ a ∈ as, i ≤ a.owner) :
    (as.dropWhile fun a => a.owner ≤ i) = as.filter fun a => i < a.owner := by
  induction as with
  | nil => rfl
  | cons a as ih =>
    have hle := hi a List.mem_cons_self
    rw [List.pairwise_cons] at hs
    by_cases h : a.owner = i
    · rw [List.dropWhile_cons_of_pos (by simp [h]), List.filter_cons_of_neg (by simp [h]),
        ih hs.2 fun b hb => hi b (List.mem_cons_of_mem a hb)]
    · rw [List.dropWhile_cons_of_neg (by simp; omega), List.filter_cons_of_pos (by simp; omega)]
      congr 1
      symm
      rw [List.filter_eq_self]
      intro b hb
      have := hs.1 b hb
      simp
      omega

theorem ink_productionLine {r : Rule} (hi : ∀ c ∈ r.productionIndent, isBlank c = true)
    {i : Nat} {p : Text} (hp : 0 < i → hasPipe p = true) : ink (r.productionLine i p) = ink p := by
  unfold productionLine
  split
  · rw [ink_blanks_append hi, ink_trim]
  · rename_i h
    rw [if_pos (hp (Nat.pos_of_ne_zero h)), ink_trimBlanksEnd]

/-- A production on a line of its own, with those of the blocks `as` that follow it. -/
def productionText (r : Rule) (as : List Action) (p : Text × Nat) : Text :=
  newline :: (r.productionLine p.2 p.1 ++ actionTexts (as.filter fun a => a.owner = (p.2 : Int)))

/-- Blocks of earlier productions make no difference to a production. -/
theorem productionText_filter (r : Rule) (as : List Action) {k : Int} {p : Text × Nat}
    (h : k < p.2) : r.productionText (as.filter fun a => k < a.owner) p = r.productionText as p := by
  unfold productionText
  rw [List.filter_filter]
  congr 3
  refine List.filter_congr fun a _ => ?_
  by_cases hp : a.owner = (p.2 : Int)
  · simp [hp, h]
  · simp [hp]

theorem flatMap_productionText_filter (r : Rule) (as : List Action) (ps : List Text) (i : Nat)
    {k : Int} (h : k < i) :
    (ps.zipIdx i).flatMap (r.productionText (as.filter fun a => k < a.owner))
      = (ps.zipIdx i).flatMap (r.productionText as) := by
  rw [List.flatMap_def, List.flatMap_def]
  congr 1
  refine List.map_congr_left fun p hp => r.productionText_filter as ?_
  have := List.le_snd_of_mem_zipIdx hp
  omega

/-- Blocks in the order of their productions are each written after their own production. -/
theorem renderFrom_eq_flatMap (r : Rule) (i : Nat) (ps : List Text) (as : List Action)
    (hs : as.Pairwise fun a b => a.owner ≤ b.owner)
    (hl : ∀ a ∈ as, (i : Int) ≤ a.owner) (hu : ∀ a ∈ as, a.owner < i + ps.length) :
    r.renderFrom i ps as = (ps.zipIdx i).flatMap (r.productionText as) := by
  induction ps generalizing i as with
  | nil =>
    have has : as = [] := by
      rw [List.eq_nil_iff_forall_not_mem]
      intro a ha
      have h1 := hl a ha
      have h2 := hu a ha
      simp only [List.length_nil] at h2
      omega
    subst has
    rfl
  | cons p ps ih =>
    have hrest := ih (i + 1) (as.filter fun a => (i : Int) < a.owner) (hs.filter _)
      (by
        intro a ha
        simp only [List.mem_filter, decide_eq_true_eq] at ha
        omega)
      (by
        intro a ha
        rw [List.mem_filter] at ha
        have := hu a ha.1
        simp only [List.length_cons] at this
        omega)
    rw [renderFrom, takeWhile_owner hs i hl, dropWhile_owner hs i hl, hrest,
      flatMap_productionText_filter r as ps (i + 1) (by omega), List.zipIdx_cons,
      List.flatMap_cons]
    rfl

/-- Behind the blocks that stand in front of the first production comes every production with its
own. -/
theorem renderFrom_eq_flatMap_of_sorted (r : Rule) {as : List Action}
    (hs : as.Pairwise fun a b => a.owner ≤ b.owner) (hl : ∀ a ∈ as, -1 ≤ a.owner)
    (hu : ∀ a ∈ as, a.owner < r.productions.length) :
    r.renderFrom 0 r.productions (as.dropWhile fun a => a.owner ≤ -1)
      = r.productions.zipIdx.flatMap (r.productionText as) := by
  rw [dropWhile_owner hs (-1) hl, renderFrom_eq_flatMap r 0 _ _ (hs.filter _),
    flatMap_productionText_filter r as r.productions 0 (by omega)]
  · intro a ha
    simp only [List.mem_filter, decide_eq_true_eq] at ha
    omega
  · intro a ha
    have := hu a (List.mem_filter.1 ha).1
    omega

theorem ink_productionText {r : Rule} (h : r.Ordered) {p : Text × Nat}
    (hp : p ∈ r.productions.zipIdx) : ink (r.productionText r.actions p) = r.productionInk p := by
  have hpipe : 0 < p.2 → hasPipe p.1 = true := by
    intro hpos
    refine h.piped p.1 ?_
    obtain ⟨hlt, heq⟩ := List.mem_zipIdx' hp
    rw [heq, ← List.drop_one]
    refine List.mem_drop_iff_getElem.2 ⟨p.2 - 1, ?_, ?_⟩
    · omega
    · congr 1
      omega
  rw [productionText, ink_newline, productionInk, ← blocks,
    ink_append_actionTexts (h.framed_blocks p.2), ink_productionLine h.productionIndent hpipe]

theorem ink_header (r : Rule) : ink r.header = ink r.name ++ [colon] := by
  have hpad : ∀ c ∈ List.replicate r.namePadding space, isAsciiSpace c = true := by
    intro c hc
    rw [List.eq_of_mem_replicate hc]
    decide
  unfold header
  split
  · rw [show bytes " :" = [space, colon] from rfl, ink_append_space, ink_append_spaces hpad,
      ink_colon, ink_nil]
  · rw [show bytes ":" = [colon] from rfl, ink_append_colon, ink_append_spaces hpad, ink_nil]

theorem ink_terminator {r : Rule} (h : r.Ordered) : ink r.terminator = [semicolon] := by
  rw [terminator, List.cons_append, ink_newline, ink_blanks_append h.terminatorIndent,
    ink_semicolon, ink_newline, ink_nil]

/-- The ink of a rule: its name and colon, every production followed by its blocks, and the
semicolon. -/
theorem ink_render {r : Rule} (h : r.Ordered) :
    ink r.render = ink r.name ++ colon :: (r.bodyInk ++ [semicolon]) := by
  have hfirst : (r.actions.takeWhile fun a => a.owner ≤ -1) = r.blocks (-1) :=
    takeWhile_owner h.sorted (-1) h.lower
  have hrest := r.renderFrom_eq_flatMap_of_sorted h.sorted h.lower h.upper
  have hchunk : ∀ p ∈ r.productions.zipIdx,
      ∃ c t, c < 0x80 ∧ r.productionText r.actions p = c :: t :=
    fun p _ => ⟨newline, _, by decide, rfl⟩
  obtain ⟨t, ht⟩ : ∃ t, r.terminator = newline :: t := ⟨_, rfl⟩
  rw [render, hfirst, hrest, ht, ink_append_newline, ← ink_newline t, ← ht, ink_terminator h,
    ink_append_flatMap hchunk, ink_append_actionTexts (h.framed_blocks (-1)),
    ink_header, bodyInk, List.flatMap_def,
    List.map_congr_left fun p hp => ink_productionText h hp, ← List.flatMap_def]
  simp

/-! ### Building a rule -/

namespace Ordered

variable {r : Rule} (h : r.Ordered)
include h

theorem addProduction {p : Text} (hp : r.productions = [] ∨ hasPipe p = true) :
    (r.addProduction p).Ordered := by
  refine ⟨h.sorted, h.lower, ?_, h.framed, ?_, h.productionIndent, h.terminatorIndent⟩
  · intro a ha
    have := h.upper a ha
    simp only [Rule.addProduction, List.length_append, List.length_singleton]
    omega
  · intro q hq
    simp only [Rule.addProduction] at hq
    by_cases hps : r.productions = []
    · rw [hps] at hq
      simp at hq
    · rw [List.tail_append_of_ne_nil hps, List.mem_append, List.mem_singleton] at hq
      rcases hq with hq | rfl
      · exact h.piped q hq
      · exact hp.resolve_left hps

theorem addAction {a : Action} (ha : a.owner = (r.productions.length : Int) - 1)
    (hf : a.Framed) : (r.addAction a).Ordered := by
  refine ⟨?_, ?_, ?_, ?_, h.piped, h.productionIndent, h.terminatorIndent⟩
  · rw [Rule.addAction, List.pairwise_append]
    refine ⟨h.sorted, List.pairwise_singleton _ a, fun b hb c hc => ?_⟩
    have := h.upper b hb
    rw [List.mem_singleton.1 hc]
    omega
  all_goals
    intro b hb
    rw [Rule.addAction, List.mem_append, List.mem_singleton] at hb
    rcases hb with hb | rfl
  · exact h.lower b hb
  · omega
  · exact h.upper b hb
  · simp only [Rule.addAction]
    omega
  · exact h.framed b hb
  · exact hf

theorem extendProduction {ps : List Text} {p : Text} (hps : r.productions = ps ++ [p]) (t : Text) :
    (r.extendProduction t).Ordered := by
  have hext : r.extendProduction t =
      { r with productions := ps ++ [trimBlanksEnd p ++ space :: trim t] } := by
    simp [Rule.extendProduction, hps]
  rw [hext]
  refine ⟨h.sorted, h.lower, ?_, h.framed, ?_, h.productionIndent, h.terminatorIndent⟩
  · intro a ha
    have := h.upper a ha
    rw [hps] at this
    simpa using this
  · intro q hq
    have hpiped := h.piped
    rw [hps] at hpiped
    by_cases hne : ps = []
    · rw [hne] at hq
      simp at hq
    · rw [List.tail_append_of_ne_nil hne] at hq hpiped
      rcases List.mem_append.1 hq with hq | hq
      · exact hpiped q (List.mem_append_left _ hq)
      · have hp := hpiped p (List.mem_append_right _ List.mem_cons_self)
        rw [List.mem_singleton.1 hq]
        rw [hasPipe_iff] at hp ⊢
        rw [ink_append_space, ink_trimBlanksEnd, List.head?_append, hp]
        rfl

end Ordered

/-- The ink of a rule's body up to its last production, without the blocks that follow this one:
what is read later comes behind it. -/
def firmInk (r : Rule) : Text :=
  match r.productions.getLast? with
  | none => []
  | some p =>
      (blocksInk (r.blocks (-1)) ++ r.productions.dropLast.zipIdx.flatMap r.productionInk) ++ ink p

theorem firmInk_of_nil {r : Rule} (hps : r.productions = []) : r.firmInk = [] := by
  rw [firmInk, hps]
  rfl

theorem firmInk_concat {r : Rule} {ps : List Text} {p : Text} (hps : r.productions = ps ++ [p]) :
    r.firmInk = (blocksInk (r.blocks (-1)) ++ ps.zipIdx.flatMap r.productionInk) ++ ink p := by
  rw [firmInk, hps, List.getLast?_concat, List.dropLast_concat]

theorem exists_concat {r : Rule} (hps : r.productions ≠ []) :
    ∃ ps p, r.productions = ps ++ [p] ∧ (r.productions.length : Int) - 1 = ps.length := by
  refine ⟨_, _, (List.dropLast_concat_getLast hps).symm, ?_⟩
  have := List.length_pos_iff.2 hps
  rw [List.length_dropLast]
  omega

/-- The body is its firm ink and the blocks of the last production. -/
theorem bodyInk_eq_firmInk (r : Rule) :
    r.bodyInk = r.firmInk ++ blocksInk (r.blocks ((r.productions.length : Int) - 1)) := by
  by_cases hps : r.productions = []
  · rw [firmInk_of_nil hps, bodyInk, hps]
    simp
  · obtain ⟨ps, p, hcut, hlen⟩ := exists_concat hps
    rw [firmInk_concat hcut, hlen, bodyInk, hcut, List.zipIdx_append, List.flatMap_append,
      Nat.zero_add]
    simp [productionInk]

theorem firmInk_addProduction (r : Rule) (p : Text) :
    (r.addProduction p).firmInk = r.bodyInk ++ ink p := by
  rw [firmInk_concat (r := r.addProduction p) rfl]
  rfl

theorem firmInk_extendProduction {r : Rule} (hps : r.productions ≠ []) (t : Text) :
    (r.extendProduction t).firmInk = r.firmInk ++ ink t := by
  obtain ⟨ps, p, hcut, -⟩ := exists_concat hps
  have hext : r.extendProduction t =
      { r with productions := ps ++ [trimBlanksEnd p ++ space :: trim t] } := by
    simp [extendProduction, hcut]
  rw [hext, firmInk_concat rfl, firmInk_concat hcut, ink_append_space, ink_trimBlanksEnd, ink_trim,
    ← List.append_assoc]
  rfl

theorem blocks_addAction (r : Rule) (a : Action) (i : Int) :
    (r.addAction a).blocks i = r.blocks i ++ if a.owner = i then [a] else [] := by
  rw [blocks, addAction, List.filter_append]
  by_cases hi : a.owner = i <;> simp [blocks, hi]

theorem firmInk_addAction {r : Rule} {a : Action}
    (ha : a.owner = (r.productions.length : Int) - 1) : (r.addAction a).firmInk = r.firmInk := by
  by_cases hps : r.productions = []
  · rw [firmInk_of_nil hps, firmInk_of_nil (r := r.addAction a) hps]
  · obtain ⟨ps, p, hcut, hlen⟩ := exists_concat hps
    have hearlier : ∀ q ∈ ps.zipIdx, (r.addAction a).productionInk q = r.productionInk q := by
      intro q hq
      have := List.snd_lt_of_mem_zipIdx hq
      rw [productionInk, productionInk, blocks_addAction, if_neg (by omega), List.append_nil]
    rw [firmInk_concat hcut, firmInk_concat (r := r.addAction a) hcut, blocks_addAction,
      if_neg (by omega), List.append_nil, List.flatMap_def, List.map_congr_left hearlier,
      ← List.flatMap_def]

/-- A further alternative comes after everything written so far. -/
theorem bodyInk_addProduction {r : Rule} (h : r.Ordered) (p : Text) :
    (r.addProduction p).bodyInk = r.bodyInk ++ ink p := by
  have hnone : (r.addProduction p).blocks ((r.addProduction p).productions.length - 1) = [] := by
    rw [blocks, List.filter_eq_nil_iff]
    intro a ha
    have := h.upper a ha
    simp only [addProduction, List.length_append, List.length_singleton, decide_eq_true_eq]
    omega
  rw [bodyInk_eq_firmInk, firmInk_addProduction, hnone, blocksInk_nil, List.append_nil]

/-- A block of the last production comes after everything written so far. -/
theorem bodyInk_addAction (r : Rule) {a : Action} (ha : a.owner = (r.productions.length : Int) - 1) :
    (r.addAction a).bodyInk = r.bodyInk ++ ink a.text := by
  have hlen : (r.addAction a).productions.length = r.productions.length := rfl
  rw [bodyInk_eq_firmInk, bodyInk_eq_firmInk, firmInk_addAction ha, blocks_addAction, hlen,
    if_pos ha]
  simp

/-- A continuation is written behind the last production, before the blocks that follow it. -/
theorem bodyInk_extendProduction {r : Rule} (hps : r.productions ≠ []) (t : Text) :
    (r.extendProduction t).bodyInk =
      r.firmInk ++ (ink t ++ blocksInk (r.blocks ((r.productions.length : Int) - 1))) := by
  obtain ⟨ps, p, hcut, hlen⟩ := exists_concat hps
  have hblocks : (r.extendProduction t).blocks = r.blocks := by
    simp [extendProduction, hcut, blocks, funext_iff]
  have hlen' : (r.extendProduction t).productions.length = r.productions.length := by
    simp [extendProduction, hcut]
  rw [bodyInk_eq_firmInk, firmInk_extendProduction hps, hblocks, hlen', List.append_assoc]

end Rule

/-! ## Documents -/

/-- The ink of entries, one after the other. -/
def entriesInk (es : List Entry) : Text := es.flatMap fun e => ink e.render

@[simp] theorem entriesInk_nil : entriesInk [] = [] := rfl

@[simp] theorem entriesInk_cons (e : Entry) (es : List Entry) :
    entriesInk (e :: es) = ink e.render ++ entriesInk es := rfl

@[simp] theorem entriesInk_append (es fs : List Entry) :
    entriesInk (es ++ fs) = entriesInk es ++ entriesInk fs := List.flatMap_append

theorem Rule.ended_render (r : Rule) : Ended r.render := by
  refine ⟨r.header ++ actionTexts (r.actions.takeWhile (·.owner ≤ -1))
    ++ r.renderFrom 0 r.productions (r.actions.dropWhile (·.owner ≤ -1))
    ++ (newline :: r.terminatorIndent ++ [semicolon]), ?_⟩
  simp [render, terminator]

/-- Every entry but perhaps the last ends with a newline. -/
def EndedEntries (es : List Entry) : Prop := EndedLines (es.map Entry.render)

theorem ink_flatMap_render {es : List Entry} (h : EndedEntries es) :
    ink (es.flatMap Entry.render) = entriesInk es := by
  rw [List.flatMap_def, ink_flatten h, entriesInk, List.flatMap_map]

theorem Document.mem_rules {d : Document} {r : Rule} : r ∈ d.rules ↔ .rule r ∈ d.entries := by
  rw [Document.rules, List.mem_filterMap]
  constructor
  · rintro ⟨e, he, hrule⟩
    cases e with
    | verbatim v => exact absurd hrule (by simp [Entry.rule?])
    | rule r' => rwa [← Option.some.inj hrule]
  · exact fun he => ⟨_, he, rfl⟩

/-- The ink of a document is the ink of its entries. -/
theorem Document.ink_render {d : Document} (h : EndedEntries d.entries) :
    ink d.render = entriesInk d.entries := ink_flatMap_render h

end GrammarLayout
