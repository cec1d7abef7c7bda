import GrammarLayout.Pass.Indent
import GrammarLayout.Proofs.Pass.Spacing

/-!
# Laying out rules

The indentation pass takes the blocks at the end of productions out of them,
then indents productions and blocks.  Taking a block out moves it from one list
of the rule to another; the order of the ink survives because the block is put
before the other blocks of its production.

What is proved here:

* `Rule.blocks_liftActions` — a block taken out of a production comes before the
  blocks that follow this production;
* `Rule.bodyInk_liftActions` — taking blocks out keeps the ink of a rule;
* `exists_blockContent` — the lines of the code of a block, in terms of its text;
* `ink_reflowBlock` — rewriting a block keeps its ink;
* `Rule.Ordered.indentBy` — the pass keeps the ink of every rule and lays it
  out.
-/

namespace GrammarLayout

open Ascii Text

/-! ## Blocks at the end of productions -/

/-- The action that the block at the end of production `i` becomes. -/
def lifted? (i : Nat) (p : Text) : Option Action :=
  (liftable? p).map fun parts => Action.ofText (bytes " \x7b" ++ parts.2 ++ [closeBrace]) i 0

/-- What is left of a production whose block is taken out. -/
def unlifted (p : Text) : Text := ((liftable? p).map Prod.fst).getD p

theorem liftedActions_cons (i : Nat) (p : Text) (ps : List Text) :
    liftedActions i (p :: ps) = (lifted? i p).toList ++ liftedActions (i + 1) ps := by
  rw [liftedActions, lifted?]
  cases liftable? p <;> rfl

theorem owner_lifted? {i : Nat} {p : Text} {a : Action} (h : lifted? i p = some a) :
    a.owner = i := by
  obtain ⟨parts, -, rfl⟩ := Option.map_eq_some_iff.1 h
  rfl

theorem framed_lifted? {i : Nat} {p : Text} {a : Action} (h : lifted? i p = some a) :
    a.Framed := by
  obtain ⟨parts, -, rfl⟩ := Option.map_eq_some_iff.1 h
  rw [Action.Framed, Action.ofText, ink_trimLayoutEnd, show bytes " \x7b" = [space, openBrace] from rfl]
  simp

theorem splitInline?_of_liftable? {p : Text} {parts : Text × Text} (h : liftable? p = some parts) :
    splitInline? p = some parts := by
  rw [liftable?, Option.filter_eq_some_iff] at h
  exact h.1

/-- What is left of a production and the block taken out have the ink of the production. -/
theorem ink_unlifted (i : Nat) (p : Text) :
    ink (unlifted p) ++ blocksInk (lifted? i p).toList = ink p := by
  unfold unlifted lifted?
  cases h : liftable? p with
  | none => simp
  | some parts =>
    rw [ink_of_splitInline? (splitInline?_of_liftable? h)]
    simp [blocksInk, Action.ofText, show bytes " \x7b" = [space, openBrace] from rfl]

theorem hasPipe_unlifted {p : Text} (h : hasPipe p = true) : hasPipe (unlifted p) = true := by
  unfold unlifted
  cases hl : liftable? p with
  | none => exact h
  | some parts =>
    exact Rule.hasPipe_of_ink (ink_of_splitInline? (splitInline?_of_liftable? hl)) (by decide) h

namespace Rule

theorem filter_insertOwned (a : Action) (as : List Action) (k : Int) :
    (insertOwned a as).filter (fun b => b.owner = k)
      = (if a.owner = k then [a] else []) ++ as.filter fun b => b.owner = k := by
  have has : as.filter (fun b => b.owner = k)
      = (as.takeWhile (·.owner < a.owner)).filter (fun b => b.owner = k)
        ++ (as.dropWhile (·.owner < a.owner)).filter (fun b => b.owner = k) := by
    rw [← List.filter_append, List.takeWhile_append_dropWhile]
  rw [insertOwned, List.filter_append, List.filter_cons, has]
  by_cases hk : a.owner = k
  · have hnone : (as.takeWhile (·.owner < a.owner)).filter (fun b => b.owner = k) = [] := by
      rw [List.filter_eq_nil_iff]
      intro b hb
      have := List.mem_takeWhile_imp hb
      simp only [decide_eq_true_eq] at this ⊢
      omega
    rw [hnone]
    simp [hk]
  · simp [hk]

/-- The blocks of the productions from number `i` on put among others. -/
def liftInto (as : List Action) (i : Nat) (ps : List Text) : List Action :=
  (liftedActions i ps).foldl (fun as a => insertOwned a as) as

theorem liftInto_cons (as : List Action) (i : Nat) (p : Text) (ps : List Text) :
    liftInto as i (p :: ps)
      = liftInto ((lifted? i p).toList.foldl (fun as a => insertOwned a as) as) (i + 1) ps := by
  rw [liftInto, liftedActions_cons, List.foldl_append]
  rfl

theorem filter_foldl_lifted? (as : List Action) (i : Nat) (p : Text) (k : Int) :
    ((lifted? i p).toList.foldl (fun as a => insertOwned a as) as).filter (fun b => b.owner = k)
      = (if (i : Int) = k then (lifted? i p).toList else [])
        ++ as.filter fun b => b.owner = k := by
  cases h : lifted? i p with
  | none => simp
  | some a =>
    simp only [Option.toList_some, List.foldl_cons, List.foldl_nil]
    rw [filter_insertOwned, owner_lifted? h]

theorem filter_liftInto_of_lt (as : List Action) (i : Nat) (ps : List Text) {k : Int}
    (hk : k < i) : (liftInto as i ps).filter (fun b => b.owner = k)
      = as.filter fun b => b.owner = k := by
  induction ps generalizing as i with
  | nil => rfl
  | cons p ps ih =>
    rw [liftInto_cons, ih _ (i + 1) (by omega), filter_foldl_lifted?, if_neg (by omega),
      List.nil_append]

theorem filter_liftInto (as : List Action) (i : Nat) {ps : List Text} {j : Nat} {p : Text}
    (hp : ps[j]? = some p) :
    (liftInto as i ps).filter (fun b => b.owner = ((i + j : Nat) : Int))
      = (lifted? (i + j) p).toList ++ as.filter fun b => b.owner = ((i + j : Nat) : Int) := by
  induction ps generalizing as i j with
  | nil => simp at hp
  | cons q ps ih =>
    rw [liftInto_cons]
    cases j with
    | zero =>
      obtain rfl : q = p := by simpa using hp
      rw [filter_liftInto_of_lt _ _ _ (by omega), filter_foldl_lifted?, if_pos (by omega)]
      rfl
    | succ j =>
      have hrest := ih ((lifted? i q).toList.foldl (fun as a => insertOwned a as) as) (i + 1)
        (j := j) (by simpa using hp)
      rw [show i + (j + 1) = i + 1 + j by omega, hrest, filter_foldl_lifted?, if_neg (by omega),
        List.nil_append]

theorem mem_insertOwned {a b : Action} {as : List Action} :
    b ∈ insertOwned a as ↔ b = a ∨ b ∈ as := by
  have has : b ∈ as ↔ b ∈ as.takeWhile (·.owner < a.owner) ++ as.dropWhile (·.owner < a.owner) := by
    rw [List.takeWhile_append_dropWhile]
  rw [insertOwned, has, List.mem_append, List.mem_append, List.mem_cons]
  exact or_left_comm

theorem sorted_insertOwned (a : Action) {as : List Action}
    (h : as.Pairwise fun b c => b.owner ≤ c.owner) :
    (insertOwned a as).Pairwise fun b c => b.owner ≤ c.owner := by
  induction as with
  | nil => simp [insertOwned]
  | cons b as ih =>
    rw [List.pairwise_cons] at h
    by_cases hb : b.owner < a.owner
    · have hins : insertOwned a (b :: as) = b :: insertOwned a as := by simp [insertOwned, hb]
      rw [hins, List.pairwise_cons]
      refine ⟨fun c hc => ?_, ih h.2⟩
      rcases mem_insertOwned.1 hc with rfl | hc
      · exact Int.le_of_lt hb
      · exact h.1 c hc
    · have hins : insertOwned a (b :: as) = a :: b :: as := by simp [insertOwned, hb]
      rw [hins, List.pairwise_cons, List.pairwise_cons]
      refine ⟨fun c hc => ?_, h⟩
      rcases List.mem_cons.1 hc with rfl | hc
      · omega
      · have := h.1 c hc
        omega

theorem sorted_liftInto {as : List Action} (h : as.Pairwise fun b c => b.owner ≤ c.owner)
    (i : Nat) (ps : List Text) :
    (liftInto as i ps).Pairwise fun b c => b.owner ≤ c.owner := by
  unfold liftInto
  generalize liftedActions i ps = ls
  induction ls generalizing as with
  | nil => exact h
  | cons a ls ih => exact ih (sorted_insertOwned a h)

/-- A block of the result was there before or was taken out of a production. -/
theorem mem_liftInto {as : List Action} {i : Nat} {ps : List Text} {a : Action}
    (h : a ∈ liftInto as i ps) :
    a ∈ as ∨ ∃ j, j < i + ps.length ∧ ∃ p ∈ ps, lifted? j p = some a := by
  induction ps generalizing as i with
  | nil => exact Or.inl h
  | cons p ps ih =>
    rw [liftInto_cons] at h
    rcases ih h with h | ⟨j, hj, q, hmem, hq⟩
    · cases hp : lifted? i p with
      | none =>
        rw [hp] at h
        exact Or.inl h
      | some b =>
        rw [hp] at h
        rcases mem_insertOwned.1 h with rfl | h
        · exact Or.inr ⟨i, by simp, p, List.mem_cons_self, hp⟩
        · exact Or.inl h
    · refine Or.inr ⟨j, ?_, q, List.mem_cons_of_mem p hmem, hq⟩
      rw [List.length_cons]
      omega

theorem liftActions_eq (r : Rule) : r.liftActions =
    { r with
      productions := r.productions.map unlifted
      actions := liftInto r.actions 0 r.productions } := rfl

/-- A block taken out of a production comes before the blocks that follow it. -/
theorem blocks_liftActions (r : Rule) {i : Nat} {p : Text} (h : r.productions[i]? = some p) :
    r.liftActions.blocks i = (lifted? i p).toList ++ r.blocks i := by
  have := filter_liftInto r.actions 0 h
  rwa [Nat.zero_add] at this

theorem bodyInk_liftActions (r : Rule) : r.liftActions.bodyInk = r.bodyInk := by
  have hfirst : r.liftActions.blocks (-1) = r.blocks (-1) :=
    filter_liftInto_of_lt r.actions 0 r.productions (by omega)
  have hproduction : ∀ p ∈ r.productions.zipIdx,
      r.liftActions.productionInk (unlifted p.1, p.2) = r.productionInk p := by
    intro p hp
    rw [productionInk, productionInk, blocks_liftActions r (List.mem_zipIdx_iff_getElem?.1 hp),
      blocksInk_append, ← List.append_assoc, ink_unlifted]
  rw [bodyInk, bodyInk, hfirst, liftActions_eq, List.zipIdx_map, List.flatMap_map,
    ← liftActions_eq, List.flatMap_def, List.flatMap_def]
  congr 2
  exact List.map_congr_left hproduction

theorem Ordered.liftActions {r : Rule} (h : r.Ordered) : r.liftActions.Ordered := by
  have hmem : ∀ a ∈ r.liftActions.actions, a ∈ r.actions ∨
      ∃ j, j < r.productions.length ∧ ∃ p ∈ r.productions, lifted? j p = some a := by
    intro a ha
    have := mem_liftInto ha
    rwa [Nat.zero_add] at this
  rw [liftActions_eq] at hmem ⊢
  refine ⟨sorted_liftInto h.sorted 0 r.productions, ?_, ?_, ?_, ?_, h.productionIndent,
    h.terminatorIndent⟩
  all_goals intro a ha
  · rcases hmem a ha with ha | ⟨j, hj, p, -, hp⟩
    · exact h.lower a ha
    · rw [owner_lifted? hp]
      omega
  · rw [List.length_map]
    rcases hmem a ha with ha | ⟨j, hj, p, -, hp⟩
    · exact h.upper a ha
    · rw [owner_lifted? hp]
      omega
  · rcases hmem a ha with ha | ⟨j, hj, p, -, hp⟩
    · exact h.framed a ha
    · exact framed_lifted? hp
  · rw [← List.map_tail] at ha
    obtain ⟨p, hp, rfl⟩ := List.mem_map.1 ha
    exact hasPipe_unlifted (h.piped p hp)

end Rule

/-! ## Productions -/

theorem indentProduction_succ {unit : Text} (hunit : ∀ c ∈ unit, isBlank c = true) (i : Nat)
    {p : Text} (h : hasPipe p = true) :
    ink (indentProduction unit (i + 1) p) = ink p ∧
      firstSign (indentProduction unit (i + 1) p) = some pipe := by
  obtain ⟨t, ht⟩ := List.head?_eq_some_iff.1 (startsWith_singleton_iff.1 h)
  have hink : ink p = pipe :: ink t := by rw [← ink_trim, ht, ink_pipe]
  have hdrop : dropStart [pipe] (pipe :: t) = t := by simp [dropStart, startsWith]
  have hsign : ∀ s, firstSign (unit ++ pipe :: s) = some pipe := by
    intro s
    rw [firstSign_blanks_append hunit, firstSign_cons (by decide)]
  simp only [indentProduction, Nat.succ_ne_zero, if_false, ht, hdrop]
  split
  · rename_i hempty
    refine ⟨?_, hsign []⟩
    rw [ink_blanks_append hunit, ink_pipe, hink, ← ink_trim t, List.isEmpty_iff.1 hempty]
  · rw [show bytes "| " = [pipe, space] from rfl, List.append_assoc]
    refine ⟨?_, hsign _⟩
    rw [ink_blanks_append hunit, hink]
    simp

/-! ## Blocks -/

theorem mem_of_firstShortest {ls : List Text} {l : Text} (h : firstShortest ls = some l) :
    l ∈ ls := by
  induction ls generalizing l with
  | nil => simp [firstShortest] at h
  | cons k ls ih =>
    rw [firstShortest] at h
    split at h
    · rw [← Option.some.inj h]
      exact List.mem_cons_self
    · rename_i m hm
      split at h
      · rw [← Option.some.inj h]
        exact List.mem_cons_of_mem k (ih hm)
      · rw [← Option.some.inj h]
        exact List.mem_cons_self

theorem isBlank_of_mem_leastBlanks (ls : List Text) : ∀ c ∈ leastBlanks ls, isBlank c = true := by
  intro c hc
  unfold leastBlanks at hc
  cases h : firstShortest ((inkedLines ls).map leadingBlanks) with
  | none => simp [h] at hc
  | some w =>
    obtain ⟨l, -, rfl⟩ := List.mem_map.1 (mem_of_firstShortest h)
    rw [h, Option.getD_some] at hc
    exact List.mem_takeWhile_imp hc

theorem flatMap_ink_dropWhile_isSpaces (ls : List Text) :
    (ls.dropWhile isSpaces).flatMap ink = ls.flatMap ink := by
  induction ls with
  | nil => rfl
  | cons l ls ih =>
    by_cases hl : isSpaces l = true
    · rw [List.dropWhile_cons_of_pos hl, ih, List.flatMap_cons, ink_of_isSpaces hl, List.nil_append]
    · rw [List.dropWhile_cons_of_neg hl]

/-- The code of a block is what stands behind the opening brace, on a line of its own, and the lines
below without the last when it is blank. -/
theorem exists_blockContent {inner head : Text} {below : List Text}
    (hlines : splitLines inner = head :: below) : ∃ lead middle last,
      (∀ c ∈ lead, isBlank c = true) ∧ below = middle ++ last ∧ (∀ l ∈ last, isSpaces l = true) ∧
      blockContent inner
        = ((if isSpaces head then [] else [lead ++ trim head]) ++ middle).dropWhile isSpaces := by
  -- The line of the closing brace is dropped when nothing else stands on it.
  obtain ⟨middle, last, hbelow, hlast, hcontent⟩ : ∃ middle last, below = middle ++ last ∧
      (∀ l ∈ last, isSpaces l = true) ∧ blockContent inner
        = (if isSpaces head then middle
          else (leastBlanks middle ++ trim head) :: middle).dropWhile isSpaces := by
    rw [blockContent, hlines, ← isEmpty_trim]
    cases hlast : below.getLast? with
    | none =>
      refine ⟨[], [], List.getLast?_eq_none_iff.1 hlast, by simp, ?_⟩
      simp only [hlast]
    | some l =>
      cases hblank : isSpaces l with
      | true =>
        obtain ⟨earlier, rfl⟩ := List.getLast?_eq_some_iff.1 hlast
        refine ⟨earlier, [l], rfl, List.forall_mem_singleton.2 hblank, ?_⟩
        simp only [hlast, hblank, if_true, List.dropLast_concat]
      | false =>
        refine ⟨below, [], (List.append_nil below).symm, by simp, ?_⟩
        simp [hlast, hblank]
  refine ⟨leastBlanks middle, middle, last, isBlank_of_mem_leastBlanks middle, hbelow, hlast, ?_⟩
  rw [hcontent]
  split <;> rfl

/-- A line of code of a block is a line below its opening brace, or the text behind the brace. -/
theorem mem_blockContent {inner l : Text} (h : l ∈ blockContent inner) :
    ∃ head below, splitLines inner = head :: below ∧
      (l ∈ below ∨ ∃ w, (∀ c ∈ w, isBlank c = true) ∧ l = w ++ trim head) := by
  obtain ⟨head, below, hlines⟩ := List.exists_cons_of_ne_nil (splitOn_ne_nil newline inner)
  obtain ⟨lead, middle, last, hlead, hbelow, -, hcontent⟩ := exists_blockContent hlines
  rw [hcontent] at h
  refine ⟨head, below, hlines, ?_⟩
  rcases List.mem_append.1 ((List.dropWhile_sublist _).subset h) with h | h
  · split at h
    · cases h
    · exact Or.inr ⟨lead, hlead, List.mem_singleton.1 h⟩
  · exact Or.inl (hbelow ▸ List.mem_append_left last h)

theorem ink_blockContent (inner : Text) : (blockContent inner).flatMap ink = ink inner := by
  obtain ⟨head, below, hlines⟩ := List.exists_cons_of_ne_nil (splitOn_ne_nil newline inner)
  obtain ⟨lead, middle, last, hlead, rfl, hlast, hcontent⟩ := exists_blockContent hlines
  have hfirst : (if isSpaces head then [] else [lead ++ trim head]).flatMap ink = ink head := by
    split
    · rename_i hhead
      rw [ink_of_isSpaces hhead]
      rfl
    · rw [List.flatMap_singleton, ink_blanks_append hlead, ink_trim]
  have hnone : last.flatMap ink = [] :=
    List.flatMap_eq_nil_iff.2 fun l hl => ink_of_isSpaces (hlast l hl)
  have hinner := ink_splitLines inner
  rw [splitLines, hlines] at hinner
  rw [← hinner, hcontent, flatMap_ink_dropWhile_isSpaces, List.flatMap_append, hfirst,
    List.flatMap_cons, List.flatMap_append, hnone, List.append_nil]

theorem ink_flatMap_newline (ls : List Text) (s : Text) :
    ink (ls.flatMap (· ++ [newline]) ++ s) = ls.flatMap ink ++ ink s := by
  induction ls with
  | nil => rfl
  | cons l ls ih =>
    rw [List.flatMap_cons, List.append_assoc, List.append_assoc, List.singleton_append,
      ink_append_newline, ih, List.flatMap_cons, List.append_assoc]

/-- A text in braces is written anew, and other text is kept. -/
theorem reflowBlock_cases (unit body : Text) :
    (∃ inner, body = openBrace :: (inner ++ [closeBrace]) ∧ reflowBlock unit body
        = openBrace :: newline :: ((rebase (unit ++ unit) (blockContent inner)).flatMap (· ++ [newline])
          ++ (unit ++ [closeBrace]))) ∨
      (∀ inner, body ≠ openBrace :: (inner ++ [closeBrace])) ∧ reflowBlock unit body = body := by
  unfold reflowBlock
  split
  · rename_i hbraces
    rw [Bool.and_eq_true, startsWith_singleton_iff, endsWith_singleton_iff] at hbraces
    obtain ⟨t, ht⟩ := List.head?_eq_some_iff.1 hbraces.1
    obtain ⟨u, hu⟩ := hbraces.2
    obtain ⟨inner, rfl⟩ : ∃ inner, body = openBrace :: (inner ++ [closeBrace]) := by
      cases u with
      | nil =>
        rw [ht, List.nil_append, List.cons.injEq] at hu
        exact absurd hu.1 (by decide)
      | cons c inner =>
        rw [ht, List.cons_append, List.cons.injEq] at hu
        exact ⟨inner, by rw [ht, hu.2]⟩
    refine Or.inl ⟨inner, rfl, ?_⟩
    dsimp only
    rw [List.drop_succ_cons, List.drop_zero, List.dropLast_concat, List.cons_append,
      List.cons_append, List.cons_append, List.cons_append, List.append_assoc]
  · rename_i hbraces
    refine Or.inr ⟨?_, rfl⟩
    rintro inner rfl
    refine hbraces ?_
    rw [Bool.and_eq_true, startsWith_singleton_iff, endsWith_singleton_iff]
    exact ⟨rfl, openBrace :: inner, rfl⟩

theorem reflowBlock_braces (unit inner : Text) :
    reflowBlock unit (openBrace :: (inner ++ [closeBrace]))
      = openBrace :: newline :: ((rebase (unit ++ unit) (blockContent inner)).flatMap (· ++ [newline])
          ++ (unit ++ [closeBrace])) := by
  rcases reflowBlock_cases unit (openBrace :: (inner ++ [closeBrace])) with
    ⟨inner', hinner, hreflow⟩ | ⟨hnone, -⟩
  · obtain rfl := List.append_cancel_right (List.cons.inj hinner).2
    exact hreflow
  · exact absurd rfl (hnone inner)

/-- Rewriting a block changes its white space only. -/
theorem ink_reflowBlock {unit : Text} (hunit : ∀ c ∈ unit, isBlank c = true) (body : Text) :
    ink (reflowBlock unit body) = ink body := by
  rcases reflowBlock_cases unit body with ⟨inner, rfl, hreflow⟩ | ⟨-, hreflow⟩
  · have hunits : isSpaces (unit ++ unit) = true := by
      rw [← ink_eq_nil_iff, ink_blanks_append hunit, ← List.append_nil unit,
        ink_blanks_append hunit, ink_nil]
    rw [hreflow, ink_openBrace, ink_newline, ink_flatMap_newline, ink_rebase hunits,
      ink_blockContent, ink_blanks_append hunit, ink_openBrace, ink_append_closeBrace]
    simp
  · rw [hreflow]

/-! ## The pass -/

theorem IndentStyle.isBlank_of_mem_unit (style : IndentStyle) :
    ∀ c ∈ style.unit, isBlank c = true := by
  intro c hc
  rw [List.eq_of_mem_replicate hc]
  cases style.kind <;> decide

/-- Once its blocks are taken out of the productions, a rule is only respaced. -/
theorem Rule.respaced_indentBy {unit : Text} (hunit : ∀ c ∈ unit, isBlank c = true) {r : Rule}
    (h : r.Ordered) : r.liftActions.Respaced (r.indentBy unit) := by
  have hlifted := h.liftActions
  refine ⟨rfl, ?_, ?_, hunit, hunit⟩
  · refine map_ink_mapIdx (fun p => ?_) fun i p hp =>
      (indentProduction_succ hunit i (hlifted.piped p hp)).1
    exact ink_trim p
  · refine Rule.map_imprint fun a ha => a.imprint_setText ?_
    rw [List.cons_append, ink_newline, ink_blanks_append hunit, ink_reflowBlock hunit,
      (hlifted.framed a ha).ink_body]

/-- The indentation pass keeps the ink of a rule and lays it out. -/
theorem Rule.Ordered.indentBy {unit : Text} (hunit : ∀ c ∈ unit, isBlank c = true) {r : Rule}
    (h : r.Ordered) : ink (r.indentBy unit).render = ink r.render ∧ (r.indentBy unit).Laid := by
  have hlifted := h.liftActions
  have hrespaced := respaced_indentBy hunit h
  refine ⟨?_, hrespaced.ordered hlifted, fun q hq => ?_⟩
  · rw [hrespaced.ink_render hlifted, Rule.ink_render hlifted, Rule.ink_render h,
      Rule.bodyInk_liftActions]
    rfl
  · obtain ⟨i, p, hp, rfl⟩ := exists_of_mem_tail_mapIdx hq
    exact (indentProduction_succ hunit i (hlifted.piped p hp)).2

end GrammarLayout
