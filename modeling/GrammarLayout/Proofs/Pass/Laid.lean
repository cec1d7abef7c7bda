import GrammarLayout.Proofs.Grammar.Ink

/-!
# Rules that differ in white space

A pass rewrites the productions and the blocks of a rule one by one.  When each
of them keeps its ink, the rule keeps its ink too, and its blocks stay in order.

What is proved here:

* `Rule.Respaced.ink_render` — a rule whose parts differ from those of another
  in white space only is written with the same ink;
* `Rule.Respaced.ordered` — its blocks are in order when those of the other are;
* `Rule.Laid` — what the indentation pass establishes and the later passes
  rely on: every production but the first starts with a pipe behind blanks;
* `Document.mapRules_kept`, `Document.Laid.mapRules` — a pass that respaces every
  rule respaces a document.
-/

namespace GrammarLayout

open Ascii Text

/-! ## The first byte that is no blank -/

namespace Text

/-- The first byte that is no blank. -/
def firstSign (s : Text) : Option UInt8 := s.find? fun c => !isBlank c

theorem firstSign_blanks_append {w : Text} (hw : ∀ c ∈ w, isBlank c = true) (s : Text) :
    firstSign (w ++ s) = firstSign s := by
  have hnone : w.find? (fun c => !isBlank c) = none := by
    rw [List.find?_eq_none]
    intro c hc
    simp [hw c hc]
  rw [firstSign, List.find?_append, hnone, Option.none_or, firstSign]

theorem firstSign_cons {c : UInt8} (hc : isBlank c = false) (s : Text) :
    firstSign (c :: s) = some c := by
  simp [firstSign, hc]

theorem firstSign_append {s : Text} {c : UInt8} (h : firstSign s = some c) (t : Text) :
    firstSign (s ++ t) = some c := by
  rw [firstSign, List.find?_append, ← firstSign, h, Option.some_or]

theorem firstSign_eq_some {s : Text} {c : UInt8} (h : firstSign s = some c) :
    ∃ w rest, s = w ++ c :: rest ∧ (∀ b ∈ w, isBlank b = true) ∧ isBlank c = false := by
  obtain ⟨hc, w, rest, hs, hw⟩ := List.find?_eq_some_iff_append.1 h
  exact ⟨w, rest, hs, by simpa using hw, by simpa using hc⟩

/-- A sign other than `c` in front of `c` is in front of everything that precedes `c`. -/
theorem firstSign_of_append_cons {s t : Text} {b c : UInt8} (h : firstSign (s ++ c :: t) = some b)
    (hc : isBlank c = false) (hne : c ≠ b) : firstSign s = some b := by
  rw [firstSign, List.find?_append, ← firstSign] at h
  cases hs : firstSign s with
  | none =>
    rw [hs, Option.none_or, ← firstSign, firstSign_cons hc, Option.some.injEq] at h
    exact absurd h hne
  | some d =>
    rw [hs, Option.some_or] at h
    exact h

theorem firstSign_trimBlanksEnd (s : Text) : firstSign (trimBlanksEnd s) = firstSign s := by
  have hs : s = trimBlanksEnd s ++ (s.reverse.takeWhile isBlank).reverse := by
    rw [trimBlanksEnd, trimEndWhile, ← List.reverse_append, List.takeWhile_append_dropWhile,
      List.reverse_reverse]
  have hnone : (s.reverse.takeWhile isBlank).reverse.find? (fun c => !isBlank c) = none := by
    rw [List.find?_eq_none]
    intro c hc
    simp [List.mem_takeWhile_imp (List.mem_reverse.1 hc)]
  conv => rhs; rw [hs]
  rw [firstSign, firstSign, List.find?_append, hnone, Option.or_none]

end Text

/-! ## Rules -/

/-- What a block contributes to the ink of its rule: its production and its ink. -/
def Action.imprint (a : Action) : Int × Text := (a.owner, ink a.text)

namespace Rule

/-- The ink of the blocks of production `i`, from the imprints of all blocks. -/
theorem blocksInk_blocks (r : Rule) (i : Int) :
    blocksInk (r.blocks i)
      = ((r.actions.map Action.imprint).filter fun m => m.1 = i).flatMap Prod.snd := by
  rw [List.filter_map, List.flatMap_map, blocksInk, blocks]
  rfl

/-- The rule `r'` is `r` with other white space. -/
structure Respaced (r r' : Rule) : Prop where
  /-- The name is the same. -/
  name : r'.name = r.name
  /-- The productions have the same ink. -/
  productions : r'.productions.map ink = r.productions.map ink
  /-- The blocks follow the same productions and have the same ink. -/
  actions : r'.actions.map Action.imprint = r.actions.map Action.imprint
  /-- The first production is indented by blanks. -/
  productionIndent : ∀ c ∈ r'.productionIndent, isBlank c = true
  /-- The semicolon is indented by blanks. -/
  terminatorIndent : ∀ c ∈ r'.terminatorIndent, isBlank c = true

/-- Every block has the imprint of a block of the other rule. -/
theorem exists_imprint {r r' : Rule}
    (h : r'.actions.map Action.imprint = r.actions.map Action.imprint) :
    ∀ a ∈ r'.actions, ∃ b ∈ r.actions, b.owner = a.owner ∧ ink b.text = ink a.text := by
  intro a ha
  have himprint : a.imprint ∈ r.actions.map Action.imprint := by
    rw [← h]
    exact List.mem_map_of_mem ha
  obtain ⟨b, hb, heq⟩ := List.mem_map.1 himprint
  exact ⟨b, hb, congrArg Prod.fst heq, congrArg Prod.snd heq⟩

/-- A rule with the same blocks, up to white space, and as many productions has its blocks in order
too. -/
theorem Ordered.of_imprints {r r' : Rule} (hr : r.Ordered)
    (hactions : r'.actions.map Action.imprint = r.actions.map Action.imprint)
    (hlen : r'.productions.length = r.productions.length)
    (hpiped : ∀ p ∈ r'.productions.tail, hasPipe p = true)
    (hproduction : ∀ c ∈ r'.productionIndent, isBlank c = true)
    (hterminator : ∀ c ∈ r'.terminatorIndent, isBlank c = true) : r'.Ordered := by
  refine ⟨?_, ?_, ?_, ?_, hpiped, hproduction, hterminator⟩
  · have hsorted : (r'.actions.map Action.imprint).Pairwise fun m n => m.1 ≤ n.1 := by
      rw [hactions, List.pairwise_map]
      exact hr.sorted
    rwa [List.pairwise_map] at hsorted
  all_goals
    intro a ha
    obtain ⟨b, hb, howner, hink⟩ := exists_imprint hactions a ha
  · exact howner ▸ hr.lower b hb
  · rw [hlen]
    exact howner ▸ hr.upper b hb
  · have := hr.framed b hb
    rwa [Action.Framed, hink] at this

theorem bodyInk_eq (r : Rule) :
    r.bodyInk = blocksInk (r.blocks (-1))
      ++ (r.productions.map ink).zipIdx.flatMap fun p => p.1 ++ blocksInk (r.blocks p.2) := by
  rw [bodyInk, List.zipIdx_map, List.flatMap_map]
  rfl

namespace Respaced

variable {r r' r'' : Rule}

theorem bodyInk (h : Respaced r r') : r'.bodyInk = r.bodyInk := by
  have hblocks : ∀ i, blocksInk (r'.blocks i) = blocksInk (r.blocks i) := by
    intro i
    rw [blocksInk_blocks, blocksInk_blocks, h.actions]
  rw [bodyInk_eq, bodyInk_eq, h.productions]
  simp only [hblocks]

theorem ordered (h : Respaced r r') (hr : r.Ordered) : r'.Ordered := by
  have hlen : r'.productions.length = r.productions.length := by
    simpa using congrArg List.length h.productions
  refine hr.of_imprints h.actions hlen (fun p hp => ?_) h.productionIndent h.terminatorIndent
  have hink : ink p ∈ (r.productions.map ink).tail := by
    rw [← h.productions, ← List.map_tail]
    exact List.mem_map_of_mem hp
  rw [← List.map_tail] at hink
  obtain ⟨q, hq, heq⟩ := List.mem_map.1 hink
  have := hr.piped q hq
  rwa [hasPipe_iff, heq, ← hasPipe_iff] at this

theorem ink_render (h : Respaced r r') (hr : r.Ordered) : ink r'.render = ink r.render := by
  rw [Rule.ink_render (h.ordered hr), Rule.ink_render hr, h.name, h.bodyInk]

end Respaced

/-- The rule has its blocks in order, and the pipe of every production but the first stands behind
blanks only. -/
structure Laid (r : Rule) : Prop extends r.Ordered where
  /-- The first byte of a later production that is no blank is a pipe. -/
  pipes : ∀ p ∈ r.productions.tail, firstSign p = some pipe

end Rule

/-! ## Productions by number -/

/-- Productions that are rewritten by number, the first one without its ink being changed, and the
later ones with the ink of `g`. -/
theorem map_ink_mapIdx_eq {f : Nat → Text → Text} {g : Text → Text} {l : List Text}
    (hfirst : ∀ p, ink (f 0 p) = ink p)
    (hlater : ∀ i, ∀ p ∈ l.tail, ink (f (i + 1) p) = ink (g p)) :
    (l.mapIdx f).map ink = (l.take 1 ++ l.tail.map g).map ink := by
  cases l with
  | nil => rfl
  | cons p l =>
    rw [List.mapIdx_cons, List.map_cons, hfirst, List.take_succ_cons, List.take_zero,
      List.tail_cons, List.cons_append, List.nil_append, List.map_cons]
    congr 1
    refine List.ext_getElem (by simp) fun i h₁ h₂ => ?_
    have hi : i < l.length := by simpa using h₂
    simpa using hlater i l[i] (List.getElem_mem hi)

/-- Productions that are rewritten by number keep their ink when the first one does and every later
one does. -/
theorem map_ink_mapIdx {f : Nat → Text → Text} {l : List Text} (hfirst : ∀ p, ink (f 0 p) = ink p)
    (hlater : ∀ i, ∀ p ∈ l.tail, ink (f (i + 1) p) = ink p) :
    (l.mapIdx f).map ink = l.map ink := by
  rw [map_ink_mapIdx_eq (g := id) hfirst hlater, List.map_id, ← List.drop_one,
    List.take_append_drop]

theorem exists_of_mem_tail_mapIdx {f : Nat → Text → Text} {l : List Text} {q : Text}
    (h : q ∈ (l.mapIdx f).tail) : ∃ i, ∃ p ∈ l.tail, q = f (i + 1) p := by
  cases l with
  | nil => simp at h
  | cons p l =>
    rw [List.mapIdx_cons, List.tail_cons] at h
    obtain ⟨i, hi, heq⟩ := List.getElem_of_mem h
    have hi' : i < l.length := by simpa using hi
    exact ⟨i, l[i], List.getElem_mem hi', by rw [← heq]; simp⟩

theorem mapIdx_mapIdx_eq_self {f : Nat → Text → Text} (hf : ∀ i p, f i (f i p) = f i p)
    (l : List Text) : (l.mapIdx f).mapIdx f = l.mapIdx f := by
  rw [List.mapIdx_mapIdx]
  congr 1
  funext i p
  exact hf i p

/-! ## Documents -/

/-- All rules are laid out, and every entry but perhaps the last ends with a newline. -/
structure Document.Laid (d : Document) : Prop where
  /-- Every rule is laid out. -/
  rules : ∀ r, .rule r ∈ d.entries → r.Laid
  /-- Only the last entry may lack its newline. -/
  ended : EndedEntries d.entries

theorem EndedEntries.map_mapRule {es : List Entry} (h : EndedEntries es) (f : Rule → Rule) :
    EndedEntries (es.map (Entry.mapRule f)) := by
  unfold EndedEntries at h ⊢
  induction es with
  | nil => exact .nil
  | cons e es ih =>
    have hfirst : Ended e.render → Ended (e.mapRule f).render := by
      cases e with
      | verbatim v => exact id
      | rule r => exact fun _ => (f r).ended_render
    cases es with
    | nil => exact .last _
    | cons e' es =>
      cases h with
      | cons he hes => exact .cons (hfirst he) (ih hes)

/-- Passes that give every rule the same ink give the document the same ink. -/
theorem Document.ink_mapRules_congr {f g : Rule → Rule} {d : Document} (h : EndedEntries d.entries)
    (hfg : ∀ r, .rule r ∈ d.entries → ink (f r).render = ink (g r).render) :
    ink (d.mapRules f).render = ink (d.mapRules g).render := by
  have hentry : ∀ e ∈ d.entries, ink (e.mapRule f).render = ink (e.mapRule g).render := by
    intro e he
    cases e with
    | verbatim v => rfl
    | rule r => exact hfg r he
  rw [Document.ink_render (d := d.mapRules f) (h.map_mapRule f),
    Document.ink_render (d := d.mapRules g) (h.map_mapRule g), entriesInk, entriesInk,
    Document.mapRules, Document.mapRules, List.flatMap_map, List.flatMap_map, List.flatMap_def,
    List.flatMap_def, List.map_congr_left hentry]

theorem Document.mapRules_id (d : Document) : d.mapRules id = d := by
  have hid : Entry.mapRule id = id := by
    funext e
    cases e <;> rfl
  rw [mapRules, hid, List.map_id]

theorem Document.mapRules_comp (f g : Rule → Rule) (d : Document) :
    (d.mapRules f).mapRules g = d.mapRules (g ∘ f) := by
  rw [mapRules, mapRules, mapRules, List.map_map]
  congr 2
  funext e
  cases e <;> rfl

/-- A pass that keeps the ink of every rule keeps the ink of the document. -/
theorem Document.ink_mapRules {f : Rule → Rule} {d : Document} (h : EndedEntries d.entries)
    (hf : ∀ r, .rule r ∈ d.entries → ink (f r).render = ink r.render) :
    ink (d.mapRules f).render = ink d.render := by
  rw [ink_mapRules_congr (g := id) h hf, mapRules_id]

theorem Document.rule_mem_mapRules {f : Rule → Rule} {d : Document} {r' : Rule}
    (h : .rule r' ∈ (d.mapRules f).entries) : ∃ r, .rule r ∈ d.entries ∧ r' = f r := by
  obtain ⟨e, he, heq⟩ := List.mem_map.1 h
  cases e with
  | verbatim v => simp [Entry.mapRule] at heq
  | rule r => exact ⟨r, he, by simpa [Entry.mapRule] using heq.symm⟩

/-- A change of rules that is idempotent on the rules of a document is idempotent on the document. -/
theorem Document.mapRules_mapRules {f : Rule → Rule} {d : Document}
    (hf : ∀ r, .rule r ∈ d.entries → f (f r) = f r) :
    (d.mapRules f).mapRules f = d.mapRules f := by
  rw [mapRules, mapRules, List.map_map]
  congr 1
  refine List.map_congr_left fun e he => ?_
  cases e with
  | verbatim v => rfl
  | rule r => exact congrArg Entry.rule (hf r he)

/-- A pass that respaces every rule does so for the document, and keeps what it keeps of a rule. -/
theorem Document.mapRules_kept {P : Rule → Prop} (hordered : ∀ r, P r → r.Ordered)
    {f : Rule → Rule} (hf : ∀ r, P r → r.Respaced (f r) ∧ P (f r)) {d : Document}
    (hrules : ∀ r, .rule r ∈ d.entries → P r) (hended : EndedEntries d.entries) :
    (∀ r, .rule r ∈ (d.mapRules f).entries → P r) ∧ EndedEntries (d.mapRules f).entries ∧
      ink (d.mapRules f).render = ink d.render := by
  refine ⟨?_, hended.map_mapRule f, ?_⟩
  · intro r' hr'
    obtain ⟨r, hr, rfl⟩ := rule_mem_mapRules hr'
    exact (hf r (hrules r hr)).2
  · apply ink_mapRules hended
    intro r hr
    exact (hf r (hrules r hr)).1.ink_render (hordered r (hrules r hr))

theorem Document.Laid.mapRules {f : Rule → Rule} {d : Document} (h : d.Laid)
    (hf : ∀ r : Rule, r.Laid → r.Respaced (f r) ∧ (f r).Laid) :
    (d.mapRules f).Laid ∧ ink (d.mapRules f).render = ink d.render := by
  obtain ⟨hrules, hended, hink⟩ := mapRules_kept (fun _ => Rule.Laid.toOrdered) hf h.rules h.ended
  exact ⟨⟨hrules, hended⟩, hink⟩

end GrammarLayout
