import GrammarLayout.Proofs.Grammar.Cut
import GrammarLayout.Proofs.Grammar.Ink
import GrammarLayout.Proofs.Text.Split

/-!
# Lines around an action

An action is written behind its production and the earlier actions of the same
production.  What is written around its text does not depend on it, so the lines
of a document are those in front of the block, those of the block, and those
behind it, with the first and the last line of the block shared.

What is proved here:

* `Rule.Ordered.exists_render_around` — what is written around an action;
* `Document.ActionPlace.splitLines_render` — the lines of a document around one
  of its actions.
-/

namespace GrammarLayout

open Ascii Text

/-! ## Around an action -/

namespace Rule

/-- A rule with its actions in the order of their productions is written production by
production. -/
theorem render_of_sorted {r : Rule} (hsorted : (r.actions.map Action.owner).Pairwise (· ≤ ·))
    (howners : ∀ i ∈ r.actions.map Action.owner, -1 ≤ i ∧ i < r.productions.length) : r.render
      = r.header ++ actionTexts (r.actions.filter fun a => a.owner = -1)
        ++ r.productions.zipIdx.flatMap (r.productionText r.actions) ++ r.terminator := by
  rw [List.pairwise_map] at hsorted
  rw [List.forall_mem_map] at howners
  have hlower := fun a ha => (howners a ha).1
  rw [← takeWhile_owner hsorted (-1) hlower,
    ← r.renderFrom_eq_flatMap_of_sorted hsorted hlower fun a ha => (howners a ha).2, render]

section Around

variable {earlier later : List Action} {a : Action}

/-- An action plays no part in what is written with other productions than its own. -/
theorem flatMap_productionText_of_ne (r : Rule) {ps : List (Text × Nat)}
    (h : ∀ p ∈ ps, a.owner ≠ p.2) : ps.flatMap (r.productionText (earlier ++ a :: later))
      = ps.flatMap (r.productionText (earlier ++ later)) := by
  have hp : ∀ p ∈ ps, r.productionText (earlier ++ a :: later) p
      = r.productionText (earlier ++ later) p := by
    intro p hp
    unfold productionText
    rw [List.filter_append, List.filter_cons_of_neg (by simpa using h p hp), ← List.filter_append]
  rw [List.flatMap_def, List.flatMap_def, List.map_congr_left hp]

/-- Productions are written around the text of an action, which stands behind its production and
the earlier actions of the same production. -/
theorem flatMap_productionText_around (r : Rule) {before after : List Text} {p : Text}
    (ha : a.owner = before.length) :
    (before ++ p :: after).zipIdx.flatMap (r.productionText (earlier ++ a :: later))
      = before.zipIdx.flatMap (r.productionText (earlier ++ later))
        ++ newline :: (r.productionLine before.length p
          ++ actionTexts (earlier.filter fun b => b.owner = (before.length : Int))) ++ a.text
        ++ (actionTexts (later.filter fun b => b.owner = (before.length : Int))
          ++ (after.zipIdx (before.length + 1)).flatMap (r.productionText (earlier ++ later))) := by
  have hbefore : ∀ q ∈ before.zipIdx, a.owner ≠ q.2 := fun q hq => by
    have := List.snd_lt_of_mem_zipIdx hq
    omega
  have hafter : ∀ q ∈ after.zipIdx (before.length + 1), a.owner ≠ q.2 := fun q hq => by
    have := List.le_snd_of_mem_zipIdx hq
    omega
  have hown : r.productionText (earlier ++ a :: later) (p, before.length)
      = newline :: (r.productionLine before.length p
        ++ actionTexts (earlier.filter fun b => b.owner = (before.length : Int))) ++ a.text
        ++ actionTexts (later.filter fun b => b.owner = (before.length : Int)) := by
    unfold productionText actionTexts
    rw [List.filter_append, List.filter_cons_of_pos (by simpa using ha)]
    simp
  rw [List.zipIdx_append, Nat.zero_add, List.zipIdx_cons, List.flatMap_append, List.flatMap_cons,
    r.flatMap_productionText_of_ne hbefore, r.flatMap_productionText_of_ne hafter, hown]
  simp only [List.append_assoc]

/-- What is written around the text of an action does not depend on it. -/
theorem Ordered.exists_render_around {r : Rule} (h : r.Ordered)
    (ha : r.actions = earlier ++ a :: later) {i : Nat} (hi : a.owner = i) :
    ∃ p front back, r.productions[i]? = some p ∧ ∀ text,
      { r with actions := earlier ++ { a with text := text } :: later }.render
        = front ++ newline :: (r.productionLine i p
            ++ actionTexts (earlier.filter fun b => b.owner = (i : Int))) ++ text ++ back := by
  have hlt : i < r.productions.length := by
    have := h.upper a (by rw [ha]; simp)
    omega
  obtain ⟨before, p, after, hps, rfl⟩ : ∃ before p after,
      r.productions = before ++ p :: after ∧ before.length = i :=
    ⟨r.productions.take i, r.productions[i], r.productions.drop (i + 1), by simp,
      List.length_take_of_le hlt.le⟩
  refine ⟨p, r.header ++ actionTexts ((earlier ++ later).filter fun b => b.owner = -1)
      ++ before.zipIdx.flatMap (r.productionText (earlier ++ later)),
    actionTexts (later.filter fun b => b.owner = (before.length : Int))
      ++ (after.zipIdx (before.length + 1)).flatMap (r.productionText (earlier ++ later))
      ++ r.terminator, by rw [hps]; simp, fun text => ?_⟩
  set b : Action := { a with text := text } with hb
  have hbowner : b.owner = before.length := hi
  -- With the other text the actions have the owners they had.
  have howners : (earlier ++ b :: later).map Action.owner = r.actions.map Action.owner := by
    simp [ha, hb]
  have hrender : Rule.render { r with actions := earlier ++ b :: later }
      = r.header ++ actionTexts ((earlier ++ b :: later).filter fun c => c.owner = -1)
        ++ r.productions.zipIdx.flatMap (r.productionText (earlier ++ b :: later))
        ++ r.terminator := by
    refine render_of_sorted ?_ ?_
    · rw [howners]
      exact List.pairwise_map.2 h.sorted
    · rw [howners]
      exact List.forall_mem_map.2 fun c hc => ⟨h.lower c hc, h.upper c hc⟩
  have hheader : (earlier ++ b :: later).filter (fun c => c.owner = -1)
      = (earlier ++ later).filter fun c => c.owner = -1 := by
    rw [List.filter_append, List.filter_cons_of_neg (by simp [hbowner]), ← List.filter_append]
  have htext : b.text = text := rfl
  rw [hrender, hheader, hps, r.flatMap_productionText_around hbowner, htext]
  simp only [List.append_assoc]

end Around

end Rule

/-! ## Lines -/

/-- The lines that a text has around and in a block of several lines. -/
structure BlockLines where
  /-- The lines above that of the opening brace. -/
  above : List Text
  /-- What stands in front of the opening brace on its line. -/
  opening : Text
  /-- What the block has on that line. -/
  first : Text
  /-- The lines between the first and the last of the block. -/
  between : List Text
  /-- What the block has on its last line. -/
  last : Text
  /-- What stands behind the block on that line. -/
  tail : Text
  /-- The lines below. -/
  below : List Text

namespace BlockLines

/-- The lines of the whole text. -/
def written (ls : BlockLines) : List Text :=
  ls.above ++ (ls.opening ++ ls.first) :: (ls.between ++ (ls.last ++ ls.tail) :: ls.below)

/-- The indentation of the line that holds the opening brace. -/
def indent (ls : BlockLines) : Text := leadingBlanks (ls.opening ++ ls.first)

end BlockLines

/-! ## Places of actions -/

/-- An action of a document, with what stands in front of it and behind it. -/
structure Document.ActionPlace (d : Document) where
  /-- The entries above the rule. -/
  before : List Entry
  /-- The rule that the action belongs to. -/
  rule : Rule
  /-- The entries below the rule. -/
  after : List Entry
  /-- The actions in front of it. -/
  earlier : List Action
  /-- The action. -/
  action : Action
  /-- The actions behind it. -/
  later : List Action
  /-- These are the entries of the document. -/
  entries_eq : d.entries = before ++ .rule rule :: after
  /-- These are the actions of the rule. -/
  actions_eq : rule.actions = earlier ++ action :: later

namespace Document.ActionPlace

variable {d : Document} (q : d.ActionPlace)

/-- The document with another text for the action. -/
def withText (text : Text) : Document :=
  ⟨q.before ++ .rule { q.rule with
    actions := q.earlier ++ { q.action with text := text } :: q.later } :: q.after⟩

/-- The text of the action stands between `front` and `back`, whatever it is. -/
def WrittenBetween (front back : Text) : Prop :=
  ∀ text, (q.withText text).render = front ++ text ++ back

/-- The action is the first one of its production. -/
def IsFirst : Prop := ∀ a ∈ q.earlier, a.owner ≠ q.action.owner

/-- The lines that the document has around and in the action. -/
def HasLines (ls : BlockLines) : Prop :=
  ∃ front back, q.WrittenBetween front back ∧
    splitLines (front ++ q.action.lead) = ls.above ++ [ls.opening] ∧
    splitLines q.action.body = ls.first :: (ls.between ++ [ls.last]) ∧
    splitLines back = ls.tail :: ls.below

theorem withText_text : q.withText q.action.text = d := by
  rw [withText, ← q.actions_eq, ← q.entries_eq]

theorem mem_entries : .rule q.rule ∈ d.entries := by
  rw [q.entries_eq]
  simp

theorem mem_actions : q.action ∈ q.rule.actions := by
  rw [q.actions_eq]
  simp

/-- Changing actions leaves the first one of a production the first. -/
theorem IsFirst.of_map {q : d.ActionPlace} {d' : Document} {q' : d'.ActionPlace}
    {f : Action → Action} (h : q'.IsFirst) (hf : ∀ a, (f a).owner = a.owner)
    (hearlier : q'.earlier = q.earlier.map f) (haction : q'.action = f q.action) : q.IsFirst := by
  intro a ha
  have hmem : f a ∈ q'.earlier := by
    rw [hearlier]
    exact List.mem_map_of_mem ha
  have hne := h (f a) hmem
  rwa [hf, haction, hf] at hne

/-- The lines of the document are the lines around and in the action. -/
theorem splitLines_render {ls : BlockLines} (h : q.HasLines ls) :
    splitLines d.render = ls.written := by
  obtain ⟨front, back, htext, hfront, hbody, hback⟩ := h
  have hwhole : d.render = front ++ q.action.lead ++ (q.action.body ++ back) := by
    conv_lhs => rw [← q.withText_text, htext, ← q.action.lead_append_body]
    simp only [List.append_assoc]
  rw [← List.cons_append] at hbody
  rw [hwhole, splitLines_append hfront (splitLines_append hbody hback)]
  rfl

/-- In front of an action stands its production, with the earlier actions of the same production. -/
theorem exists_writtenBetween (h : q.rule.Ordered) {i : Nat} (hi : q.action.owner = i) :
    ∃ p front back, q.rule.productions[i]? = some p ∧
      q.WrittenBetween (front ++ newline :: (q.rule.productionLine i p
        ++ Rule.actionTexts (q.earlier.filter fun a => a.owner = (i : Int)))) back := by
  obtain ⟨p, front, back, hp, haround⟩ := h.exists_render_around q.actions_eq hi
  refine ⟨p, q.before.flatMap Entry.render ++ front, back ++ q.after.flatMap Entry.render, hp,
    fun text => ?_⟩
  simp only [withText, Document.render, List.flatMap_append, List.flatMap_cons, Entry.render,
    haround text, List.append_assoc]

end Document.ActionPlace

end GrammarLayout
