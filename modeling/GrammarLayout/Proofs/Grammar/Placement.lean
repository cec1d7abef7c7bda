import GrammarLayout.Proofs.Pass.Indent

/-!
# Where actions are written

A rule is written with one cursor that moves over its actions while the productions
are written.  An action stays behind the cursor until the production it belongs to
has been written, so an action that belongs to a later production holds up those
behind it, and one that belongs to no production at all is written behind the last.

What is proved here:

* `Rule.renderFrom_settle` — a rule is written as if each action belonged to the
  production it is written after;
* `Rule.flatMap_filter_owner` — actions in the order of their productions, taken
  production by production;
* `Rule.render_places` — every production and every action is written once, and where.
-/

namespace GrammarLayout

open Ascii Text

namespace Rule

/-- The production that action `k` is written after; -1 when it is written after the header. -/
def place (r : Rule) (k : Nat) : Int :=
  min (r.productions.length - 1) (((r.actions.take (k + 1)).map Action.owner).foldl max (-1))

/-- The actions of a rule, each as one of the production it is written after. -/
def settled (r : Rule) : List Action :=
  r.actions.mapIdx fun k a => { a with owner := r.place k }

/-! ## The cursor -/

/-- Actions with their owners raised to those before them and to `high`, then lowered to `last`. -/
def settle (last : Int) : Int → List Action → List Action
  | _, [] => []
  | high, a :: as =>
      { a with owner := min last (max high a.owner) } :: settle last (max high a.owner) as

section Settle

variable {last high : Int} {as : List Action}

theorem getElem?_settle (k : Nat) : (settle last high as)[k]? = as[k]?.map fun a =>
    { a with owner := min last (((as.take (k + 1)).map Action.owner).foldl max high) } := by
  induction as generalizing high k with
  | nil => rfl
  | cons a as ih =>
    cases k with
    | zero => rfl
    | succ k =>
      rw [settle, List.getElem?_cons_succ, ih]
      rfl

theorem settled_eq_settle (r : Rule) :
    r.settled = settle (r.productions.length - 1) (-1) r.actions := by
  refine List.ext_getElem? fun k => ?_
  rw [settled, List.getElem?_mapIdx, getElem?_settle]
  rfl

theorem actionTexts_settle : actionTexts (settle last high as) = actionTexts as := by
  induction as generalizing high with
  | nil => rfl
  | cons a as ih =>
    unfold actionTexts at ih ⊢
    rw [settle, List.flatMap_cons, List.flatMap_cons, ih]

theorem owner_of_mem_settle {a : Action} (h : a ∈ settle last high as) :
    min last high ≤ a.owner ∧ a.owner ≤ last := by
  induction as generalizing high with
  | nil => cases h
  | cons b as ih =>
    rw [settle, List.mem_cons] at h
    rcases h with rfl | h
    · constructor <;> simp only <;> omega
    · have := ih h
      omega

theorem sorted_settle : (settle last high as).Pairwise fun a b => a.owner ≤ b.owner := by
  induction as generalizing high with
  | nil => exact List.Pairwise.nil
  | cons a as ih => exact List.pairwise_cons.2 ⟨fun b hb => (owner_of_mem_settle hb).1, ih⟩

/-- Before the last production the cursor stops at the same action. -/
theorem exists_settle {i : Int} (hlast : i < last) (hhigh : high ≤ i) (as : List Action) :
    ∃ high' ≤ i,
    (settle last high as).takeWhile (·.owner ≤ i) = settle last high (as.takeWhile (·.owner ≤ i)) ∧
    (settle last high as).dropWhile (·.owner ≤ i)
      = settle last high' (as.dropWhile (·.owner ≤ i)) := by
  induction as generalizing high with
  | nil => exact ⟨high, hhigh, rfl, rfl⟩
  | cons a as ih =>
    by_cases ha : a.owner ≤ i
    · have hplaced : min last (max high a.owner) ≤ i := by omega
      obtain ⟨high', hle, htake, hdrop⟩ := ih (Int.max_le.2 ⟨hhigh, ha⟩)
      refine ⟨high', hle, ?_, ?_⟩
      · rw [settle, List.takeWhile_cons_of_pos (by simpa using hplaced), htake,
          List.takeWhile_cons_of_pos (by simpa using ha), settle]
      · rw [settle, List.dropWhile_cons_of_pos (by simpa using hplaced), hdrop,
          List.dropWhile_cons_of_pos (by simpa using ha)]
    · have hplaced : ¬ min last (max high a.owner) ≤ i := by omega
      refine ⟨high, hhigh, ?_, ?_⟩
      · rw [settle, List.takeWhile_cons_of_neg (by simpa using hplaced),
          List.takeWhile_cons_of_neg (by simpa using ha), settle]
      · rw [settle, List.dropWhile_cons_of_neg (by simpa using hplaced),
          List.dropWhile_cons_of_neg (by simpa using ha), settle]

end Settle

/-- Productions are written with the same actions behind each of them, whether an action belongs to
the production it is written after or is only held up until then. -/
theorem renderFrom_settle (r : Rule) {ps : List Text} (hne : ps ≠ []) {i : Nat} {high last : Int}
    (hlast : last = i + ps.length - 1) (hhigh : high ≤ i) (as : List Action) :
    r.renderFrom i ps (settle last high as) = r.renderFrom i ps as := by
  induction ps generalizing i high as with
  | nil => exact absurd rfl hne
  | cons p ps ih =>
    by_cases hps : ps = []
    · -- Behind the last production all that is left is written.
      subst hps
      have hall : ∀ a ∈ settle last high as, decide (a.owner ≤ (i : Int)) = true := by
        intro a ha
        have hle := (owner_of_mem_settle ha).2
        rw [hlast, List.length_singleton] at hle
        simp only [decide_eq_true_eq]
        omega
      have htake := List.takeWhile_eq_self_iff.2 hall
      have hdrop := List.dropWhile_eq_nil_iff.2 hall
      rw [renderFrom, renderFrom, htake, hdrop, renderFrom, renderFrom, actionTexts_settle,
        List.append_assoc, List.append_assoc, actionTexts_takeWhile_append]
      exact congrArg _ (List.append_nil _)
    · have hlen : 0 < ps.length := List.length_pos_iff.2 hps
      rw [List.length_cons] at hlast
      obtain ⟨high', hle, htake, hdrop⟩ :=
        exists_settle (show (i : Int) < last by omega) hhigh as
      conv_rhs => rw [renderFrom]
      rw [renderFrom, htake, hdrop, actionTexts_settle,
        ih hps (by push_cast at hlast ⊢; omega) (by push_cast; omega)]

/-! ## Actions by production -/

/-- Actions in the order of their productions, taken production by production. -/
theorem flatMap_filter_owner (n : Nat) (i : Int) {as : List Action}
    (hs : as.Pairwise fun a b => a.owner ≤ b.owner) (hl : ∀ a ∈ as, i ≤ a.owner)
    (hu : ∀ a ∈ as, a.owner < i + n) :
    (List.range n).flatMap (fun k : Nat => as.filter fun a => a.owner = i + k) = as := by
  induction n generalizing i as with
  | zero =>
    have hnil : as = [] := by
      refine List.eq_nil_iff_forall_not_mem.2 fun a ha => ?_
      have h₁ := hl a ha
      have h₂ := hu a ha
      omega
    rw [hnil]
    rfl
  | succ n ih =>
    have hrest := ih (i + 1) (hs.filter (fun a => i < a.owner))
      (fun a ha => by
        simp only [List.mem_filter, decide_eq_true_eq] at ha
        omega)
      (fun a ha => by
        have := hu a (List.mem_filter.1 ha).1
        omega)
    have hlater : ∀ k : Nat, (as.filter fun a => i < a.owner).filter (fun a => a.owner = i + 1 + k)
        = as.filter fun a => a.owner = i + (k + 1 : Nat) := by
      intro k
      rw [List.filter_filter]
      refine List.filter_congr fun a _ => ?_
      rw [Bool.and_eq_decide, decide_eq_decide, decide_eq_true_eq, decide_eq_true_eq]
      omega
    simp only [hlater] at hrest
    have hfirst : (as.filter fun a => a.owner = i + (0 : Nat))
        = as.filter fun a => a.owner = i := by
      simp
    rw [List.range_succ_eq_map, List.flatMap_cons, List.flatMap_map, hrest, hfirst,
      ← takeWhile_owner hs i hl, ← dropWhile_owner hs i hl, List.takeWhile_append_dropWhile]

/-! ## The text of a rule -/

section Settled

variable (r : Rule)

theorem sorted_settled : r.settled.Pairwise fun a b => a.owner ≤ b.owner := by
  rw [settled_eq_settle]
  exact sorted_settle

/-- An action is written after the header or after a production of the rule. -/
theorem owner_of_mem_settled {a : Action} (h : a ∈ r.settled) :
    -1 ≤ a.owner ∧ a.owner < r.productions.length := by
  rw [settled_eq_settle] at h
  have := owner_of_mem_settle h
  omega

theorem actionTexts_settled : actionTexts r.settled = actionTexts r.actions := by
  rw [settled_eq_settle, actionTexts_settle]

/-- A rule is its header, every production with the actions written after it, and its end. -/
theorem render_eq_settled : r.render
    = r.header ++ actionTexts (r.settled.filter fun a => a.owner = -1)
      ++ r.productions.zipIdx.flatMap (r.productionText r.settled) ++ r.terminator := by
  have hlower := fun a (ha : a ∈ r.settled) => (r.owner_of_mem_settled ha).1
  have hupper := fun a (ha : a ∈ r.settled) => (r.owner_of_mem_settled ha).2
  rw [← takeWhile_owner r.sorted_settled (-1) hlower,
    ← r.renderFrom_eq_flatMap_of_sorted r.sorted_settled hlower hupper, render]
  by_cases hps : r.productions = []
  · -- Without productions the cursor stops nowhere.
    rw [hps, renderFrom, renderFrom, List.append_assoc r.header _ (actionTexts _),
      List.append_assoc r.header _ (actionTexts _), actionTexts_takeWhile_append,
      actionTexts_takeWhile_append, actionTexts_settled]
  · have hlen : 0 < r.productions.length := List.length_pos_iff.2 hps
    obtain ⟨high, hhigh, htake, hdrop⟩ := exists_settle
      (show -1 < (r.productions.length : Int) - 1 by omega) (Int.le_refl (-1)) r.actions
    rw [settled_eq_settle, htake, hdrop, actionTexts_settle,
      renderFrom_settle r hps (by omega) (by omega)]

/-- The actions written after the header and after each production are all actions, in order. -/
theorem settled_by_production : (r.settled.filter fun a => a.owner = -1)
    ++ (List.range r.productions.length).flatMap (fun i : Nat =>
      r.settled.filter fun a => a.owner = (i : Int)) = r.settled := by
  have hall := flatMap_filter_owner (r.productions.length + 1) (-1) r.sorted_settled
    (fun a ha => (r.owner_of_mem_settled ha).1)
    (fun a ha => by
      have := (r.owner_of_mem_settled ha).2
      push_cast
      omega)
  have hfirst : (-1 : Int) + (0 : Nat) = -1 := rfl
  have hnext : ∀ i : Nat, (-1 : Int) + (i + 1 : Nat) = i := fun i => by omega
  rw [List.range_succ_eq_map, List.flatMap_cons, List.flatMap_map] at hall
  simpa only [hfirst, hnext] using hall

/-- A production is written with white space and a pipe in front at most. -/
theorem exists_productionLine_eq (i : Nat) (p : Text) : ∃ front back,
    r.productionLine i p = front ++ trim p ++ back ∧ isSpaces back = true ∧
      (front = r.productionIndent ∨ front = r.productionIndent ++ bytes "| " ∨
        isSpaces front = true) := by
  unfold productionLine
  split_ifs
  · exact ⟨r.productionIndent, [], by simp, rfl, Or.inl rfl⟩
  · obtain ⟨front, back, hline, hfront, hback, -⟩ := trim_split (trimBlanksEnd p)
    rw [trim_trimBlanksEnd] at hline
    exact ⟨front, back, by rw [List.append_assoc, ← hline], hback, Or.inr (Or.inr hfront)⟩
  · exact ⟨r.productionIndent ++ bytes "| ", [], by simp, rfl, Or.inr (Or.inl rfl)⟩

end Settled

/-- An inserted action stands behind actions of earlier productions only; where the actions are in
the order of their productions it stands in front of all others. -/
theorem exists_insertOwned (a : Action) (as : List Action) : ∃ before after,
    as = before ++ after ∧ insertOwned a as = before ++ a :: after ∧
      (∀ b ∈ before, b.owner < a.owner) ∧
      (as.Pairwise (fun b c => b.owner ≤ c.owner) →
        (∀ b ∈ after, a.owner ≤ b.owner) ∧
        (before ++ a :: after).Pairwise fun b c => b.owner ≤ c.owner) := by
  refine ⟨as.takeWhile (·.owner < a.owner), as.dropWhile (·.owner < a.owner),
    List.takeWhile_append_dropWhile.symm, rfl, fun b hb => ?_, fun hs => ?_⟩
  · have := List.mem_takeWhile_imp hb
    simpa using this
  · have hsorted := sorted_insertOwned a hs
    exact ⟨(List.pairwise_cons.1 (List.pairwise_append.1 hsorted).2.1).1, hsorted⟩

/-- The text of a rule is its header, then each production on a line of its own, then its end.  An
action is written after the latest production that it or an action in front of it belongs to, the
last one at most; so the actions written after the header and after the productions, one group after
the other, are the actions of the rule in their order.  An action is inserted in front of those of
the same or a later production, if the actions are in the order of their productions, and leaves
them so. -/
theorem render_places (r : Rule) :
    r.render = r.header ++ actionTexts (r.settled.filter fun a => a.owner = -1)
      ++ r.productions.zipIdx.flatMap (r.productionText r.settled) ++ r.terminator ∧
    (r.settled.filter fun a => a.owner = -1)
      ++ (List.range r.productions.length).flatMap (fun i : Nat =>
        r.settled.filter fun a => a.owner = (i : Int)) = r.settled ∧
    (∀ i p, ∃ front back, r.productionLine i p = front ++ trim p ++ back ∧ isSpaces back = true ∧
      (front = r.productionIndent ∨ front = r.productionIndent ++ bytes "| " ∨
        isSpaces front = true)) ∧
    ∀ a, ∃ before after, r.actions = before ++ after ∧
      r.insertAction a = { r with actions := before ++ a :: after } ∧
      (∀ b ∈ before, b.owner < a.owner) ∧
      (r.actions.Pairwise (fun b c => b.owner ≤ c.owner) →
        (∀ b ∈ after, a.owner ≤ b.owner) ∧
        (before ++ a :: after).Pairwise fun b c => b.owner ≤ c.owner) := by
  refine ⟨r.render_eq_settled, r.settled_by_production, r.exists_productionLine_eq, fun a => ?_⟩
  obtain ⟨before, after, hactions, hinsert, hbefore, hafter⟩ := exists_insertOwned a r.actions
  exact ⟨before, after, hactions, by rw [insertAction, hinsert], hbefore, hafter⟩

/-- The first action belongs to the second production and holds up the action of the first; what
belongs to no production comes last.  An action of the second production goes between those of the
first and the third. -/
theorem render_places_heldUp :
    (⟨bytes "a", 1, [bytes "b", bytes "| c", bytes "| d"],
      [⟨bytes " \x7bx\x7d", 1, 2⟩, ⟨bytes " \x7by\x7d", 0, 3⟩, ⟨bytes " \x7bz\x7d", 7, 4⟩],
      true, 0, bytes "  ", bytes "  "⟩ : Rule).render
        = bytes "a :\n  b\n| c \x7bx\x7d \x7by\x7d\n| d \x7bz\x7d\n  ;\n" ∧
    ∃ before after : List Action,
      [⟨bytes " \x7bx\x7d", 0, 2⟩, ⟨bytes " \x7bz\x7d", 2, 4⟩] = before ++ after ∧
      (before ++ ⟨bytes " \x7by\x7d", 1, 0⟩ :: after).Pairwise fun b c => b.owner ≤ c.owner := by
  refine ⟨(render_places _).1.trans (by decide +kernel), ?_⟩
  obtain ⟨before, after, hactions, -, -, hsorted⟩ := (render_places
    ⟨bytes "a", 1, [bytes "b", bytes "| c", bytes "| d"],
      [⟨bytes " \x7bx\x7d", 0, 2⟩, ⟨bytes " \x7bz\x7d", 2, 4⟩],
      true, 0, bytes "  ", bytes "  "⟩).2.2.2 ⟨bytes " \x7by\x7d", 1, 0⟩
  exact ⟨before, after, hactions, (hsorted (by decide)).2⟩

end Rule

end GrammarLayout
