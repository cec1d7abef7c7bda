import GrammarLayout.Proofs.Text.Lines

/-!
# The first lines of a text

A text read up to some line is a text of its own, with the same lines.  Two texts
are said to have the same first lines when these differ at most in the newline at
their end; a newline can only be missing at the end of a text.

What is proved here:

* `lines_firstLines` — the lines of the first lines of a text;
* `SameLines.exists_append` — a line of one text as it stands in another text with
  the same lines up to there.
-/

namespace GrammarLayout

namespace Text

open Ascii

/-- The text up to the end of its line `k`. -/
def firstLines (k : Nat) (s : Text) : Text := ((lines s).take k).flatten

/-- The first `k` lines of the two texts are the same, but that one of them may lack the newline at
its end. -/
def SameLines (k : Nat) (s t : Text) : Prop :=
  ((lines s).take k).map (dropEnd [newline]) = ((lines t).take k).map (dropEnd [newline])

instance (k : Nat) (s t : Text) : Decidable (SameLines k s t) :=
  inferInstanceAs (Decidable (_ = _))

theorem lines_firstLines (k : Nat) (s : Text) : lines (firstLines k s) = (lines s).take k := by
  unfold firstLines
  induction h : s.length using Nat.strongRecOn generalizing s k with
  | _ n ih =>
    cases k with
    | zero => rfl
    | succ k =>
      rcases exists_line_or (s := s) with hnone | ⟨a, b, ha, rfl⟩
      · by_cases hs : s = []
        · rw [hs]
          rfl
        · rw [lines_of_newline_notMem hnone hs]
          simp [lines_of_newline_notMem hnone hs]
      · have hb := ih b.length (by rw [← h]; simp; omega) k b rfl
        rw [lines_append_newline ha, List.take_succ_cons, List.flatten_cons, List.append_assoc,
          List.singleton_append, lines_append_newline ha, hb]

/-! ## The newline at the end of a line -/

theorem Ended.eq_of_dropEnd {l m : Text} (hl : Ended l) (hm : Ended m)
    (h : dropEnd [newline] l = dropEnd [newline] m) : l = m := by
  obtain ⟨a, rfl⟩ := hl
  obtain ⟨b, rfl⟩ := hm
  rw [dropEnd_concat, dropEnd_concat] at h
  rw [h]

theorem EndedLines.of_append {before after : List Text} {l : Text}
    (h : EndedLines (before ++ l :: after)) : ∀ k ∈ before, Ended k := by
  induction before with
  | nil => simp
  | cons k before ih =>
    rw [List.cons_append] at h
    cases hrest : before ++ l :: after with
    | nil => exact absurd hrest (by simp)
    | cons m rest =>
      rw [hrest] at h ih
      cases h with
      | cons hk hls => exact List.forall_mem_cons.2 ⟨hk, ih hls⟩

/-! ## Texts with the same first lines -/

/-- A line of a text stands behind the same lines in another text with the same first lines; there
it may have a newline that it lacks here, or lack one. -/
theorem SameLines.exists_append {s t : Text} {before after : List Text} {l : Text}
    (hs : lines s = before ++ l :: after) (h : SameLines (before.length + 1) s t) :
    ∃ l' after', lines t = before ++ l' :: after' ∧ trimTerminator l' = trimTerminator l := by
  have htake : (before ++ l :: after).take (before.length + 1) = before ++ [l] := by
    rw [List.take_length_add_append]
    rfl
  rw [SameLines, hs, htake, List.map_append] at h
  obtain ⟨before', rest, hsplit, hbefore, hrest⟩ := List.map_eq_append_iff.1 h.symm
  obtain ⟨l', rfl, hl⟩ : ∃ l', rest = [l'] ∧ dropEnd [newline] l' = dropEnd [newline] l := by
    obtain ⟨l', ls, rfl, hl, hnil⟩ := List.map_eq_cons_iff.1 hrest
    exact ⟨l', by rw [List.map_eq_nil_iff.1 hnil], hl⟩
  have ht : lines t = before' ++ l' :: (lines t).drop (before.length + 1) := by
    conv_lhs => rw [← List.take_append_drop (before.length + 1) (lines t), hsplit,
      List.append_assoc, List.singleton_append]
  have hended := (hs ▸ endedLines_lines s).of_append
  have hended' := (ht ▸ endedLines_lines t).of_append
  have heq : before' = before := by
    refine List.ext_getElem? fun i => ?_
    have hi := congrArg (·[i]?) hbefore
    simp only [List.getElem?_map] at hi
    cases hb : before[i]? with
    | none => simpa [hb] using hi
    | some k =>
      rw [hb, Option.map_some, Option.map_eq_some_iff] at hi
      obtain ⟨k', hk', heq⟩ := hi
      rw [hk', (hended' k' (List.mem_of_getElem? hk')).eq_of_dropEnd
        (hended k (List.mem_of_getElem? hb)) heq]
  refine ⟨l', _, heq ▸ ht, ?_⟩
  rw [← trimTerminator_dropEnd_newline l', hl, trimTerminator_dropEnd_newline]

end Text

end GrammarLayout
