import GrammarLayout.Proofs.Text.Ink

/-!
# The bytes and the lines of a text

Trimming and cutting a text only takes bytes away, and a visible ASCII byte is
never taken away together with white space.  A text is cut into lines at its
newlines and nowhere else.

What is proved here:

* `mem_of_mem_trim`, `mem_of_mem_ink`, … — what is left of a text stood in it;
* `count_ink` — deleting white space keeps every visible ASCII byte;
* `lines_append_newline`, `lines_append`, `lines_flatten` — the lines of a text put
  together from lines;
* `trimTerminator_of_mem_lines` — what is left of a line without its terminator;
* `newline_notMem_trimTerminator` — a line has no newline before its end.
-/

namespace GrammarLayout

namespace Text

open Ascii

/-! ## What is left of a text -/

theorem mem_of_mem_trim {c : UInt8} {s : Text} (h : c ∈ trim s) : c ∈ s := by
  obtain ⟨w₁, w₂, hs, -⟩ := trim_split s
  rw [hs]
  exact List.mem_append_right _ (List.mem_append_left _ h)

theorem mem_of_mem_trimEndWhile {p : UInt8 → Bool} {c : UInt8} {s : Text}
    (h : c ∈ trimEndWhile p s) : c ∈ s := by
  rw [trimEndWhile, List.mem_reverse] at h
  exact List.mem_reverse.1 ((List.dropWhile_sublist p).subset h)

theorem exists_trimEndWhile (p : UInt8 → Bool) (s : Text) :
    ∃ w, s = trimEndWhile p s ++ w ∧ ∀ c ∈ w, p c = true := by
  refine ⟨(s.reverse.takeWhile p).reverse, ?_, fun c hc => ?_⟩
  · rw [trimEndWhile, ← List.reverse_append, List.takeWhile_append_dropWhile, List.reverse_reverse]
  · exact List.mem_takeWhile_imp (List.mem_reverse.1 hc)

/-- What is trimmed ends behind the last byte that stays. -/
theorem trimEndWhile_append_cons {p : UInt8 → Bool} {c : UInt8} (hc : p c = false) (s t : Text) :
    trimEndWhile p (s ++ c :: t) = s ++ c :: trimEndWhile p t := by
  have hrev : (s ++ c :: t).reverse = t.reverse ++ c :: s.reverse := by simp
  rw [trimEndWhile, hrev, List.dropWhile_append]
  split
  · rename_i hempty
    rw [List.isEmpty_iff] at hempty
    simp [trimEndWhile, hempty, hc]
  · simp [trimEndWhile]

theorem trimEndWhile_concat {p : UInt8 → Bool} {c : UInt8} (hc : p c = false) (s : Text) :
    trimEndWhile p (s ++ [c]) = s ++ [c] := trimEndWhile_append_cons hc s []

theorem trimEndWhile_eq_nil_iff {p : UInt8 → Bool} {s : Text} :
    trimEndWhile p s = [] ↔ ∀ c ∈ s, p c = true := by
  rw [trimEndWhile, List.reverse_eq_nil_iff, List.dropWhile_eq_nil_iff]
  simp

theorem trimEndWhile_congr {p q : UInt8 → Bool} {s : Text} (h : ∀ c ∈ s, p c = q c) :
    trimEndWhile p s = trimEndWhile q s := by
  have hdrop : ∀ t : Text, (∀ c ∈ t, p c = q c) → t.dropWhile p = t.dropWhile q := by
    intro t ht
    induction t with
    | nil => rfl
    | cons c t ih =>
      rw [List.forall_mem_cons] at ht
      rw [List.dropWhile_cons, List.dropWhile_cons, ht.1, ih ht.2]
  rw [trimEndWhile, trimEndWhile, hdrop s.reverse fun c hc => h c (List.mem_reverse.1 hc)]

theorem mem_of_mem_dropEnd {c : UInt8} {t s : Text} (h : c ∈ dropEnd t s) : c ∈ s := by
  unfold dropEnd at h
  split at h
  · exact List.mem_of_mem_take h
  · exact h

theorem dropEnd_concat (c : UInt8) (t : Text) : dropEnd [c] (t ++ [c]) = t := by
  rw [dropEnd, if_pos (endsWith_singleton_iff.2 ⟨t, rfl⟩)]
  simp

theorem mem_of_mem_dropStart {c : UInt8} {t s : Text} (h : c ∈ dropStart t s) : c ∈ s := by
  unfold dropStart at h
  split at h
  · exact List.mem_of_mem_drop h
  · exact h

theorem mem_of_mem_ink {c : UInt8} {s : Text} (h : c ∈ ink s) : c ∈ s := by
  obtain ⟨r, hr, hc⟩ := List.mem_flatMap.1 h
  rw [← ofPieces_pieces s]
  exact List.mem_flatMap.2 ⟨r, (List.mem_filter.1 hr).1, hc⟩

/-- Deleting white space keeps every visible ASCII byte. -/
theorem count_ink {c : UInt8} (hc : c < 0x80) (hv : isWhiteSpace c.toNat = false) (s : Text) :
    (ink s).count c = s.count c := by
  induction h : s.length using Nat.strongRecOn generalizing s with
  | _ n ih =>
    by_cases hmem : c ∈ s
    · obtain ⟨a, b, rfl⟩ := List.append_of_mem hmem
      rw [List.length_append, List.length_cons] at h
      rw [ink_append_ascii_cons hc, ink_visible_cons hc hv, List.count_append, List.count_append,
        List.count_cons, List.count_cons, ih a.length (by omega) a rfl,
        ih b.length (by omega) b rfl]
    · rw [List.count_eq_zero.2 hmem, List.count_eq_zero.2 fun hink => hmem (mem_of_mem_ink hink)]

theorem newline_notMem_of_blanks {w : Text} (hw : ∀ c ∈ w, isBlank c = true) : newline ∉ w :=
  fun hmem => absurd (hw newline hmem) (by decide)

/-! ## Lines -/

/-- A newline ends the first line. -/
theorem lines_append_newline {a : Text} (ha : newline ∉ a) (b : Text) :
    lines (a ++ newline :: b) = (a ++ [newline]) :: lines b := by
  induction a with
  | nil => rfl
  | cons c a ih =>
    rw [List.mem_cons, not_or] at ha
    rw [List.cons_append, lines, if_neg (Ne.symm ha.1), ih ha.2]
    rfl

theorem lines_of_newline_notMem {a : Text} (ha : newline ∉ a) (hne : a ≠ []) : lines a = [a] := by
  induction a with
  | nil => exact absurd rfl hne
  | cons c a ih =>
    rw [List.mem_cons, not_or] at ha
    rw [lines, if_neg (Ne.symm ha.1)]
    by_cases hnil : a = []
    · rw [hnil]
      rfl
    · rw [ih ha.2 hnil]

/-- A text is cut in two behind each newline. -/
theorem exists_line_or {s : Text} :
    newline ∉ s ∨ ∃ a b, newline ∉ a ∧ s = a ++ newline :: b := by
  by_cases h : newline ∈ s
  · obtain ⟨a, b, hs, ha⟩ := List.eq_append_cons_of_mem h
    exact Or.inr ⟨a, b, ha, hs⟩
  · exact Or.inl h

/-- The lines of a text that ends with a newline come before the lines of what follows. -/
theorem lines_append {a : Text} (ha : Ended a) (b : Text) : lines (a ++ b) = lines a ++ lines b := by
  obtain ⟨a, rfl⟩ := ha
  induction h : a.length using Nat.strongRecOn generalizing a with
  | _ n ih =>
    rcases exists_line_or (s := a) with hnone | ⟨l, rest, hl, rfl⟩
    · rw [List.append_assoc, List.singleton_append, lines_append_newline hnone,
        lines_append_newline hnone]
      rfl
    · have hrest := ih rest.length (by rw [← h, List.length_append, List.length_cons]; omega) rest rfl
      simp only [List.append_assoc, List.cons_append, lines_append_newline hl] at hrest ⊢
      rw [hrest]

/-- Lines put together are found again. -/
theorem lines_flatten {ls : List Text} (h : ∀ l ∈ ls, ∃ a, newline ∉ a ∧ l = a ++ [newline]) :
    lines ls.flatten = ls := by
  induction ls with
  | nil => rfl
  | cons l ls ih =>
    obtain ⟨a, ha, rfl⟩ := h l List.mem_cons_self
    rw [List.flatten_cons, List.append_assoc, List.singleton_append, lines_append_newline ha,
      ih fun k hk => h k (List.mem_cons_of_mem _ hk)]

/-- A line of a text has no newline but the one at its end. -/
theorem exists_of_mem_lines {s l : Text} (h : l ∈ lines s) :
    ∃ a, newline ∉ a ∧ (l = a ∨ l = a ++ [newline]) := by
  induction hn : s.length using Nat.strongRecOn generalizing s with
  | _ n ih =>
    rcases exists_line_or (s := s) with hnone | ⟨a, rest, ha, rfl⟩
    · by_cases hs : s = []
      · rw [hs] at h
        simp [lines] at h
      · rw [lines_of_newline_notMem hnone hs, List.mem_singleton] at h
        exact ⟨s, hnone, Or.inl h⟩
    · rw [lines_append_newline ha, List.mem_cons] at h
      rcases h with rfl | h
      · exact ⟨a, ha, Or.inr rfl⟩
      · refine ih rest.length ?_ h rfl
        rw [List.length_append, List.length_cons] at hn
        omega

theorem trimTerminator_concat_newline (s : Text) :
    trimTerminator (s ++ [newline]) = trimTerminator s := by
  simp [trimTerminator, trimEndWhile]

theorem not_ended_of_newline_notMem {l : Text} (h : newline ∉ l) : ¬ Ended l := by
  rintro ⟨t, rfl⟩
  exact h (List.mem_append_right t (List.mem_singleton_self newline))

theorem dropEnd_newline_of_notEnded {l : Text} (h : ¬ Ended l) : dropEnd [newline] l = l := by
  rw [dropEnd, if_neg]
  rwa [endsWith_singleton_iff]

theorem trimTerminator_dropEnd_newline (l : Text) :
    trimTerminator (dropEnd [newline] l) = trimTerminator l := by
  by_cases hl : Ended l
  · obtain ⟨a, rfl⟩ := hl
    rw [dropEnd_concat, trimTerminator_concat_newline]
  · rw [dropEnd_newline_of_notEnded hl]

/-- A line loses its newline, and the carriage returns in front of it. -/
theorem trimTerminator_of_mem_lines {s l : Text} (h : l ∈ lines s) :
    trimTerminator l = trimEndWhile (· == carriageReturn) (dropEnd [newline] l) := by
  have hkept : ∀ a : Text, newline ∉ a →
      trimTerminator a = trimEndWhile (· == carriageReturn) a := by
    intro a ha
    refine trimEndWhile_congr fun c hc => ?_
    have hne : c ≠ newline := fun h => ha (h ▸ hc)
    simp [hne]
  rw [← trimTerminator_dropEnd_newline]
  obtain ⟨a, ha, rfl | rfl⟩ := exists_of_mem_lines h
  · rw [dropEnd_newline_of_notEnded (not_ended_of_newline_notMem ha), hkept l ha]
  · rw [dropEnd_concat, hkept a ha]

/-- A line without its terminator has no newline. -/
theorem newline_notMem_trimTerminator {s l : Text} (h : l ∈ lines s) :
    newline ∉ trimTerminator l := by
  obtain ⟨a, ha, rfl | rfl⟩ := exists_of_mem_lines h
  · exact fun hmem => ha (mem_of_mem_trimEndWhile hmem)
  · rw [trimTerminator_concat_newline]
    exact fun hmem => ha (mem_of_mem_trimEndWhile hmem)

end Text

end GrammarLayout
