import GrammarLayout.Run.Collect

/-!
# The order of texts

Texts are compared byte by byte, as lists are.  Sorting puts each text that is
given once, so the result is strictly increasing and depends only on which texts
were given.

What is proved here:

* `before_iff_lt`, `notAfter_iff_le` — the bytewise order is the one of lists;
* `increasing_sortTexts`, `mem_sortTexts` — what sorting gives;
* `sortTexts_eq`, `sortTexts_congr` — sorting depends only on which texts are given.
-/

namespace GrammarLayout

open Text

namespace Text

theorem before_iff_lt (s t : Text) : before s t = true ↔ s < t := by
  induction s generalizing t with
  | nil => cases t <;> simp [before]
  | cons a s ih =>
    cases t with
    | nil => simp [before]
    | cons b t => simp [before, ih, List.cons_lt_cons_iff]

theorem notAfter_iff_le (s t : Text) : notAfter s t = true ↔ s ≤ t := by
  rw [notAfter, Bool.not_eq_true', ← Bool.not_eq_true, before_iff_lt, List.not_lt]

end Text

theorem nodup_eraseDups (ts : List Text) : ts.eraseDups.Nodup := by
  induction h : ts.length using Nat.strongRecOn generalizing ts with
  | _ n ih =>
    cases ts with
    | nil => simp
    | cons t ts =>
      have hshorter : (ts.filter fun u => !u == t).length < n := by
        rw [← h, List.length_cons]
        exact Nat.lt_succ_of_le (List.length_filter_le _ _)
      rw [List.eraseDups_cons, List.nodup_cons, List.mem_eraseDups, List.mem_filter]
      exact ⟨by simp, ih _ hshorter _ rfl⟩

theorem mem_sortTexts {ts : List Text} {t : Text} : t ∈ sortTexts ts ↔ t ∈ ts := by
  rw [sortTexts, List.mem_mergeSort, List.mem_eraseDups]

theorem nodup_sortTexts (ts : List Text) : (sortTexts ts).Nodup :=
  (List.mergeSort_perm _ _).nodup_iff.2 (nodup_eraseDups ts)

/-- Each text is less than all that follow it. -/
theorem increasing_sortTexts (ts : List Text) : (sortTexts ts).Pairwise (· < ·) := by
  have hsorted : (sortTexts ts).Pairwise fun s t => notAfter s t = true := by
    refine List.pairwise_mergeSort ?_ ?_ _
    · intro a b c hab hbc
      rw [notAfter_iff_le] at hab hbc ⊢
      exact List.le_trans hab hbc
    · intro a b
      rw [Bool.or_eq_true, notAfter_iff_le, notAfter_iff_le]
      exact List.le_total a b
  refine (hsorted.and (nodup_sortTexts ts)).imp fun {s t} h => ?_
  rw [notAfter_iff_le] at h
  exact List.not_le.1 fun hle => h.2 (List.le_antisymm h.1 hle)

/-- Increasing texts are determined by which they are, so this is what sorting gives. -/
theorem sortTexts_eq {ts us : List Text} (hus : us.Pairwise (· < ·)) (h : ∀ t, t ∈ ts ↔ t ∈ us) :
    sortTexts ts = us := by
  have hnodup : us.Nodup := by
    refine hus.imp fun hlt heq => ?_
    rw [heq] at hlt
    exact List.lt_irrefl _ hlt
  have hperm : (sortTexts ts).Perm us := by
    refine (List.perm_ext_iff_of_nodup (nodup_sortTexts ts) hnodup).2 fun t => ?_
    rw [mem_sortTexts, h]
  refine hperm.eq_of_pairwise (fun s t _ _ hst hts => ?_) (increasing_sortTexts ts) hus
  exact absurd (List.lt_trans hst hts) (List.lt_irrefl s)

/-- Sorting depends only on which texts are given. -/
theorem sortTexts_congr {ts us : List Text} (h : ∀ t, t ∈ ts ↔ t ∈ us) :
    sortTexts ts = sortTexts us :=
  sortTexts_eq (increasing_sortTexts us) fun t => by rw [mem_sortTexts, h]

end GrammarLayout
