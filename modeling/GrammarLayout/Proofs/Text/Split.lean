import GrammarLayout.Proofs.Text.Alphabet
import GrammarLayout.Proofs.Text.Ends

/-!
# Cutting a text at a byte

The parts of a text between separators hold no separator, and parts without a
separator are found again in the text joined from them.  The lines of a text
whose end is trimmed are those of the text, the last of them trimmed.

What is proved here:

* `splitOn_join`, `splitLines_flatMap_newline` — what was joined is cut into its
  parts;
* `exists_splitLines_append` — the lines of two texts, one behind the other;
* `mem_splitLines_trimEndWhile` — the lines of a text without its end.
-/

namespace GrammarLayout

namespace Text

open Ascii

/-! ## Parts -/

theorem notMem_of_mem_splitOn {sep : UInt8} {s q : Text} (h : q ∈ splitOn sep s) : sep ∉ q := by
  induction s generalizing q with
  | nil =>
    obtain rfl : q = [] := by simpa [splitOn] using h
    simp
  | cons c s ih =>
    obtain ⟨p, ps, hps⟩ := List.exists_cons_of_ne_nil (splitOn_ne_nil sep s)
    rw [splitOn, hps] at h
    rw [hps] at ih
    split at h
    · rcases List.mem_cons.1 h with rfl | h
      · simp
      · exact ih h
    · rename_i hc
      rcases List.mem_cons.1 h with rfl | h
      · exact List.not_mem_cons_of_ne_of_not_mem (Ne.symm hc) (ih List.mem_cons_self)
      · exact ih (List.mem_cons_of_mem p h)

theorem splitOn_join {sep : UInt8} {ps : List Text} (hne : ps ≠ []) (h : ∀ p ∈ ps, sep ∉ p) :
    splitOn sep (join [sep] ps) = ps := by
  induction ps with
  | nil => exact absurd rfl hne
  | cons p ps ih =>
    have hp := h p List.mem_cons_self
    by_cases hps : ps = []
    · rw [hps]
      exact splitOn_of_notMem hp
    · rw [join_cons hps, List.append_assoc, List.singleton_append, splitOn_append_cons,
        splitOn_of_notMem hp, ih hps fun q hq => h q (List.mem_cons_of_mem p hq)]
      rfl

/-! ## Lines -/

theorem splitLines_append_newline (a b : Text) :
    splitLines (a ++ newline :: b) = splitLines a ++ splitLines b := splitOn_append_cons newline a b

theorem splitLines_of_notMem {a : Text} (h : newline ∉ a) : splitLines a = [a] :=
  splitOn_of_notMem h

theorem newline_notMem_of_mem_splitLines {s l : Text} (h : l ∈ splitLines s) : newline ∉ l :=
  notMem_of_mem_splitOn h

theorem splitLines_joinLines {ls : List Text} (hne : ls ≠ []) (h : ∀ l ∈ ls, newline ∉ l) :
    splitLines (joinLines ls) = ls := splitOn_join hne h

theorem splitLines_ne_nil (s : Text) : splitLines s ≠ [] := splitOn_ne_nil newline s

/-- Lines that are ended one by one are found again. -/
theorem splitLines_flatMap_newline {ls : List Text} (h : ∀ l ∈ ls, newline ∉ l) (s : Text) :
    splitLines (ls.flatMap (· ++ [newline]) ++ s) = ls ++ splitLines s := by
  induction ls with
  | nil => rfl
  | cons l ls ih =>
    rw [List.flatMap_cons, List.append_assoc, List.append_assoc, List.singleton_append,
      splitLines_append_newline, splitLines_of_notMem (h l List.mem_cons_self),
      ih fun k hk => h k (List.mem_cons_of_mem l hk)]
    rfl

theorem joinLines_cons {ls : List Text} (h : ls ≠ []) (l : Text) :
    joinLines (l :: ls) = l ++ newline :: joinLines ls := by
  rw [joinLines, join_cons h, List.append_assoc]
  rfl

theorem joinLines_concat {ls : List Text} (h : ls ≠ []) (l : Text) :
    joinLines (ls ++ [l]) = joinLines ls ++ newline :: l := by
  induction ls with
  | nil => exact absurd rfl h
  | cons k ls ih =>
    by_cases hls : ls = []
    · rw [hls]
      simp [joinLines, join]
    · rw [List.cons_append, joinLines_cons (by simp), ih hls, joinLines_cons hls]
      simp

/-- The last line of a text stands at its end. -/
theorem exists_joinLines_concat (ls : List Text) (l : Text) :
    ∃ front, joinLines (ls ++ [l]) = front ++ l := by
  by_cases hls : ls = []
  · exact ⟨[], by rw [hls]; rfl⟩
  · exact ⟨joinLines ls ++ [newline], by rw [joinLines_concat hls, List.append_assoc]; rfl⟩

theorem exists_joinLines_cons (l : Text) (ls : List Text) :
    ∃ back, joinLines (l :: ls) = l ++ back := by
  by_cases hls : ls = []
  · exact ⟨[], by rw [hls, List.append_nil]; rfl⟩
  · exact ⟨[newline] ++ joinLines ls, by rw [joinLines, join_cons hls, List.append_assoc]; rfl⟩

/-- A text starts with the first byte of its first line. -/
theorem head?_joinLines {l : Text} (hl : l ≠ []) (ls : List Text) :
    (joinLines (l :: ls)).head? = l.head? := by
  obtain ⟨c, t, rfl⟩ := List.exists_cons_of_ne_nil hl
  obtain ⟨back, hback⟩ := exists_joinLines_cons (c :: t) ls
  rw [hback]
  rfl

theorem splitLines_newline_cons (s : Text) : splitLines (newline :: s) = [] :: splitLines s := rfl

/-- A byte in front of a text stands in its first line. -/
theorem splitLines_cons {c : UInt8} (hc : c ≠ newline) {s l : Text} {ls : List Text}
    (hs : splitLines s = l :: ls) : splitLines (c :: s) = (c :: l) :: ls := by
  rw [splitLines] at hs
  rw [splitLines, splitOn, if_neg hc, hs]

/-- A byte behind a text stands in its last line. -/
theorem splitLines_concat {c : UInt8} (hc : c ≠ newline) {s x : Text} {init : List Text}
    (hs : splitLines s = init ++ [x]) : splitLines (s ++ [c]) = init ++ [x ++ [c]] := by
  have hlines : ∀ l ∈ init ++ [x], newline ∉ l := fun l hl =>
    newline_notMem_of_mem_splitLines (by rwa [hs])
  have hjoin : s ++ [c] = joinLines (init ++ [x ++ [c]]) := by
    rw [← joinLines_splitLines s, hs]
    by_cases hinit : init = []
    · rw [hinit]
      rfl
    · rw [joinLines_concat hinit, joinLines_concat hinit, List.append_assoc, List.cons_append]
  rw [List.forall_mem_append, List.forall_mem_singleton] at hlines
  rw [hjoin, splitLines_joinLines (by simp)]
  refine List.forall_mem_append.2 ⟨hlines.1, List.forall_mem_singleton.2 fun hmem => ?_⟩
  rcases List.mem_append.1 hmem with hmem | hmem
  exacts [hlines.2 hmem, hc (List.mem_singleton.1 hmem).symm]

theorem mem_joinLines {c : UInt8} {ls : List Text} (h : c ∈ joinLines ls) :
    c = newline ∨ ∃ l ∈ ls, c ∈ l := by
  have hjoin : Over (fun c => c = newline ∨ ∃ l ∈ ls, c ∈ l) (joinLines ls) :=
    over_join (fun c hc => Or.inl (List.mem_singleton.1 hc))
      fun l hl c hc => Or.inr ⟨l, hl, hc⟩
  exact hjoin c h

/-- Where two texts meet, the last line of one and the first line of the other are one line. -/
theorem exists_splitLines_append (s t : Text) : ∃ ls l m ms, splitLines s = ls ++ [l] ∧
    splitLines t = m :: ms ∧ splitLines (s ++ t) = ls ++ (l ++ m) :: ms := by
  obtain ⟨m, ms, ht⟩ := List.exists_cons_of_ne_nil (splitLines_ne_nil t)
  induction s with
  | nil => exact ⟨[], [], m, ms, rfl, ht, ht⟩
  | cons c s ih =>
    obtain ⟨ls, l, m', ms', hs, ht', hst⟩ := ih
    obtain ⟨rfl, rfl⟩ := List.cons.inj (ht.symm.trans ht')
    by_cases hc : c = newline
    · subst hc
      refine ⟨[] :: ls, l, m, ms, ?_, ht, ?_⟩
      · rw [splitLines_newline_cons, hs]
        rfl
      · rw [List.cons_append, splitLines_newline_cons, hst]
        rfl
    · cases ls with
      | nil => exact ⟨[], c :: l, m, ms, splitLines_cons hc hs, ht, splitLines_cons hc hst⟩
      | cons n ls =>
        exact ⟨(c :: n) :: ls, l, m, ms, splitLines_cons hc hs, ht, splitLines_cons hc hst⟩

theorem splitLines_append {s t l m : Text} {ls ms : List Text} (hs : splitLines s = ls ++ [l])
    (ht : splitLines t = m :: ms) : splitLines (s ++ t) = ls ++ (l ++ m) :: ms := by
  obtain ⟨ls', l', m', ms', hs', ht', hst⟩ := exists_splitLines_append s t
  obtain ⟨rfl, hlast⟩ := List.append_inj' (hs.symm.trans hs') rfl
  obtain ⟨rfl, rfl⟩ := List.cons.inj (ht.symm.trans ht')
  obtain rfl := List.head_eq_of_cons_eq hlast
  exact hst

/-- A text with a newline has a first and a last line. -/
theorem exists_splitLines_of_newline_mem {s : Text} (h : newline ∈ s) :
    ∃ first between last, splitLines s = first :: (between ++ [last]) := by
  obtain ⟨x, y, rfl⟩ := List.append_of_mem h
  obtain ⟨first, ls, hx⟩ := List.exists_cons_of_ne_nil (splitLines_ne_nil x)
  obtain ⟨ms, last, hy⟩ := (List.eq_nil_or_concat _).resolve_left (splitLines_ne_nil y)
  refine ⟨first, ls ++ ms, last, ?_⟩
  rw [splitLines_append_newline, hx, hy, List.concat_eq_append, List.cons_append, List.append_assoc]

/-- A line of a text whose end is trimmed is a line of the text, or the last one, trimmed. -/
theorem mem_splitLines_trimEndWhile {p : UInt8 → Bool} {s l : Text}
    (h : l ∈ splitLines (trimEndWhile p s)) :
    l ∈ splitLines s ∨ ∃ m ∈ splitLines s, l = trimEndWhile p m := by
  obtain ⟨w, hs, hw⟩ := exists_trimEndWhile p s
  obtain ⟨ls, last, m, ms, hkept, hcut, hboth⟩ := exists_splitLines_append (trimEndWhile p s) w
  rw [← hs] at hboth
  rw [hkept, List.mem_append, List.mem_singleton] at h
  rw [hboth]
  rcases h with h | rfl
  · exact Or.inl (List.mem_append_left _ h)
  · refine Or.inr ⟨l ++ m, by simp, ?_⟩
    have hm : ∀ c ∈ m, p c = true := by
      intro c hc
      obtain ⟨back, hback⟩ := exists_joinLines_cons m ms
      rw [← hcut, joinLines_splitLines] at hback
      exact hw c (hback ▸ List.mem_append_left back hc)
    rw [trimEndWhile_append_of_forall hm]
    obtain ⟨front, hfront⟩ := exists_joinLines_concat ls l
    rw [← hkept, joinLines_splitLines] at hfront
    have htrimmed := trimEndWhile_trimEndWhile p s
    rw [hfront] at htrimmed
    by_cases hl : trimEndWhile p l = []
    · -- Nothing of the last line is left, so it was cut off as a whole.
      rw [trimEndWhile_append_of_forall (trimEndWhile_eq_nil_iff.1 hl)] at htrimmed
      obtain ⟨cut, hcut, -⟩ := exists_trimEndWhile p front
      have hlen := congrArg List.length htrimmed
      have hlen' := congrArg List.length hcut
      rw [List.length_append] at hlen hlen'
      rw [hl]
      exact List.length_eq_zero_iff.1 (by omega)
    · rw [trimEndWhile_append_of_ne_nil hl] at htrimmed
      exact (List.append_cancel_left htrimmed).symm

end Text

end GrammarLayout
