import GrammarLayout.Proofs.Grammar.Blocks

/-!
# Braces outside literals

A closing brace is stray when the text in front of it, literals apart, has no
open brace left for it to close.

What is proved here:

* `unquotedFrom_append` — the bytes outside literals of a text in two halves;
* `straysFrom_iff` — a stray brace is found by following the depth, so it is
  decidable whether there is one;
* `hasStrayBrace_append_iff` — a stray brace stands in the first half or behind
  it; white space at the ends of a text makes no difference.
-/

namespace GrammarLayout

open Ascii Text

/-! ## Bytes outside literals -/

/-- The bytes of a text that are read outside literals, from state `q` on. -/
def unquotedFrom (q : Quoting) : Text → Text
  | [] => []
  | c :: s => (if q = .code then [c] else []) ++ unquotedFrom (q.next c) s

/-- The bytes of a text outside its literals. -/
def unquoted (s : Text) : Text := unquotedFrom .code s

@[simp] theorem unquotedFrom_nil (q : Quoting) : unquotedFrom q [] = [] := rfl

theorem unquotedFrom_append (q : Quoting) (s t : Text) :
    unquotedFrom q (s ++ t) = unquotedFrom q s ++ unquotedFrom (q.after s) t := by
  induction s generalizing q with
  | nil => rfl
  | cons c s ih =>
    rw [List.cons_append, unquotedFrom, ih, unquotedFrom, Quoting.after_cons, List.append_assoc]

theorem unquotedFrom_sublist (q : Quoting) (s : Text) : (unquotedFrom q s).Sublist s := by
  induction s generalizing q with
  | nil => exact List.Sublist.slnil
  | cons c s ih =>
    rw [unquotedFrom]
    split_ifs
    · exact (ih _).cons_cons c
    · exact (ih _).cons c

/-- A text without braces leaves the depth as it is. -/
theorem braceBalance_unquotedFrom_of_neutral (q : Quoting) {w : Text}
    (hw : ∀ c ∈ w, isNeutral c = true) : braceBalance (unquotedFrom q w) = 0 := by
  have hnone : ∀ b, isNeutral b = false → b ∉ unquotedFrom q w := fun b hb hmem => by
    rw [hw b ((unquotedFrom_sublist q w).subset hmem)] at hb
    exact absurd hb (by decide)
  rw [braceBalance, List.count_eq_zero_of_not_mem (hnone openBrace (by decide)),
    List.count_eq_zero_of_not_mem (hnone closeBrace (by decide))]
  rfl

/-! ## Stray braces -/

/-- Some part of the text from its start closes more braces than it opens, literals apart. -/
def HasStrayBrace (s : Text) : Prop := ∃ t, t <+: s ∧ braceBalance (unquoted t) < 0

/-- What one byte that is read in state `q` adds to the depth. -/
def byteDepth (q : Quoting) (c : UInt8) : Int := if q = .code then braceBalance [c] else 0

theorem braceBalance_unquotedFrom_cons (q : Quoting) (c : UInt8) (s : Text) :
    braceBalance (unquotedFrom q (c :: s))
      = byteDepth q c + braceBalance (unquotedFrom (q.next c) s) := by
  rw [unquotedFrom, braceBalance_append, byteDepth]
  split_ifs <;> rfl

/-- Does the depth fall below zero on a text that is read from state `q` at depth `depth`? -/
def straysFrom (q : Quoting) (depth : Int) : Text → Bool
  | [] => depth < 0
  | c :: s => depth < 0 || straysFrom (q.next c) (depth + byteDepth q c) s

theorem straysFrom_iff {q : Quoting} {d : Int} {s : Text} :
    straysFrom q d s = true ↔ ∃ t, t <+: s ∧ d + braceBalance (unquotedFrom q t) < 0 := by
  induction s generalizing q d with
  | nil => simp [straysFrom]
  | cons c s ih =>
    have hbyte : ∀ t, d + braceBalance (unquotedFrom q (c :: t))
        = d + byteDepth q c + braceBalance (unquotedFrom (q.next c) t) := by
      intro t
      rw [braceBalance_unquotedFrom_cons]
      omega
    rw [straysFrom, Bool.or_eq_true, decide_eq_true_eq, ih]
    constructor
    · rintro (hd | ⟨t, ht, hlt⟩)
      · exact ⟨[], List.nil_prefix, by simpa using hd⟩
      · exact ⟨c :: t, List.cons_prefix_cons.2 ⟨rfl, ht⟩, by rwa [hbyte]⟩
    · rintro ⟨t, ht, hlt⟩
      cases t with
      | nil => exact Or.inl (by simpa using hlt)
      | cons b t =>
        obtain ⟨rfl, hts⟩ := List.cons_prefix_cons.1 ht
        exact Or.inr ⟨t, hts, by rwa [← hbyte]⟩

theorem hasStrayBrace_iff {s : Text} : HasStrayBrace s ↔ straysFrom .code 0 s = true := by
  rw [straysFrom_iff]
  simp [HasStrayBrace, unquoted]

instance : DecidablePred HasStrayBrace := fun _ => decidable_of_iff' _ hasStrayBrace_iff

theorem HasStrayBrace.mono {s t : Text} (h : HasStrayBrace s) (hst : s <+: t) :
    HasStrayBrace t := by
  obtain ⟨u, hu, hlt⟩ := h
  exact ⟨u, hu.trans hst, hlt⟩

/-- A stray brace of a text in two halves stands in the first half, or the second half closes more
than the first leaves open. -/
theorem hasStrayBrace_append_iff {s t : Text} : HasStrayBrace (s ++ t) ↔ HasStrayBrace s ∨
    ∃ u, u <+: t ∧ braceBalance (unquoted s)
      + braceBalance (unquotedFrom (Quoting.code.after s) u) < 0 := by
  have hboth : ∀ u, braceBalance (unquoted (s ++ u)) = braceBalance (unquoted s)
      + braceBalance (unquotedFrom (Quoting.code.after s) u) := by
    intro u
    rw [unquoted, unquotedFrom_append, braceBalance_append]
    rfl
  constructor
  · rintro ⟨v, hv, hlt⟩
    rcases List.prefix_or_prefix_of_prefix hv (List.prefix_append s t) with hvs | ⟨u, rfl⟩
    · exact Or.inl ⟨v, hvs, hlt⟩
    · exact Or.inr ⟨u, (List.prefix_append_right_inj s).1 hv, by rwa [← hboth]⟩
  · rintro (h | ⟨u, hu, hlt⟩)
    · exact h.mono (List.prefix_append s t)
    · exact ⟨s ++ u, (List.prefix_append_right_inj s).2 hu, by rwa [hboth]⟩

/-- White space at the end brings no stray brace. -/
theorem hasStrayBrace_append_isSpaces {w : Text} (hw : isSpaces w = true) (s : Text) :
    HasStrayBrace (s ++ w) ↔ HasStrayBrace s := by
  rw [hasStrayBrace_append_iff, or_iff_left_iff_imp]
  rintro ⟨u, hu, hlt⟩
  rw [braceBalance_unquotedFrom_of_neutral _ fun c hc => isNeutral_of_isSpaces hw c (hu.subset hc)]
    at hlt
  exact ⟨s, List.prefix_rfl, by simpa using hlt⟩

/-- White space in front brings no stray brace. -/
theorem hasStrayBrace_isSpaces_append {w : Text} (hw : isSpaces w = true) (s : Text) :
    HasStrayBrace (w ++ s) ↔ HasStrayBrace s := by
  have hneutral : ∀ v, v <+: w → braceBalance (unquoted v) = 0 := fun v hv =>
    braceBalance_unquotedFrom_of_neutral _ fun c hc => isNeutral_of_isSpaces hw c (hv.subset hc)
  rw [hasStrayBrace_append_iff, (Clear.of_isSpaces hw).code, hneutral w List.prefix_rfl]
  simp only [Int.zero_add]
  refine ⟨fun h => h.resolve_left ?_, Or.inr⟩
  rintro ⟨v, hv, hlt⟩
  have := hneutral v hv
  omega

theorem hasStrayBrace_trim {s : Text} : HasStrayBrace (trim s) ↔ HasStrayBrace s := by
  obtain ⟨w₁, w₂, hs, hw₁, hw₂, -⟩ := trim_split s
  conv => rhs; rw [hs]
  rw [hasStrayBrace_isSpaces_append hw₁, hasStrayBrace_append_isSpaces hw₂]

theorem hasStrayBrace_trimBlanksEnd {s : Text} :
    HasStrayBrace (trimBlanksEnd s) ↔ HasStrayBrace s := by
  obtain ⟨w, hs, hw⟩ := exists_trimEndWhile isBlank s
  conv => rhs; rw [hs]
  rw [hasStrayBrace_append_isSpaces (isSpaces_of_blanks hw)]
  rfl

end GrammarLayout
