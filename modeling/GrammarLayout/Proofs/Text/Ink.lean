import GrammarLayout.Proofs.Text.Pieces
import GrammarLayout.Text.Blank
import Mathlib.Data.List.TakeWhile
import Mathlib.Tactic.ByContra
import Mathlib.Tactic.NthRewrite
import Mathlib.Tactic.Set

/-!
# The ink of a text

`Text.ink` deletes all white space from a text.  This file says how the ink of
a text is put together from the ink of its parts, so that later files can show
that an operation touches white space only.

What is proved here:

* `ink_append` — the ink of two halves is the ink of the whole when no
  character lies across the cut; `ink_append_ascii_cons` is the case that
  occurs everywhere, an ASCII byte at the cut;
* `ink_trim`, `ink_dropWhile`, `ink_trimEndWhile` — trimming keeps the ink;
* `ink_eq_nil_iff` — a text has no ink exactly when it is white space;
* `ink_joinLines`, `ink_splitLines`, `ink_flatten` — lines and their ink.
-/

namespace GrammarLayout

namespace Text

open Ascii

/-! ## Two halves -/

theorem ink_append {a b : Text} (h : Seam a b) : ink (a ++ b) = ink a ++ ink b := by
  unfold ink
  rw [h, List.filter_append, ofPieces_append]

@[simp] theorem ink_nil : ink [] = [] := rfl

theorem ink_append_ascii_cons {c : UInt8} (hc : c < 0x80) (a b : Text) :
    ink (a ++ c :: b) = ink a ++ ink (c :: b) := ink_append (seam_ascii_cons hc a b)

theorem ink_concat_ascii_append {c : UInt8} (hc : c < 0x80) (a b : Text) :
    ink ((a ++ [c]) ++ b) = ink (a ++ [c]) ++ ink b := ink_append (seam_concat_ascii hc a b)

/-! ## White space in ASCII -/

/-- An ASCII byte that is white space. -/
def isAsciiSpace (c : UInt8) : Bool := c < 0x80 && isWhiteSpace c.toNat

theorem isAsciiSpace_of_isBlank {c : UInt8} (h : isBlank c = true) : isAsciiSpace c = true := by
  simp only [isBlank, Bool.or_eq_true, beq_iff_eq] at h
  rcases h with rfl | rfl <;> decide

theorem isAsciiSpace_of_isLayout {c : UInt8} (h : isLayout c = true) : isAsciiSpace c = true := by
  simp only [isLayout, Bool.or_eq_true, beq_iff_eq] at h
  rcases h with (h | rfl) | rfl
  · exact isAsciiSpace_of_isBlank h
  · decide
  · decide

theorem isAsciiSpace_of_terminator {c : UInt8} (h : (c == carriageReturn || c == newline) = true) :
    isAsciiSpace c = true := by
  simp only [Bool.or_eq_true, beq_iff_eq] at h
  rcases h with rfl | rfl <;> decide

theorem ink_space_cons {c : UInt8} (hc : isAsciiSpace c = true) (s : Text) :
    ink (c :: s) = ink s := by
  simp only [isAsciiSpace, Bool.and_eq_true, decide_eq_true_eq] at hc
  simp [ink, pieces_ascii_cons hc.1, Piece.isSpace, hc.2]

theorem ink_visible_cons {c : UInt8} (hc : c < 0x80) (hv : isWhiteSpace c.toNat = false)
    (s : Text) : ink (c :: s) = c :: ink s := by
  simp [ink, pieces_ascii_cons hc, Piece.isSpace, hv]

theorem lt_of_isAsciiSpace {c : UInt8} (hc : isAsciiSpace c = true) : c < 0x80 := by
  simp only [isAsciiSpace, Bool.and_eq_true, decide_eq_true_eq] at hc
  exact hc.1

theorem ink_spaces_append {w : Text} (hw : ∀ c ∈ w, isAsciiSpace c = true) (s : Text) :
    ink (w ++ s) = ink s := by
  induction w with
  | nil => rfl
  | cons c w ih =>
    rw [List.cons_append, ink_space_cons (hw c List.mem_cons_self),
      ih fun x hx => hw x (List.mem_cons_of_mem c hx)]

theorem ink_blanks_append {w : Text} (hw : ∀ c ∈ w, isBlank c = true) (s : Text) :
    ink (w ++ s) = ink s :=
  ink_spaces_append (fun c hc => isAsciiSpace_of_isBlank (hw c hc)) s

theorem ink_append_spaces {w : Text} (hw : ∀ c ∈ w, isAsciiSpace c = true) (s : Text) :
    ink (s ++ w) = ink s := by
  cases w with
  | nil => rw [List.append_nil]
  | cons c w =>
    rw [ink_append_ascii_cons (lt_of_isAsciiSpace (hw c List.mem_cons_self)),
      ← List.append_nil (c :: w), ink_spaces_append hw, ink_nil, List.append_nil]

theorem ink_of_spaces {w : Text} (hw : ∀ c ∈ w, isAsciiSpace c = true) : ink w = [] :=
  ink_append_spaces hw []

/-! ## The bytes of a grammar file -/

section Bytes

variable (a s : Text)

@[simp] theorem ink_space : ink (space :: s) = ink s := ink_space_cons (by decide) s
@[simp] theorem ink_newline : ink (newline :: s) = ink s := ink_space_cons (by decide) s
@[simp] theorem ink_colon : ink (colon :: s) = colon :: ink s :=
  ink_visible_cons (by decide) (by decide) s
@[simp] theorem ink_pipe : ink (pipe :: s) = pipe :: ink s :=
  ink_visible_cons (by decide) (by decide) s
@[simp] theorem ink_semicolon : ink (semicolon :: s) = semicolon :: ink s :=
  ink_visible_cons (by decide) (by decide) s
@[simp] theorem ink_openBrace : ink (openBrace :: s) = openBrace :: ink s :=
  ink_visible_cons (by decide) (by decide) s
@[simp] theorem ink_closeBrace : ink (closeBrace :: s) = closeBrace :: ink s :=
  ink_visible_cons (by decide) (by decide) s

@[simp] theorem ink_append_space : ink (a ++ space :: s) = ink a ++ ink s := by
  rw [ink_append_ascii_cons (by decide), ink_space]
@[simp] theorem ink_append_newline : ink (a ++ newline :: s) = ink a ++ ink s := by
  rw [ink_append_ascii_cons (by decide), ink_newline]
@[simp] theorem ink_append_colon : ink (a ++ colon :: s) = ink a ++ colon :: ink s := by
  rw [ink_append_ascii_cons (by decide), ink_colon]
@[simp] theorem ink_append_pipe : ink (a ++ pipe :: s) = ink a ++ pipe :: ink s := by
  rw [ink_append_ascii_cons (by decide), ink_pipe]
@[simp] theorem ink_append_semicolon : ink (a ++ semicolon :: s) = ink a ++ semicolon :: ink s := by
  rw [ink_append_ascii_cons (by decide), ink_semicolon]
@[simp] theorem ink_append_openBrace : ink (a ++ openBrace :: s) = ink a ++ openBrace :: ink s := by
  rw [ink_append_ascii_cons (by decide), ink_openBrace]
@[simp] theorem ink_append_closeBrace :
    ink (a ++ closeBrace :: s) = ink a ++ closeBrace :: ink s := by
  rw [ink_append_ascii_cons (by decide), ink_closeBrace]

end Bytes

/-! ## Trimming bytes -/

section TrimBytes

variable {p : UInt8 → Bool} (hp : ∀ c, p c = true → isAsciiSpace c = true)
include hp

theorem ink_takeWhile (s : Text) : ink (s.takeWhile p) = [] :=
  ink_of_spaces fun c hc => hp c (List.mem_takeWhile_imp hc)

theorem ink_dropWhile (s : Text) : ink (s.dropWhile p) = ink s := by
  rw [← ink_spaces_append (fun c hc => hp c (List.mem_takeWhile_imp hc)) (s.dropWhile p),
    List.takeWhile_append_dropWhile]

/-- A text is what trimming leaves of it, followed by the bytes that were trimmed. -/
theorem trimEndWhile_append (s : Text) :
    ∃ w, s = trimEndWhile p s ++ w ∧ ∀ c ∈ w, isAsciiSpace c = true := by
  refine ⟨(s.reverse.takeWhile p).reverse, ?_, ?_⟩
  · rw [trimEndWhile, ← List.reverse_append, List.takeWhile_append_dropWhile, List.reverse_reverse]
  · intro c hc
    exact hp c (List.mem_takeWhile_imp (List.mem_reverse.1 hc))

theorem ink_trimEndWhile (s : Text) : ink (trimEndWhile p s) = ink s := by
  obtain ⟨w, hs, hw⟩ := trimEndWhile_append hp s
  conv => rhs; rw [hs]
  rw [ink_append_spaces hw]

end TrimBytes

@[simp] theorem ink_leadingBlanks (s : Text) : ink (leadingBlanks s) = [] :=
  ink_takeWhile (fun _ => isAsciiSpace_of_isBlank) s

@[simp] theorem ink_trimBlanksStart (s : Text) : ink (trimBlanksStart s) = ink s :=
  ink_dropWhile (fun _ => isAsciiSpace_of_isBlank) s

@[simp] theorem ink_trimBlanksEnd (s : Text) : ink (trimBlanksEnd s) = ink s :=
  ink_trimEndWhile (fun _ => isAsciiSpace_of_isBlank) s

theorem isAsciiSpace_of_mem_leadingBlanks (s : Text) :
    ∀ c ∈ leadingBlanks s, isAsciiSpace c = true :=
  fun _ hc => isAsciiSpace_of_isBlank (List.mem_takeWhile_imp hc)

@[simp] theorem ink_leadingBlanks_append (s t : Text) : ink (leadingBlanks s ++ t) = ink t :=
  ink_spaces_append (isAsciiSpace_of_mem_leadingBlanks s) t

@[simp] theorem ink_trimTerminator (s : Text) : ink (trimTerminator s) = ink s :=
  ink_trimEndWhile (fun _ => isAsciiSpace_of_terminator) s

@[simp] theorem ink_trimSpacesEnd (s : Text) : ink (trimEndWhile (· == space) s) = ink s := by
  refine ink_trimEndWhile (fun c hc => ?_) s
  rw [beq_iff_eq] at hc
  rw [hc]
  decide

@[simp] theorem ink_trimLayoutEnd (s : Text) : ink (trimEndWhile isLayout s) = ink s :=
  ink_trimEndWhile (fun _ => isAsciiSpace_of_isLayout) s

/-! ## Trimming characters -/

theorem filter_isSpace_eq_nil {rs : List Piece} (h : ∀ r ∈ rs, r.isSpace = true) :
    (rs.filter fun r => !r.isSpace) = [] := by
  rw [List.filter_eq_nil_iff]
  intro r hr
  simp [h r hr]

/-- Trimming a list at both ends cuts it in three. -/
theorem exists_trimmed {α : Type} (p : α → Bool) (l : List α) :
    ∃ front back, l = front ++ (((l.dropWhile p).reverse.dropWhile p).reverse ++ back) ∧
      (∀ x ∈ front, p x = true) ∧ (∀ x ∈ back, p x = true) ∧
      (∀ x ∈ ((l.dropWhile p).reverse.dropWhile p).reverse.head?, p x = false) ∧
      (∀ x ∈ ((l.dropWhile p).reverse.dropWhile p).reverse.getLast?, p x = false) := by
  have hfirst : ∀ m : List α, ∀ x ∈ (m.dropWhile p).head?, p x = false := by
    intro m x hx
    have := List.head?_dropWhile_not p m
    rw [Option.mem_def.1 hx] at this
    simpa using this
  set rest := l.dropWhile p with hrest
  have hcut : rest = (rest.reverse.dropWhile p).reverse ++ (rest.reverse.takeWhile p).reverse := by
    rw [← List.reverse_append, List.takeWhile_append_dropWhile, List.reverse_reverse]
  refine ⟨l.takeWhile p, (rest.reverse.takeWhile p).reverse, ?_, ?_, ?_, ?_, ?_⟩
  · rw [← hcut, hrest, List.takeWhile_append_dropWhile]
  · exact fun x hx => List.mem_takeWhile_imp hx
  · exact fun x hx => List.mem_takeWhile_imp (List.mem_reverse.1 hx)
  · intro x hx
    refine hfirst l x ?_
    rw [← hrest, hcut, List.head?_append, Option.mem_def.1 hx]
    rfl
  · intro x hx
    rw [List.getLast?_reverse] at hx
    exact hfirst _ x hx

/-- A text is what trimming leaves of it between two texts of white space, and no character lies
across the two cuts. -/
theorem trim_split (s : Text) : ∃ w₁ w₂, s = w₁ ++ (trim s ++ w₂) ∧ isSpaces w₁ = true ∧
    isSpaces w₂ = true ∧ pieces s = pieces w₁ ++ (pieces (trim s) ++ pieces w₂) ∧
    (∀ r ∈ (pieces (trim s)).head?, r.isSpace = false) ∧
    (∀ r ∈ (pieces (trim s)).getLast?, r.isSpace = false) := by
  obtain ⟨front, back, hcut, hfront, hback, hhead, hlast⟩ :=
    exists_trimmed Piece.isSpace (pieces s)
  set core := (((pieces s).dropWhile Piece.isSpace).reverse.dropWhile Piece.isSpace).reverse
    with hcore
  have htrim : trim s = ofPieces core := rfl
  obtain ⟨hs, hpf, hpr⟩ := pieces_ofPieces_append hcut
  obtain ⟨hs', hpc, hpb⟩ := pieces_ofPieces_append hpr
  refine ⟨ofPieces front, ofPieces back, ?_, ?_, ?_, ?_, ?_, ?_⟩
  · rw [htrim, ← hs', ← hs]
  · rw [isSpaces, hpf, List.all_eq_true]
    exact hfront
  · rw [isSpaces, hpb, List.all_eq_true]
    exact hback
  · rw [htrim, hpf, hpc, hpb, ← hcut]
  · rw [htrim, hpc]
    exact hhead
  · rw [htrim, hpc]
    exact hlast

theorem ink_of_isSpaces {s : Text} (h : isSpaces s = true) : ink s = [] := by
  rw [isSpaces, List.all_eq_true] at h
  rw [ink, filter_isSpace_eq_nil h, ofPieces_nil]

@[simp] theorem ink_trim (s : Text) : ink (trim s) = ink s := by
  obtain ⟨w₁, w₂, -, h₁, h₂, hpieces, -⟩ := trim_split s
  have hw₁ := ink_of_isSpaces h₁
  have hw₂ := ink_of_isSpaces h₂
  unfold ink at hw₁ hw₂ ⊢
  rw [hpieces, List.filter_append, List.filter_append, ofPieces_append, ofPieces_append, hw₁, hw₂,
    List.nil_append, List.append_nil]

/-- A text has no ink exactly when it is white space. -/
theorem ink_eq_nil_iff {s : Text} : ink s = [] ↔ isSpaces s = true := by
  refine ⟨fun h => ?_, ink_of_isSpaces⟩
  rw [isSpaces, List.all_eq_true]
  intro r hr
  by_contra hns
  have hmem : r ∈ (pieces s).filter fun r => !r.isSpace := by
    rw [List.mem_filter]
    exact ⟨hr, by simpa using hns⟩
  rw [ink, ofPieces, List.flatMap_eq_nil_iff] at h
  exact raw_ne_nil hr (h r hmem)

theorem isSpaces_of_blanks {w : Text} (hw : ∀ c ∈ w, isBlank c = true) : isSpaces w = true :=
  ink_eq_nil_iff.1 (ink_of_spaces fun c hc => isAsciiSpace_of_isBlank (hw c hc))

theorem trim_eq_nil_iff {s : Text} : trim s = [] ↔ isSpaces s = true := by
  constructor
  · intro h
    rw [← ink_eq_nil_iff, ← ink_trim, h, ink_nil]
  · intro h
    rw [isSpaces, List.all_eq_true] at h
    rw [trim, List.dropWhile_eq_nil_iff.2 h]
    rfl

theorem isEmpty_trim (s : Text) : (trim s).isEmpty = isSpaces s := by
  rw [Bool.eq_iff_iff, List.isEmpty_iff, trim_eq_nil_iff]

/-- No character lies across the end of white space. -/
theorem seam_of_isSpaces {w : Text} (hw : isSpaces w = true) (b : Text) : Seam w b := by
  induction h : w.length using Nat.strongRecOn generalizing w with
  | _ n ih =>
    by_cases hne : w = []
    · rw [hne]
      exact seam_nil_left b
    · have hlen := leadPiece_raw_length hne
      rw [isSpaces, pieces_of_ne_nil hne, List.all_cons, Bool.and_eq_true] at hw
      have hrest : Seam (w.drop (leadPiece w).raw.length) b := by
        refine ih _ ?_ hw.2 rfl
        rw [List.length_drop]
        omega
      have hlead : leadPiece (w ++ b) = leadPiece w := by
        cases hchar : leadChar? w with
        | none => simp [leadPiece, hchar, Piece.isSpace] at hw
        | some p =>
          simp only [leadPiece, leadChar?_append b hchar, hchar,
            List.take_append_of_le_length (leadChar?_length hchar).2]
      unfold Seam at hrest ⊢
      rw [pieces_of_ne_nil (List.append_ne_nil_of_left_ne_nil hne b), hlead,
        List.drop_append_of_le_length hlen.2, hrest, pieces_of_ne_nil hne, List.cons_append]

theorem ink_isSpaces_append {w : Text} (hw : isSpaces w = true) (s : Text) :
    ink (w ++ s) = ink s := by
  rw [ink_append (seam_of_isSpaces hw s), ink_of_isSpaces hw, List.nil_append]

theorem isContinuation_of_leadChar? {c : UInt8} {s : Text} {p : Nat × Nat}
    (h : leadChar? (c :: s) = some p) : isContinuation c = false := by
  simp only [leadChar?] at h
  simp only [isContinuation]
  grind

/-- White space starts with the first byte of a character. -/
theorem isContinuation_head_of_isSpaces {w : Text} (h : isSpaces w = true) :
    ∀ c ∈ w.head?, isContinuation c = false := by
  intro c hc
  cases w with
  | nil => simp at hc
  | cons b w =>
    obtain rfl : b = c := by simpa using hc
    rw [isSpaces, pieces_of_ne_nil (List.cons_ne_nil b w), List.all_cons, Bool.and_eq_true] at h
    cases hlead : leadChar? (b :: w) with
    | some p => exact isContinuation_of_leadChar? hlead
    | none => simp [leadPiece, hlead, Piece.isSpace] at h

theorem ink_append_isSpaces {w : Text} (hw : isSpaces w = true) (s : Text) :
    ink (s ++ w) = ink s := by
  rw [ink_append (seam_of_head (isContinuation_head_of_isSpaces hw)), ink_of_isSpaces hw,
    List.append_nil]

/-! ## The first visible byte -/

theorem startsWith_singleton_iff {c : UInt8} {s : Text} :
    startsWith [c] s = true ↔ s.head? = some c := by
  cases s with
  | nil => simp [startsWith]
  | cons b s =>
    simp only [startsWith, List.isPrefixOf_cons_cons, List.isPrefixOf_nil_left, Bool.and_true,
      beq_iff_eq, List.head?_cons, Option.some.injEq]
    exact eq_comm

theorem endsWith_singleton_iff {c : UInt8} {s : Text} :
    endsWith [c] s = true ↔ ∃ t, s = t ++ [c] := by
  rw [endsWith, List.isSuffixOf_iff_suffix]
  constructor
  · rintro ⟨t, rfl⟩
    exact ⟨t, rfl⟩
  · rintro ⟨t, rfl⟩
    exact ⟨t, rfl⟩

/-- A trimmed text starts with the first visible byte. -/
theorem head?_trim (s : Text) : (trim s).head? = (ink s).head? := by
  obtain ⟨-, -, -, -, -, -, hhead, -⟩ := trim_split s
  rw [← ink_trim, ink]
  nth_rewrite 1 [← ofPieces_pieces (trim s)]
  cases hcore : pieces (trim s) with
  | nil => rfl
  | cons r rs =>
    have hraw : r.raw ≠ [] := raw_ne_nil (s := trim s) (by rw [hcore]; exact List.mem_cons_self)
    have hr : r.isSpace = false := hhead r (by rw [hcore]; rfl)
    obtain ⟨b, bs, hb⟩ := List.exists_cons_of_ne_nil hraw
    rw [List.filter_cons_of_pos (by simp [hr]), ofPieces_cons, ofPieces_cons, hb]
    rfl

theorem startsWith_trim_iff {c : UInt8} {s : Text} :
    startsWith [c] (trim s) = true ↔ (ink s).head? = some c := by
  rw [startsWith_singleton_iff, head?_trim]

/-- What stands before the first visible byte is white space. -/
theorem exists_of_head?_ink {c : UInt8} {s : Text} (h : (ink s).head? = some c) :
    ∃ w rest, s = w ++ c :: rest ∧ isSpaces w = true := by
  obtain ⟨w₁, w₂, hs, h₁, -⟩ := trim_split s
  obtain ⟨t, ht⟩ := List.head?_eq_some_iff.1 ((head?_trim s).trans h)
  exact ⟨w₁, t ++ w₂, by rw [hs, ht, List.cons_append], h₁⟩

theorem mem_ink {c : UInt8} (hc : c < 0x80) (hv : isWhiteSpace c.toNat = false) {s : Text}
    (h : c ∈ s) : c ∈ ink s := by
  obtain ⟨a, b, rfl⟩ := List.append_of_mem h
  rw [ink_append_ascii_cons hc, ink_visible_cons hc hv]
  exact List.mem_append_right _ List.mem_cons_self

/-! ## Lines -/

theorem splitOn_ne_nil (sep : UInt8) (s : Text) : splitOn sep s ≠ [] := by
  cases s with
  | nil => simp [splitOn]
  | cons c s =>
    rw [splitOn]
    split
    · simp
    · split <;> simp

theorem join_cons {sep p : Text} {ps : List Text} (h : ps ≠ []) :
    join sep (p :: ps) = p ++ sep ++ join sep ps := by
  obtain ⟨q, qs, rfl⟩ := List.exists_cons_of_ne_nil h
  rfl

theorem join_splitOn (sep : UInt8) (s : Text) : join [sep] (splitOn sep s) = s := by
  induction s with
  | nil => rfl
  | cons c s ih =>
    rw [splitOn]
    split
    · rename_i hc
      rw [join_cons (splitOn_ne_nil sep s), ih, hc]
      rfl
    · obtain ⟨p, ps, hs⟩ := List.exists_cons_of_ne_nil (splitOn_ne_nil sep s)
      rw [hs] at ih ⊢
      simp only
      rw [← ih]
      cases ps with
      | nil => rfl
      | cons q qs => simp [join]

theorem splitOn_append_cons (sep : UInt8) (a b : Text) :
    splitOn sep (a ++ sep :: b) = splitOn sep a ++ splitOn sep b := by
  induction a with
  | nil => simp [splitOn]
  | cons c a ih =>
    rw [List.cons_append, splitOn, splitOn, ih]
    split
    · rfl
    · obtain ⟨l, ls, hls⟩ := List.exists_cons_of_ne_nil (splitOn_ne_nil sep a)
      rw [hls]
      rfl

theorem splitOn_of_notMem {sep : UInt8} {a : Text} (h : sep ∉ a) : splitOn sep a = [a] := by
  induction a with
  | nil => rfl
  | cons c a ih =>
    rw [List.mem_cons, not_or] at h
    rw [splitOn, if_neg (Ne.symm h.1), ih h.2]

@[simp] theorem joinLines_splitLines (s : Text) : joinLines (splitLines s) = s :=
  join_splitOn newline s

@[simp] theorem ink_joinLines (ls : List Text) : ink (joinLines ls) = ls.flatMap ink := by
  unfold joinLines
  induction ls with
  | nil => rfl
  | cons l ls ih =>
    cases ls with
    | nil => simp [join]
    | cons m ms =>
      rw [join_cons (List.cons_ne_nil m ms), List.append_assoc, List.singleton_append,
        ink_append_newline, ih, ← List.flatMap_cons]

/-- Texts that start with an ASCII byte are cut apart where they start. -/
theorem ink_append_flatMap {α : Type} {f : α → Text} {l : List α}
    (h : ∀ a ∈ l, ∃ c t, c < 0x80 ∧ f a = c :: t) (x : Text) :
    ink (x ++ l.flatMap f) = ink x ++ l.flatMap fun a => ink (f a) := by
  induction l generalizing x with
  | nil => simp
  | cons a l ih =>
    obtain ⟨c, t, hc, ht⟩ := h a List.mem_cons_self
    have hrest := ih (fun b hb => h b (List.mem_cons_of_mem a hb)) (c :: t)
    rw [List.flatMap_cons, List.flatMap_cons, ht, List.cons_append, ink_append_ascii_cons hc,
      ← List.cons_append, hrest]

theorem ink_splitLines (s : Text) : (splitLines s).flatMap ink = ink s := by
  rw [← ink_joinLines, joinLines_splitLines]

/-- A text that ends with a newline, like every line but perhaps the last. -/
def Ended (l : Text) : Prop := ∃ l', l = l' ++ [newline]

theorem ink_ended_append {l : Text} (hl : Ended l) (s : Text) : ink (l ++ s) = ink l ++ ink s := by
  obtain ⟨l', rfl⟩ := hl
  exact ink_concat_ascii_append (by decide) l' s

/-- Texts that all end with a newline, the last one perhaps excepted. -/
inductive EndedLines : List Text → Prop where
  /-- No text. -/
  | nil : EndedLines []
  /-- The last text. -/
  | last (l : Text) : EndedLines [l]
  /-- One more text in front. -/
  | cons {l : Text} {ls : List Text} : Ended l → EndedLines ls → EndedLines (l :: ls)

theorem EndedLines.concat {ls : List Text} (h : ∀ l ∈ ls, Ended l) (l : Text) :
    EndedLines (ls ++ [l]) := by
  induction ls with
  | nil => exact .last l
  | cons k ls ih =>
    exact .cons (h k List.mem_cons_self) (ih fun m hm => h m (List.mem_cons_of_mem k hm))

theorem EndedLines.of_forall {ls : List Text} (h : ∀ l ∈ ls, Ended l) : EndedLines ls := by
  induction ls with
  | nil => exact .nil
  | cons k ls ih =>
    exact .cons (h k List.mem_cons_self) (ih fun m hm => h m (List.mem_cons_of_mem k hm))

theorem ink_flatten {ls : List Text} (h : EndedLines ls) : ink ls.flatten = ls.flatMap ink := by
  induction h with
  | nil => rfl
  | last l => simp
  | cons hl _ ih => rw [List.flatten_cons, ink_ended_append hl, ih, List.flatMap_cons]

@[simp] theorem flatten_lines (s : Text) : (lines s).flatten = s := by
  induction s with
  | nil => rfl
  | cons c s ih =>
    rw [lines]
    split
    · rw [List.flatten_cons, ih]; rfl
    · cases hs : lines s with
      | nil => rw [hs] at ih; rw [← ih]; rfl
      | cons l ls => rw [hs] at ih; rw [← ih]; simp

theorem endedLines_lines (s : Text) : EndedLines (lines s) := by
  induction s with
  | nil => exact .nil
  | cons c s ih =>
    rw [lines]
    split
    · rename_i hc
      exact .cons ⟨[], by rw [hc]; rfl⟩ ih
    · cases hs : lines s with
      | nil => exact .last _
      | cons l ls =>
        rw [hs] at ih
        cases ih with
        | last => exact .last _
        | cons hl hls =>
          obtain ⟨l', rfl⟩ := hl
          exact .cons ⟨c :: l', rfl⟩ hls

end Text

end GrammarLayout
