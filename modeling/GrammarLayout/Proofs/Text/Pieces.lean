import GrammarLayout.Text.Utf8

/-!
# Cutting a text between two characters

`Text.pieces` reads a text from left to right, so cutting a text in two and
reading the halves need not give the pieces of the whole: the cut may go
through a character.  This file says when it does not.

What is proved here:

* `ofPieces_pieces` — the pieces of a text put together are the text;
* `Seam` — the relation "no character lies across the cut", with
  `seam_of_head` (the second half does not start with a continuation byte),
  `seam_ascii_cons` and `seam_concat_ascii` (an ASCII byte stands at the cut);
* `pieces_ofPieces_append` — a text may be cut between any two of its pieces.
-/

namespace GrammarLayout

namespace Text

/-! ## The first piece -/

theorem leadChar?_append {s : Text} {v n : Nat} (t : Text) (h : leadChar? s = some (v, n)) :
    leadChar? (s ++ t) = some (v, n) := by
  unfold leadChar? at h ⊢
  match s, h with
  | [a], h => grind
  | [a, b], h => grind
  | [a, b, c], h => grind
  | a :: b :: c :: d :: s, h => grind

theorem leadChar?_length {s : Text} {v n : Nat} (h : leadChar? s = some (v, n)) :
    1 ≤ n ∧ n ≤ s.length := by
  unfold leadChar? at h
  match s, h with
  | [a], h => grind
  | [a, b], h => grind
  | [a, b, c], h => grind
  | a :: b :: c :: d :: s, h => grind

/-- A character that starts in `s` ends in `s`, unless a continuation byte comes next. -/
theorem leadChar?_of_append {s t : Text} {v n : Nat} (hs : s ≠ [])
    (ht : ∀ c ∈ t.head?, isContinuation c = false)
    (h : leadChar? (s ++ t) = some (v, n)) : leadChar? s = some (v, n) := by
  unfold leadChar? at h ⊢
  match s, t, hs, ht, h with
  | [a], [], _, _, h => grind
  | [a], [x], _, ht, h => grind
  | [a], [x, y], _, ht, h => grind
  | [a], x :: y :: z :: t, _, ht, h => grind
  | [a, b], [], _, _, h => grind
  | [a, b], [x], _, _, h => grind
  | [a, b], x :: y :: t, _, _, h => grind
  | [a, b, c], [], _, _, h => grind
  | [a, b, c], x :: t, _, _, h => grind
  | a :: b :: c :: d :: s, t, _, _, h => grind

/-- Whether a character of `n` bytes starts a text depends on these bytes only. -/
theorem leadChar?_take {s t : Text} {v n : Nat} (h : leadChar? (s ++ t) = some (v, n))
    (hn : n ≤ s.length) : leadChar? s = some (v, n) := by
  rcases s with _ | ⟨a, _ | ⟨b, _ | ⟨c, _ | ⟨d, s⟩⟩⟩⟩
  · have := leadChar?_length h
    simp only [List.length_nil] at hn
    omega
  all_goals
    simp only [leadChar?, List.cons_append, List.nil_append, List.length_cons] at h hn ⊢
    grind

theorem leadPiece_raw {s : Text} (hs : s ≠ []) :
    ∃ n, 1 ≤ n ∧ n ≤ s.length ∧ (leadPiece s).raw = s.take n := by
  unfold leadPiece
  cases h : leadChar? s with
  | none => exact ⟨1, Nat.le_refl 1, List.length_pos_iff.2 hs, rfl⟩
  | some p => exact ⟨p.2, (leadChar?_length h).1, (leadChar?_length h).2, rfl⟩

theorem leadPiece_raw_length {s : Text} (hs : s ≠ []) :
    1 ≤ (leadPiece s).raw.length ∧ (leadPiece s).raw.length ≤ s.length := by
  obtain ⟨n, h1, h2, h⟩ := leadPiece_raw hs
  rw [h, List.length_take]
  omega

theorem leadPiece_raw_append_drop {s : Text} (hs : s ≠ []) :
    (leadPiece s).raw ++ s.drop (leadPiece s).raw.length = s := by
  obtain ⟨n, h1, h2, h⟩ := leadPiece_raw hs
  rw [h, List.length_take, Nat.min_eq_left h2, List.take_append_drop]

theorem leadPiece_append {s t : Text} (hs : s ≠ [])
    (ht : ∀ c ∈ t.head?, isContinuation c = false) : leadPiece (s ++ t) = leadPiece s := by
  have hpos : 0 < s.length := List.length_pos_iff.2 hs
  unfold leadPiece
  cases h : leadChar? s with
  | some p =>
    rw [leadChar?_append t h]
    simp only [List.take_append_of_le_length (leadChar?_length h).2]
  | none =>
    cases h' : leadChar? (s ++ t) with
    | some p => rw [leadChar?_of_append hs ht h'] at h; exact absurd h (by simp)
    | none => simp only [List.take_append_of_le_length (show 1 ≤ s.length from hpos)]

/-! ## All pieces -/

theorem piecesFrom_eq_pieces_drop (k : Nat) (s : Text) : piecesFrom k s = pieces (s.drop k) := by
  induction s generalizing k with
  | nil => cases k <;> simp [pieces, piecesFrom]
  | cons c s ih =>
    cases k with
    | zero => rfl
    | succ k => rw [piecesFrom, ih, List.drop_succ_cons]

@[simp] theorem pieces_nil : pieces [] = [] := rfl

theorem pieces_of_ne_nil {s : Text} (hs : s ≠ []) :
    pieces s = leadPiece s :: pieces (s.drop (leadPiece s).raw.length) := by
  obtain ⟨c, s', rfl⟩ := List.exists_cons_of_ne_nil hs
  have hlen := leadPiece_raw_length hs
  rw [pieces, piecesFrom, piecesFrom_eq_pieces_drop]
  obtain ⟨m, hm⟩ : ∃ m, (leadPiece (c :: s')).raw.length = m + 1 :=
    ⟨_, (Nat.succ_pred_eq_of_pos hlen.1).symm⟩
  rw [hm, Nat.add_sub_cancel, List.drop_succ_cons]

@[simp] theorem ofPieces_nil : ofPieces [] = [] := rfl

@[simp] theorem ofPieces_cons (r : Piece) (rs : List Piece) :
    ofPieces (r :: rs) = r.raw ++ ofPieces rs := rfl

@[simp] theorem ofPieces_append (rs qs : List Piece) :
    ofPieces (rs ++ qs) = ofPieces rs ++ ofPieces qs := List.flatMap_append

/-- The pieces of a text put together are the text. -/
@[simp] theorem ofPieces_pieces (s : Text) : ofPieces (pieces s) = s := by
  induction h : s.length using Nat.strongRecOn generalizing s with
  | _ n ih =>
    by_cases hs : s = []
    · rw [hs]; rfl
    · have hlen := leadPiece_raw_length hs
      rw [pieces_of_ne_nil hs, ofPieces_cons, ih _ _ _ rfl, leadPiece_raw_append_drop hs]
      rw [List.length_drop]
      omega

@[simp] theorem pieces_eq_nil_iff {s : Text} : pieces s = [] ↔ s = [] := by
  constructor
  · intro h
    rw [← ofPieces_pieces s, h, ofPieces_nil]
  · rintro rfl
    rfl

/-! ## Seams -/

/-- No character lies across the cut between `a` and `b`. -/
def Seam (a b : Text) : Prop := pieces (a ++ b) = pieces a ++ pieces b

theorem seam_nil_left (b : Text) : Seam [] b := rfl

/-- A text may be cut before every byte that continues no character. -/
theorem seam_of_head {a b : Text} (hb : ∀ c ∈ b.head?, isContinuation c = false) : Seam a b := by
  induction h : a.length using Nat.strongRecOn generalizing a with
  | _ n ih =>
    by_cases ha : a = []
    · rw [ha]; exact seam_nil_left b
    · have hlen := leadPiece_raw_length ha
      have hrest : Seam (a.drop (leadPiece a).raw.length) b := by
        refine ih _ ?_ rfl
        rw [List.length_drop]
        omega
      unfold Seam at hrest ⊢
      rw [pieces_of_ne_nil (List.append_ne_nil_of_left_ne_nil ha b), leadPiece_append ha hb,
        List.drop_append_of_le_length hlen.2, hrest, pieces_of_ne_nil ha, List.cons_append]

theorem isContinuation_of_ascii {c : UInt8} (hc : c < 0x80) : isContinuation c = false := by
  simp only [isContinuation]
  grind

theorem seam_ascii_cons {c : UInt8} (hc : c < 0x80) (a b : Text) : Seam a (c :: b) := by
  refine seam_of_head ?_
  intro x hx
  cases hx
  exact isContinuation_of_ascii hc

theorem leadPiece_ascii {c : UInt8} (hc : c < 0x80) (s : Text) :
    leadPiece (c :: s) = ⟨some c.toNat, [c]⟩ := by
  simp [leadPiece, leadChar?, hc]

theorem pieces_ascii_cons {c : UInt8} (hc : c < 0x80) (s : Text) :
    pieces (c :: s) = ⟨some c.toNat, [c]⟩ :: pieces s := by
  rw [pieces_of_ne_nil (List.cons_ne_nil c s), leadPiece_ascii hc]
  rfl

theorem seam_concat_ascii {c : UInt8} (hc : c < 0x80) (a b : Text) : Seam (a ++ [c]) b := by
  have hleft : Seam a [c] := seam_ascii_cons hc a []
  have hright : Seam a (c :: b) := seam_ascii_cons hc a b
  unfold Seam at hleft hright ⊢
  rw [List.append_assoc, List.singleton_append, hright, hleft, pieces_ascii_cons hc,
    pieces_ascii_cons hc, pieces_nil, List.append_assoc, List.singleton_append]

/-! ## Cutting at a piece -/

theorem pieces_drop_lead {s : Text} {r : Piece} {rs : List Piece} (h : pieces s = r :: rs) :
    s ≠ [] ∧ r = leadPiece s ∧ rs = pieces (s.drop r.raw.length) := by
  have hs : s ≠ [] := by
    rintro rfl
    simp at h
  rw [pieces_of_ne_nil hs, List.cons.injEq] at h
  obtain ⟨rfl, h⟩ := h
  exact ⟨hs, rfl, h.symm⟩

/-- What follows some pieces of a text is read as it was read in the text. -/
theorem pieces_ofPieces_right {s : Text} {rs qs : List Piece} (h : pieces s = rs ++ qs) :
    pieces (ofPieces qs) = qs := by
  induction rs generalizing s with
  | nil => rw [List.nil_append] at h; rw [← h, ofPieces_pieces]
  | cons r rs ih =>
    obtain ⟨-, -, hrest⟩ := pieces_drop_lead h
    exact ih hrest.symm

theorem raw_ne_nil {s : Text} {r : Piece} (h : r ∈ pieces s) : r.raw ≠ [] := by
  obtain ⟨rs, qs, hcut⟩ := List.append_of_mem h
  obtain ⟨hs, hr, -⟩ := pieces_drop_lead (pieces_ofPieces_right hcut)
  have := (leadPiece_raw_length hs).1
  rw [← hr] at this
  exact List.ne_nil_of_length_pos this

/-- The text before a cut keeps the first piece of the whole text. -/
theorem leadPiece_ofPieces {s : Text} {r : Piece} {rs qs : List Piece}
    (h : pieces s = r :: rs ++ qs) : leadPiece (r.raw ++ ofPieces rs) = r := by
  obtain ⟨hs, hr, hrest⟩ := pieces_drop_lead h
  have hsplit : s = (r.raw ++ ofPieces rs) ++ ofPieces qs := by
    rw [← ofPieces_pieces s, h]
    simp
  obtain ⟨n, h1, h2, hn⟩ := leadPiece_raw hs
  have hlen : r.raw.length = n := by
    rw [hr, hn, List.length_take, Nat.min_eq_left h2]
  unfold leadPiece at hr
  cases hc : leadChar? s with
  | some p =>
    rw [hc] at hr
    have hp : p.2 = n := by
      rw [← hlen, hr]
      simp [Nat.min_eq_left (leadChar?_length hc).2]
    rw [hsplit] at hc
    have hshort := leadChar?_take (v := p.1) (n := p.2) hc (by simp; omega)
    rw [leadPiece, hshort]
    simp only [List.take_append_of_le_length (show p.2 ≤ r.raw.length by omega)]
    rw [hp, ← hlen, List.take_length, hr]
  | none =>
    rw [hc] at hr
    have hnone : leadChar? (r.raw ++ ofPieces rs) = none := by
      cases h' : leadChar? (r.raw ++ ofPieces rs) with
      | none => rfl
      | some p => rw [hsplit, leadChar?_append _ h'] at hc; exact absurd hc (by simp)
    have hone : r.raw.length = 1 := by
      rw [hr, List.length_take]
      have := List.length_pos_iff.2 hs
      omega
    rw [leadPiece, hnone]
    simp only [List.take_append_of_le_length (show 1 ≤ r.raw.length by omega)]
    rw [← hone, List.take_length, hr]

/-- The first pieces of a text are the pieces of the text they make up. -/
theorem pieces_ofPieces_left {s : Text} {rs qs : List Piece} (h : pieces s = rs ++ qs) :
    pieces (ofPieces rs) = rs := by
  induction rs generalizing s with
  | nil => rfl
  | cons r rs ih =>
    obtain ⟨hs, hr, hrest⟩ := pieces_drop_lead h
    have hne : r.raw ++ ofPieces rs ≠ [] := by
      have := (leadPiece_raw_length hs).1
      rw [← hr] at this
      intro hnil
      rw [List.append_eq_nil_iff] at hnil
      rw [hnil.1] at this
      simp at this
    rw [ofPieces_cons, pieces_of_ne_nil hne, leadPiece_ofPieces h, List.drop_left, ih hrest.symm]

/-- A text may be cut between any two of its pieces. -/
theorem pieces_ofPieces_append {s : Text} {rs qs : List Piece} (h : pieces s = rs ++ qs) :
    s = ofPieces rs ++ ofPieces qs ∧ pieces (ofPieces rs) = rs ∧ pieces (ofPieces qs) = qs := by
  refine ⟨?_, pieces_ofPieces_left h, pieces_ofPieces_right h⟩
  rw [← ofPieces_append, ← h, ofPieces_pieces]

end Text

end GrammarLayout
