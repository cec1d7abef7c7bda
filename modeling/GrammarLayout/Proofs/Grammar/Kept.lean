import GrammarLayout.Proofs.Grammar.Ink

/-!
# Keeping what was read

Reading a grammar may drop the semicolons that end rules, and writing it puts
one behind every rule.  `Kept inOrder x y` says that the text `x` that is
written holds what the text `y` that was read holds: the same bytes apart from
semicolons, in the same order when `inOrder` is set, and at least as many
semicolons.
-/

namespace GrammarLayout

open Ascii Text

/-- A text without its semicolons. -/
def withoutSemicolons (s : Text) : Text := s.filter (· != semicolon)

@[simp] theorem withoutSemicolons_append (s t : Text) :
    withoutSemicolons (s ++ t) = withoutSemicolons s ++ withoutSemicolons t := List.filter_append ..

@[simp] theorem withoutSemicolons_semicolon (s : Text) :
    withoutSemicolons (semicolon :: s) = withoutSemicolons s := rfl

theorem withoutSemicolons_cons {c : UInt8} (hc : c ≠ semicolon) (s : Text) :
    withoutSemicolons (c :: s) = c :: withoutSemicolons s :=
  List.filter_cons_of_pos (by simpa using hc)

/-- The text `x` holds every byte of `y` as often as `y`, in the order of `y` when `inOrder` is
set; of semicolons it may hold more. -/
structure Kept (inOrder : Bool) (x y : Text) : Prop where
  /-- The bytes other than semicolons are rearranged at most. -/
  perm : (withoutSemicolons x).Perm (withoutSemicolons y)
  /-- They are in the same order when that is asked for. -/
  order : inOrder = true → withoutSemicolons x = withoutSemicolons y
  /-- No semicolon is lost. -/
  semicolons : y.count semicolon ≤ x.count semicolon

namespace Kept

variable {o : Bool} {x y z x' y' : Text}

theorem refl (x : Text) : Kept o x x := ⟨List.Perm.refl _, fun _ => rfl, Nat.le_refl _⟩

theorem of_eq (h : x = y) : Kept o x y := h ▸ refl x

theorem trans (h : Kept o x y) (h' : Kept o y z) : Kept o x z :=
  ⟨h.perm.trans h'.perm, fun ho => (h.order ho).trans (h'.order ho),
    h'.semicolons.trans h.semicolons⟩

theorem append (h : Kept o x y) (h' : Kept o x' y') : Kept o (x ++ x') (y ++ y') := by
  refine ⟨?_, fun ho => ?_, ?_⟩
  · rw [withoutSemicolons_append, withoutSemicolons_append]
    exact h.perm.append h'.perm
  · rw [withoutSemicolons_append, withoutSemicolons_append, h.order ho, h'.order ho]
  · rw [List.count_append, List.count_append]
    exact Nat.add_le_add h.semicolons h'.semicolons

theorem append_left (t : Text) (h : Kept o x y) : Kept o (t ++ x) (t ++ y) := (refl t).append h

theorem append_right (t : Text) (h : Kept o x y) : Kept o (x ++ t) (y ++ t) := h.append (refl t)

/-- A rearranged text keeps everything, but not its order. -/
theorem of_perm (h : x.Perm y) (ho : o = true → x = y) : Kept o x y :=
  ⟨h.filter _, fun ho' => by rw [ho ho'], (h.count_eq semicolon).symm.le⟩

/-- Two neighbours may change places when order does not matter or one of them is empty. -/
theorem swap (a b : Text) (ho : o = true → a = [] ∨ b = []) : Kept o (a ++ b) (b ++ a) := by
  refine of_perm List.perm_append_comm fun ho' => ?_
  rcases ho ho' with rfl | rfl <;> simp

/-- A semicolon that was not read may be written. -/
theorem semicolon_append (s : Text) : Kept o (semicolon :: s) s :=
  ⟨List.Perm.refl _, fun _ => rfl, by simp⟩

/-- A semicolon may be written earlier than it was read. -/
theorem semicolon_concat (s : Text) : Kept o (semicolon :: s) (s ++ [semicolon]) := by
  have h : withoutSemicolons (s ++ [semicolon]) = withoutSemicolons s := by
    rw [withoutSemicolons_append]
    simp [withoutSemicolons]
  refine ⟨by rw [h]; exact List.Perm.refl _, fun _ => by rw [h]; rfl, ?_⟩
  simp

/-- A semicolon that was not read may be written at the end. -/
theorem concat_semicolon (s : Text) : Kept o (s ++ [semicolon]) s := by
  have h : withoutSemicolons (s ++ [semicolon]) = withoutSemicolons s := by
    rw [withoutSemicolons_append]
    simp [withoutSemicolons]
  exact ⟨by rw [h], fun _ => h, by simp⟩

end Kept

end GrammarLayout
