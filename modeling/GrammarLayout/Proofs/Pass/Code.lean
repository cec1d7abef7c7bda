import GrammarLayout.Pass.Reindent
import GrammarLayout.Proofs.Pass.NormalForm

/-!
# Lines of code keep their ink

The passes rewrite the code inside blocks line by line: they space operators,
turn runs of blanks into one space and move lines to another indentation.  None
of this touches a visible byte.

What is proved here:

* `ink_spaceOperators` — spacing operators changes white space only;
* `ink_rebaseLine`, `ink_rebase` — so does moving lines.
-/

namespace GrammarLayout

open Ascii Text

/-! ## Operators -/

@[simp] theorem ink_spaceOperators (line : Text) : ink (spaceOperators line) = ink line := by
  have hink : ∀ s, ink s = ofPieces ((visiblePieces s).filter fun r => !r.isSpace) := by
    intro s
    rw [ink, visiblePieces, List.filter_filter]
    congr 1
    refine List.filter_congr fun r hr => ?_
    cases hspace : r.isSpace with
    | true => rfl
    | false => simp [visible_of_isSpace hr hspace]
  rw [hink, visiblePieces_spaceOperators, ← hink]

/-! ## Indentation -/

theorem ink_rebaseLine {base : Text} (hbase : isSpaces base = true) (cut : Nat) (l : Text) :
    ink (rebaseLine base cut l) = ink l := by
  unfold rebaseLine
  split
  · rename_i hl
    rw [ink_of_isSpaces hl, ink_nil]
  · have hblanks : ∀ c ∈ (leadingBlanks l).drop cut, isBlank c = true :=
      fun c hc => List.mem_takeWhile_imp (List.mem_of_mem_drop hc)
    rw [List.append_assoc, ink_isSpaces_append hbase, ink_blanks_append hblanks, ink_trimBlanksEnd,
      ink_trimBlanksStart]

theorem mem_rebaseLine {base : Text} {cut : Nat} {l : Text} {c : UInt8}
    (h : c ∈ rebaseLine base cut l) : c ∈ base ∨ c ∈ l := by
  unfold rebaseLine at h
  split at h
  · exact absurd h (by simp)
  · rw [List.mem_append, List.mem_append] at h
    rcases h with (h | h) | h
    · exact Or.inl h
    · exact Or.inr ((List.takeWhile_sublist _).subset (List.mem_of_mem_drop h))
    · exact Or.inr ((List.dropWhile_sublist _).subset (mem_of_mem_trimEndWhile h))

theorem ink_rebase {base : Text} (hbase : isSpaces base = true) (ls : List Text) :
    (rebase base ls).flatMap ink = ls.flatMap ink := by
  rw [rebase, List.flatMap_map]
  simp only [ink_rebaseLine hbase]

end GrammarLayout
