import GrammarLayout.Text.Basic
import Mathlib.Logic.Function.Basic

/-!
# The digits of a number

What is proved here:

* `isDigit_of_mem_ofNat`, `newline_notMem_ofNat` — the bytes of a number;
* `exists_ofNat_eq_cons` — a positive number starts with no zero;
* `ofNat_injective` — a number is known from its digits.
-/

namespace GrammarLayout

namespace Text

open Ascii

/-- The byte of a digit. -/
theorem digit_byte : ∀ n < 10,
    isDigit (0x30 + n.toUInt8) = true ∧ hexValue? (0x30 + n.toUInt8) = some n ∧
      (0x30 + n.toUInt8 : UInt8) ≠ underscore ∧ (0 < n → (0x30 + n.toUInt8 : UInt8) ≠ 0x30) := by
  decide

theorem ofNat_of_lt {n : Nat} (h : n < 10) : ofNat n = [0x30 + n.toUInt8] := by
  rw [ofNat, Nat.toDigits_of_lt_base h]
  revert n
  decide

theorem ofNat_of_le {n : Nat} (h : 10 ≤ n) : ofNat n = ofNat (n / 10) ++ ofNat (n % 10) := by
  rw [ofNat, Nat.toDigits_of_base_le (by decide) h, List.map_append, ofNat, ofNat,
    Nat.toDigits_of_lt_base (Nat.mod_lt n (by decide))]

theorem isDigit_of_mem_ofNat {n : Nat} {c : UInt8} (h : c ∈ ofNat n) : isDigit c = true := by
  induction n using Nat.strongRecOn with
  | _ n ih =>
    by_cases hn : n < 10
    · rw [ofNat_of_lt hn, List.mem_singleton] at h
      rw [h]
      exact (digit_byte n hn).1
    · rw [ofNat_of_le (by omega), List.mem_append] at h
      rcases h with h | h
      · exact ih _ (by omega) h
      · exact ih _ (by omega) h

/-- The first digit of a positive number is not zero. -/
theorem exists_ofNat_eq_cons {n : Nat} (hn : 0 < n) : ∃ c s, ofNat n = c :: s ∧ c ≠ 0x30 := by
  induction n using Nat.strongRecOn with
  | _ n ih =>
    by_cases hlt : n < 10
    · exact ⟨_, _, ofNat_of_lt hlt, (digit_byte n hlt).2.2.2 hn⟩
    · obtain ⟨c, s, hs, hc⟩ := ih (n / 10) (by omega) (by omega)
      exact ⟨c, s ++ ofNat (n % 10), by rw [ofNat_of_le (by omega), hs, List.cons_append], hc⟩

theorem ne_of_isDigit {c d : UInt8} (hc : isDigit c = true) (hd : isDigit d = false) : c ≠ d := by
  rintro rfl
  rw [hc] at hd
  cases hd

theorem newline_notMem_ofNat (n : Nat) : newline ∉ ofNat n :=
  fun hmem => absurd (isDigit_of_mem_ofNat hmem) (by decide)

/-! ## Reading digits back -/

theorem ofNat_toUInt8_of_isDigit {c : Char} (h : c.isDigit = true) :
    Char.ofNat c.toUInt8.toNat = c := by
  have hrange : 48 ≤ c.toNat ∧ c.toNat ≤ 57 := by
    simpa [Char.isDigit, UInt32.le_iff_toNat_le] using h
  have hbyte : c.toUInt8.toNat = c.toNat := by
    rw [Char.toUInt8, UInt32.toNat_toUInt8]
    exact Nat.mod_eq_of_lt (show c.toNat < 256 by omega)
  rw [hbyte, Char.ofNat_toNat]

theorem ofNat_injective : Function.Injective ofNat := by
  intro m n h
  have hback : ∀ k, (ofNat k).map (fun b => Char.ofNat b.toNat) = Nat.toDigits 10 k := by
    intro k
    rw [ofNat, List.map_map]
    refine (List.map_congr_left fun c hc => ?_).trans (List.map_id _)
    exact ofNat_toUInt8_of_isDigit (Nat.isDigit_of_mem_toDigits (by decide) (by decide) hc)
  have hvalue : ∀ k, Nat.ofDigitChars 10 (Nat.toDigits 10 k) 0 = k := fun k =>
    Nat.ofDigitChars_toDigits (by decide) (by decide)
  rw [← hvalue m, ← hback, h, hback, hvalue]

end Text

end GrammarLayout
