import GrammarLayout.Proofs.Text.Digits
import GrammarLayout.Toml.Number

/-!
# Whole numbers read back

The digits of a positive number, up to a byte that belongs to no number, are
read as that number: they start with no zero and no sign, hold no low line, and
their value fits.

What is proved here:

* `Integer.readDigits_ofNat`, `Integer.read_ofNat` — digits have their value;
* `decimalNumber?_append_cons` — where a decimal number ends;
* `number?_ofNat` — digits that end with the line are the whole number.
-/

namespace GrammarLayout

open Ascii Text

/-! ## Digits -/

namespace Integer

theorem readDigits_append (n : Nat) (s t : Text) :
    readDigits 10 n (s ++ t) = (readDigits 10 n s).bind fun m => readDigits 10 m t := by
  induction s generalizing n with
  | nil => rfl
  | cons c s ih =>
    simp only [List.cons_append, readDigits, ih]
    split
    · rfl
    · split
      · rfl
      · split
        · rfl
        · split <;> rfl

theorem readDigits_ofNat_of_lt {n : Nat} (hn : n < 10) {m : Nat} (hm : m * 10 + n < twoTo 64) :
    readDigits 10 m (ofNat n) = .ok (m * 10 + n) := by
  obtain ⟨-, hvalue, hline, -⟩ := digit_byte n hn
  rw [ofNat_of_lt hn, readDigits, if_neg hline, hvalue]
  simp only
  rw [if_neg (by omega), if_neg (by omega), readDigits]

/-- The digits of a number that fits have its value. -/
theorem readDigits_ofNat {n : Nat} (hn : n < twoTo 64) : readDigits 10 0 (ofNat n) = .ok n := by
  induction n using Nat.strongRecOn with
  | _ n ih =>
    by_cases hlt : n < 10
    · rw [readDigits_ofNat_of_lt hlt (by omega)]
      simp
    · have hvalue : n / 10 * 10 + n % 10 = n := by omega
      rw [ofNat_of_le (by omega), readDigits_append, ih (n / 10) (by omega) (by omega)]
      show readDigits 10 (n / 10) (ofNat (n % 10)) = _
      rw [readDigits_ofNat_of_lt (by omega) (by omega), hvalue]

/-- A positive number is read off its digits. -/
theorem read_ofNat {n : Nat} (hpos : 0 < n) (hn : n < twoTo 63) :
    read (ofNat n) = .ok (n : Int) := by
  obtain ⟨c, s, hs, hzero⟩ := exists_ofNat_eq_cons hpos
  have hdigit : isDigit c = true := isDigit_of_mem_ofNat (n := n) (by simp [hs])
  have hsign : splitSign (ofNat n) = (false, ofNat n) := by
    rw [hs, splitSign, if_neg (ne_of_isDigit hdigit (by decide)),
      if_neg (ne_of_isDigit hdigit (by decide))]
  have hbase : splitBase (ofNat n) = (10, ofNat n) := by
    simp [hs, splitBase, hzero]
  have hmagnitude : readMagnitude (ofNat n) = .ok n := by
    have hempty : (ofNat n).isEmpty = false := by rw [hs, List.isEmpty_cons]
    have hline : underscore ∉ ofNat n := fun h => absurd (isDigit_of_mem_ofNat h) (by decide)
    have hword : n < twoTo 64 := Nat.lt_trans hn (by decide)
    have hdigits : readDigits 10 0 (ofNat n) = .ok n := readDigits_ofNat hword
    simp [readMagnitude, hempty, hbase, hdigits, hline, bind, Except.bind, pure, Except.pure]
  have hfits : ¬ twoTo 63 ≤ n := by omega
  simp [read, hsign, hmagnitude, hfits, bind, Except.bind, pure, Except.pure]

end Integer

namespace Toml

theorem linesFollowDigits_go {s : Text} (hs : ∀ c ∈ s, isDigit c = true) (before : Bool) :
    linesFollowDigits.go before s = if s.isEmpty then before else true := by
  induction s generalizing before with
  | nil => rfl
  | cons c s ih =>
    have hc := hs c List.mem_cons_self
    have hline : c ≠ underscore := ne_of_isDigit hc (by decide)
    have hvalue : (hexValue? c).isSome = true := by rw [hexValue?, if_pos hc]; rfl
    rw [linesFollowDigits.go, hvalue, ih fun d hd => hs d (List.mem_cons_of_mem _ hd)]
    simp [hline]

theorem integer?_ofNat {n : Nat} (hpos : 0 < n) (hn : n < twoTo 63) :
    integer? (ofNat n) = some (.int .signed64 n) := by
  obtain ⟨c, s, hs, hzero⟩ := exists_ofNat_eq_cons hpos
  have hdigit : isDigit c = true := isDigit_of_mem_ofNat (n := n) (by simp [hs])
  have hlines : linesFollowDigits (ofNat n) = true := by
    rw [linesFollowDigits, linesFollowDigits_go fun _ => isDigit_of_mem_ofNat, hs]
    rfl
  have hlead : hasLeadingZero (ofNat n) = false := by
    have hminus : c ≠ minus := ne_of_isDigit hdigit (by decide)
    have hplus : c ≠ 0x2B := ne_of_isDigit hdigit (by decide)
    rw [hs]
    cases s with
    | nil => rfl
    | cons d s => simp [hasLeadingZero, hzero, hminus, hplus]
  rw [integer?, hlines, hlead, Integer.read_ofNat hpos hn]
  rfl

/-- What is taken from a text up to a byte. -/
theorem takeWhile_append_cons {p : UInt8 → Bool} {s : Text} (hs : ∀ b ∈ s, p b = true) {c : UInt8}
    (hc : p c = false) (rest : Text) : (s ++ c :: rest).takeWhile p = s := by
  rw [List.takeWhile_append_of_pos hs, List.takeWhile_cons_of_neg (by rw [hc]; decide),
    List.append_nil]

/-- A decimal number ends before a byte that belongs to no number. -/
theorem decimalNumber?_append_cons {ds : Text} (hds : ∀ b ∈ ds, isDigit b = true) {c : UInt8}
    (hc : isFloatByte c = false) (rest : Text) :
    decimalNumber? (ds ++ c :: rest) = (integer? ds).map (·, c :: rest) := by
  obtain ⟨⟨⟨⟨hdigit, hline⟩, hminus⟩, hplus⟩, hmark⟩ :
      (((isDigit c = false ∧ (c == underscore) = false) ∧ (c == minus) = false) ∧
        (c == 0x2B) = false) ∧ isFloatMark c = false := by
    simpa [isFloatByte] using hc
  have htake : (ds ++ c :: rest).takeWhile (fun b => isDigit b || b == underscore) = ds :=
    takeWhile_append_cons (fun b hb => by simp [hds b hb]) (by simp [hdigit, hline]) rest
  obtain ⟨b, t, hcons, hsign⟩ :
      ∃ b t, ds ++ c :: rest = b :: t ∧ ¬ (b = minus || b = 0x2B) = true := by
    cases ds with
    | nil => exact ⟨c, rest, rfl, by simp_all⟩
    | cons b ds =>
      have hb := hds b List.mem_cons_self
      have hminus : b ≠ minus := ne_of_isDigit hb (by decide)
      have hplus : b ≠ 0x2B := ne_of_isDigit hb (by decide)
      exact ⟨b, ds ++ c :: rest, rfl, by simp [hminus, hplus]⟩
  have hsize : (ds ++ c :: rest).drop ds.length = c :: rest := List.drop_left
  have htaken : (ds ++ c :: rest).take ds.length = ds := List.take_left
  rw [hcons] at htake hsize htaken ⊢
  simp only [decimalNumber?, if_neg hsign, List.drop_zero, htake, Nat.zero_add, hsize, hmark,
    htaken]
  rfl

/-- Digits that end with the line are the whole number. -/
theorem number?_ofNat {n : Nat} (hpos : 0 < n) (hn : n < twoTo 63) (rest : Text) :
    number? (ofNat n ++ newline :: rest) = some (.int .signed64 n, newline :: rest) := by
  obtain ⟨c, s, hs, hzero⟩ := exists_ofNat_eq_cons hpos
  have hdigit : isDigit c = true := isDigit_of_mem_ofNat (n := n) (by simp [hs])
  have hminus : c ≠ minus := ne_of_isDigit hdigit (by decide)
  have hplus : c ≠ 0x2B := ne_of_isDigit hdigit (by decide)
  have hmoment : startsMoment (ofNat n ++ newline :: rest) = false := by
    have htake : (ofNat n ++ newline :: rest).takeWhile isDigit = ofNat n :=
      takeWhile_append_cons (fun _ => isDigit_of_mem_ofNat) (by decide) rest
    have hnext : (newline == minus || newline == colon) = false := by decide
    simp only [startsMoment, htake, List.drop_left, List.head?_cons, Option.any_some, hnext,
      Bool.and_false]
  have hdecimal : decimalNumber? (ofNat n ++ newline :: rest)
      = some (.int .signed64 n, newline :: rest) := by
    rw [decimalNumber?_append_cons (fun _ => isDigit_of_mem_ofNat) (by decide),
      integer?_ofNat hpos hn, Option.map_some]
  have hcons : ofNat n ++ newline :: rest = c :: (s ++ newline :: rest) := by rw [hs]; rfl
  obtain ⟨d, more, hmore⟩ : ∃ d more, s ++ newline :: rest = d :: more := by
    cases s with
    | nil => exact ⟨_, _, rfl⟩
    | cons d s => exact ⟨_, _, rfl⟩
  rw [hcons, hmore] at hmoment hdecimal ⊢
  simp [number?, hmoment, hdecimal, hzero, hminus, hplus]

end Toml

end GrammarLayout
