import GrammarLayout.Proofs.Text.Pieces
import GrammarLayout.Text.Case

/-!
# Small letters of ASCII words

Two capitals beyond ASCII, the dotted I and the Kelvin sign, have small letters
in ASCII.  No other character beyond ASCII becomes one of ASCII, so a word that
needs neither letter is only written in capitals and small letters of ASCII.

What is proved here:

* `smallLetter_of_lt`, `smallLetter_of_le` — small letters in and beyond ASCII;
* `fold_ascii_cons`, `exists_mem_fold` — what the first character of a text becomes;
* `fold_eq_iff` — which texts become a word without `i` and `k`.
-/

namespace GrammarLayout

open Ascii Text

/-! ## Code points -/

/-- The code point is that of a character. -/
def IsCharacter (v : Nat) : Prop := v ≤ 0x10FFFF ∧ isSurrogate v = false

/-- A small letter is the code point itself or comes from the entry of the table that holds it. -/
theorem smallLetter_cases (v : Nat) :
    smallLetter v = v ∨ ∃ c ∈ capitalTable, c.first ≤ v ∧ v ≤ c.last ∧
      smallLetter v = (v + c.distance).toNat := by
  cases h : capitalTable.find? fun c => c.holds v with
  | none => exact Or.inl (by rw [smallLetter, h])
  | some c =>
    refine Or.inr ⟨c, List.mem_of_find?_eq_some h, ?_⟩
    have hholds := List.find?_some h
    rw [CapitalSpan.holds, Bool.and_eq_true, Bool.and_eq_true, decide_eq_true_eq,
      decide_eq_true_eq] at hholds
    exact ⟨hholds.1.1, hholds.1.2, by rw [smallLetter, h]⟩

/-- In ASCII the capitals are those from `A` to `Z`. -/
theorem smallLetter_of_lt {v : Nat} (h : v < 0x80) :
    smallLetter v = if 0x41 ≤ v ∧ v ≤ 0x5A then v + 0x20 else v := by
  split
  · rename_i hcapital
    have hholds : CapitalSpan.holds ⟨0x41, 0x5A, 1, 32⟩ v = true := by
      simp [CapitalSpan.holds, hcapital, Nat.mod_one]
    have hfind : capitalTable.find? (fun c => c.holds v) = some ⟨0x41, 0x5A, 1, 32⟩ := by
      obtain ⟨rest, hrest⟩ : ∃ rest, capitalTable = ⟨0x41, 0x5A, 1, 32⟩ :: rest := ⟨_, rfl⟩
      rw [hrest]
      exact List.find?_cons_of_pos hholds
    rw [smallLetter, hfind]
    show ((v : Int) + 32).toNat = v + 0x20
    omega
  · rename_i hcapital
    have htable : ∀ c ∈ capitalTable, 0x80 ≤ c.first ∨ c.first = 0x41 ∧ c.last = 0x5A := by
      decide +kernel
    rcases smallLetter_cases v with hsame | ⟨c, hc, hfirst, hlast, -⟩
    · exact hsame
    · have hentry := htable c hc
      omega

/-- Beyond ASCII only the dotted I and the Kelvin sign have small letters in ASCII. -/
theorem smallLetter_of_le {v : Nat} (h : 0x80 ≤ v) :
    0x80 ≤ smallLetter v ∨ smallLetter v = 0x69 ∨ smallLetter v = 0x6B := by
  have htable : ∀ c ∈ capitalTable, c.last < 0x80 ∨ 0x80 ≤ c.first + c.distance ∨
      c.first = c.last ∧ (c.first + c.distance = 0x69 ∨ c.first + c.distance = 0x6B) := by
    decide +kernel
  rcases smallLetter_cases v with hsame | ⟨c, hc, hfirst, hlast, hsmall⟩
  · rw [hsame]
    exact Or.inl h
  · rw [hsmall]
    have hentry := htable c hc
    omega

/-- The small letter of a character is one. -/
theorem isCharacter_smallLetter {v : Nat} (h : IsCharacter v) : IsCharacter (smallLetter v) := by
  have htable : ∀ c ∈ capitalTable, c.last + c.distance < 0xD800 ∨
      0xDFFF < c.first + c.distance ∧ c.last + c.distance ≤ 0x10FFFF := by
    decide +kernel
  rcases smallLetter_cases v with hsame | ⟨c, hc, hfirst, hlast, hsmall⟩
  · rwa [hsame]
  · have hentry := htable c hc
    have hplace : (v + c.distance).toNat < 0xD800 ∨
        0xDFFF < (v + c.distance).toNat ∧ (v + c.distance).toNat ≤ 0x10FFFF := by omega
    rw [hsmall, IsCharacter, isSurrogate, Bool.and_eq_false_iff, decide_eq_false_iff_not,
      decide_eq_false_iff_not]
    omega

/-! ## Bytes -/

/-- A character beyond ASCII starts with a byte beyond ASCII. -/
theorem exists_encodeChar {v : Nat} (h : IsCharacter v) (hle : 0x80 ≤ v) :
    ∃ b s, encodeChar v = b :: s ∧ ¬b < 0x80 := by
  have hhigh : ∀ n : Nat, 0x80 ≤ n → n < 0x100 → ¬n.toUInt8 < 0x80 := by
    intro n hn hlt
    rw [UInt8.lt_iff_toNat_lt, Nat.toUInt8, UInt8.toNat_ofNat']
    show ¬n % 256 < 128
    omega
  have hmax := h.1
  rw [encodeChar, if_neg (by omega)]
  split
  · exact ⟨_, _, rfl, hhigh _ (by omega) (by omega)⟩
  · rw [if_neg (by simp [h.2])]
    split
    · exact ⟨_, _, rfl, hhigh _ (by omega) (by omega)⟩
    · exact ⟨_, _, rfl, hhigh _ (by omega) (by omega)⟩

theorem payload_lt (c : UInt8) : payload c < 64 := Nat.mod_lt _ (by decide)

/-- A character that starts with a byte beyond ASCII is one beyond ASCII. -/
theorem isCharacter_of_leadChar? {a : UInt8} {s : Text} {v n : Nat} (ha : ¬a < 0x80)
    (h : leadChar? (a :: s) = some (v, n)) : IsCharacter v ∧ 0x80 ≤ v := by
  unfold leadChar? at h
  simp only [if_neg ha] at h
  split at h
  · cases h
  · rename_i hstart
    rw [UInt8.lt_iff_toNat_lt] at hstart
    have hstart : 0xC2 ≤ a.toNat := Nat.le_of_not_lt hstart
    split at h
    · -- two bytes
      rename_i hend
      have hend : a.toNat < 0xE0 := UInt8.lt_iff_toNat_lt.1 hend
      split at h
      · rename_i b t
        split at h
        · have hb := payload_lt b
          obtain ⟨rfl, -⟩ := Prod.mk.inj (Option.some.inj h)
          rw [IsCharacter, isSurrogate, Bool.and_eq_false_iff, decide_eq_false_iff_not]
          omega
        · cases h
      · cases h
    · split at h
      · -- three bytes
        split at h
        · rename_i b c t
          split at h
          · rename_i hkept
            simp only [Bool.and_eq_true, decide_eq_true_eq, Bool.not_eq_true'] at hkept
            have hb := payload_lt b
            have hc := payload_lt c
            obtain ⟨rfl, -⟩ := Prod.mk.inj (Option.some.inj h)
            exact ⟨⟨by omega, hkept.2⟩, by omega⟩
          · cases h
        · cases h
      · split at h
        · -- four bytes
          split at h
          · split at h
            · rename_i hkept
              simp only [Bool.and_eq_true, decide_eq_true_eq] at hkept
              obtain ⟨rfl, -⟩ := Prod.mk.inj (Option.some.inj h)
              rw [IsCharacter, isSurrogate, Bool.and_eq_false_iff, decide_eq_false_iff_not,
                decide_eq_false_iff_not]
              omega
            · cases h
          · cases h
        · cases h

/-! ## Texts -/

/-- The byte is in ASCII and neither `i` nor `k`. -/
def IsPlainLetter (b : UInt8) : Prop := b < 0x80 ∧ b ≠ 0x69 ∧ b ≠ 0x6B

theorem fold_of_ne_nil {s : Text} (hs : s ≠ []) :
    fold s = foldPiece (leadPiece s) ++ fold (s.drop (leadPiece s).raw.length) := by
  rw [fold, pieces_of_ne_nil hs, List.flatMap_cons]
  rfl

theorem encodeChar_smallLetter {c : UInt8} (hc : c < 0x80) :
    encodeChar (smallLetter c.toNat) = [toLower c] := by
  have hall : ∀ n < 0x80, encodeChar (if 0x41 ≤ n ∧ n ≤ 0x5A then n + 0x20 else n)
      = [toLower n.toUInt8] := by decide +kernel
  have hlt : c.toNat < 0x80 := UInt8.lt_iff_toNat_lt.1 hc
  rw [smallLetter_of_lt hlt, hall _ hlt, Nat.toUInt8, UInt8.ofNat_toNat]

theorem fold_ascii_cons {c : UInt8} (hc : c < 0x80) (s : Text) :
    fold (c :: s) = toLower c :: fold s := by
  rw [fold, pieces_ascii_cons hc, List.flatMap_cons]
  exact congrArg (· ++ fold s) (encodeChar_smallLetter hc)

/-- A byte beyond ASCII becomes what some character beyond ASCII becomes. -/
theorem exists_foldPiece {a : UInt8} (ha : ¬a < 0x80) (s : Text) :
    ∃ v, IsCharacter v ∧ 0x80 ≤ v ∧ foldPiece (leadPiece (a :: s)) = encodeChar (smallLetter v) := by
  have hreplaced : encodeChar replacement = encodeChar (smallLetter replacement) := by
    decide +kernel
  rw [leadPiece]
  cases h : leadChar? (a :: s) with
  | none => exact ⟨replacement, ⟨by decide, by decide⟩, by decide, hreplaced⟩
  | some p =>
    obtain ⟨hchar, hle⟩ := isCharacter_of_leadChar? ha h
    exact ⟨p.1, hchar, hle, rfl⟩

/-- A byte beyond ASCII leaves a trace in small letters. -/
theorem exists_mem_fold {a : UInt8} (ha : ¬a < 0x80) (s : Text) :
    ∃ b ∈ fold (a :: s), ¬IsPlainLetter b := by
  obtain ⟨v, hchar, hle, hpiece⟩ := exists_foldPiece ha s
  have htrace : ∃ b ∈ encodeChar (smallLetter v), ¬IsPlainLetter b := by
    rcases smallLetter_of_le hle with hsmall | hsmall | hsmall
    · obtain ⟨b, t, hb, hhigh⟩ := exists_encodeChar (isCharacter_smallLetter hchar) hsmall
      rw [hb]
      exact ⟨b, List.mem_cons_self, fun hplain => hhigh hplain.1⟩
    · rw [hsmall]
      exact ⟨0x69, by decide, by simp [IsPlainLetter]⟩
    · rw [hsmall]
      exact ⟨0x6B, by decide, by simp [IsPlainLetter]⟩
  obtain ⟨b, hb, hnot⟩ := htrace
  refine ⟨b, ?_, hnot⟩
  rw [fold_of_ne_nil (List.cons_ne_nil a s), hpiece]
  exact List.mem_append_left _ hb

/-- A text becomes a word without `i` and `k` exactly when it is that word but for capitals of
ASCII. -/
theorem fold_eq_iff {s w : Text} (hw : ∀ b ∈ w, IsPlainLetter b) :
    fold s = w ↔ s.map toLower = w := by
  induction s generalizing w with
  | nil => rfl
  | cons a s ih =>
    by_cases ha : a < 0x80
    · rw [fold_ascii_cons ha, List.map_cons]
      cases w with
      | nil => simp
      | cons b w =>
        rw [List.cons.injEq, List.cons.injEq, ih fun c hc => hw c (List.mem_cons_of_mem b hc)]
    · constructor
      · rintro rfl
        obtain ⟨b, hb, hnot⟩ := exists_mem_fold ha s
        exact absurd (hw b hb) hnot
      · rintro rfl
        have hsame : toLower a = a := by
          rw [toLower, if_neg]
          rw [isUpper, Bool.and_eq_true, decide_eq_true_eq, decide_eq_true_eq]
          rintro ⟨-, hle⟩
          exact ha (UInt8.lt_of_le_of_lt hle (by decide))
        have hplain := hw (toLower a) List.mem_cons_self
        rw [hsame] at hplain
        exact absurd hplain.1 ha

end GrammarLayout
