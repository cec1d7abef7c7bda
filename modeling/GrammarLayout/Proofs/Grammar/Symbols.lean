import GrammarLayout.Proofs.Grammar.Blocks
import GrammarLayout.Proofs.Grammar.Shape

/-!
# The symbols of a production

A production is a list of symbols with a space between neighbours.  A symbol is
a word or a quoted literal; a literal may hold braces, pipes, hash marks and
colons, which mean nothing there.  Here the reader's scans of a line are
followed through such a list.

What is proved here:

* `Crisp.trim_append` — trimming gives back a text with visible ends;
* `Inert.openingBrace?_append`, `Inert.alternatives_append` — the scans for
  braces and pipes go through symbols and stop behind them;
* `header?_eq_none` — a line is no header when a sign stands before its colon;
* `Rule.readProductions_first`, `Rule.readProductions_alternative` — symbols
  are read as one production, with the text they were written with.
-/

namespace GrammarLayout

open Ascii Text

/-! ## Texts with visible ends -/

namespace Text

/-- An ASCII byte that is not white space. -/
def isVisible (c : UInt8) : Bool := c < 0x80 && !isWhiteSpace c.toNat

/-- The text starts and ends with a visible byte. -/
structure Crisp (s : Text) : Prop where
  /-- The first byte is visible. -/
  head : ∃ c rest, s = c :: rest ∧ isVisible c = true
  /-- The last byte is visible. -/
  last : ∃ front c, s = front ++ [c] ∧ isVisible c = true

theorem isVisible_iff {c : UInt8} :
    isVisible c = true ↔ c < 0x80 ∧ isWhiteSpace c.toNat = false := by
  simp [isVisible]

theorem isBlank_eq_false_of_isVisible {c : UInt8} (h : isVisible c = true) : isBlank c = false := by
  by_contra hblank
  rw [Bool.not_eq_false] at hblank
  have hspace := isAsciiSpace_of_isBlank hblank
  simp only [isAsciiSpace, Bool.and_eq_true] at hspace
  rw [isVisible_iff, hspace.2] at h
  exact absurd h.2 (by simp)

theorem isTerminator_eq_false_of_isVisible {c : UInt8} (h : isVisible c = true) :
    (c == carriageReturn || c == newline) = false := by
  rw [isVisible_iff] at h
  rw [Bool.or_eq_false_iff, beq_eq_false_iff_ne, beq_eq_false_iff_ne]
  constructor
  all_goals
    rintro rfl
    exact absurd h.2 (by decide)

/-- A line that ends with a visible byte loses its newline only. -/
theorem trimTerminator_visible {c : UInt8} (hc : isVisible c = true) (s : Text) :
    trimTerminator (s ++ [c] ++ [newline]) = s ++ [c] := by
  rw [trimTerminator_concat_newline]
  exact trimEndWhile_concat (isTerminator_eq_false_of_isVisible hc) s

/-- Trimming stops at the first and at the last element that stays. -/
theorem trimmed_append {α : Type} {p : α → Bool} {front l back : List α}
    (hfront : ∀ x ∈ front, p x = true) (hback : ∀ x ∈ back, p x = true)
    (hhead : ∃ x xs, l = x :: xs ∧ p x = false) (hlast : ∃ xs x, l = xs ++ [x] ∧ p x = false) :
    (((front ++ (l ++ back)).dropWhile p).reverse.dropWhile p).reverse = l := by
  have hstart : (front ++ (l ++ back)).dropWhile p = l ++ back := by
    obtain ⟨x, xs, rfl, hx⟩ := hhead
    rw [List.dropWhile_append_of_pos hfront, List.cons_append,
      List.dropWhile_cons_of_neg (by simp [hx])]
  have hend : (l ++ back).reverse.dropWhile p = l.reverse := by
    obtain ⟨xs, x, rfl, hx⟩ := hlast
    have hrev : ∀ y ∈ back.reverse, p y = true := fun y hy => hback y (List.mem_reverse.1 hy)
    rw [List.reverse_append, List.dropWhile_append_of_pos hrev, List.reverse_concat, List.dropWhile_cons_of_neg (by simp [hx])]
  rw [hstart, hend, List.reverse_reverse]

/-- White space around a text with visible ends is trimmed, and nothing else. -/
theorem Crisp.trim_append {s w t : Text} (hs : Crisp s) (hw : isSpaces w = true)
    (ht : isSpaces t = true) : trim (w ++ (s ++ t)) = s := by
  obtain ⟨c, rest, hc, hcv⟩ := hs.head
  obtain ⟨front, b, hb, hbv⟩ := hs.last
  rw [isVisible_iff] at hcv hbv
  have hseam : Seam s t := by
    rw [hb]
    exact seam_concat_ascii hbv.1 front t
  have hpieces : pieces (w ++ (s ++ t)) = pieces w ++ (pieces s ++ pieces t) := by
    rw [seam_of_isSpaces hw (s ++ t), hseam]
  rw [isSpaces, List.all_eq_true] at hw ht
  rw [trim, hpieces, trimmed_append hw ht, ofPieces_pieces]
  · exact ⟨_, _, by rw [hc]; exact pieces_ascii_cons hcv.1 rest, by simp [Piece.isSpace, hcv.2]⟩
  · refine ⟨pieces front, ⟨some b.toNat, [b]⟩, ?_, by simp [Piece.isSpace, hbv.2]⟩
    rw [hb, seam_ascii_cons hbv.1 front [], pieces_ascii_cons hbv.1, pieces_nil]

theorem Crisp.trim_eq {s : Text} (hs : Crisp s) : trim s = s := by
  simpa using hs.trim_append (w := []) (t := []) rfl rfl

/-- Bytes that are not visible are trimmed up to the end of a text with visible ends. -/
theorem Crisp.trimEndWhile_append {p : UInt8 → Bool} {s t : Text} (hs : Crisp s)
    (hp : ∀ c, isVisible c = true → p c = false) (ht : ∀ c ∈ t, p c = true) (w : Text) :
    trimEndWhile p (w ++ (s ++ t)) = w ++ s := by
  obtain ⟨front, b, rfl, hb⟩ := hs.last
  have hcut : w ++ (front ++ [b] ++ t) = (w ++ front) ++ b :: t := by simp
  rw [hcut, trimEndWhile_append_cons (hp b hb), trimEndWhile_eq_nil_iff.2 ht]
  simp

theorem Crisp.isSpaces_append {s : Text} (hs : Crisp s) (w t : Text) (hw : isSpaces w = true) :
    isSpaces (w ++ (s ++ t)) = false := by
  obtain ⟨c, rest, rfl, hc⟩ := hs.head
  rw [isVisible_iff] at hc
  rw [← Bool.not_eq_true, ← ink_eq_nil_iff, ink_isSpaces_append hw, List.cons_append,
    ink_visible_cons hc.1 hc.2]
  simp

/-- The first visible byte of a line is the first byte of the trimmed line. -/
theorem head?_trim_append {w : Text} (hw : isSpaces w = true) {c : UInt8} (hc : isVisible c = true)
    (s : Text) : (trim (w ++ c :: s)).head? = some c := by
  rw [isVisible_iff] at hc
  rw [head?_trim, ink_isSpaces_append hw, ink_visible_cons hc.1 hc.2]
  rfl

end Text

/-! ## Symbols -/

/-- An ASCII letter, an ASCII digit or the low line. -/
def isTokenByte (c : UInt8) : Bool := isUpper c || isLower c || isDigit c || c == underscore

/-- May `s` stand between two quotes `q`?  It must not end the literal or the line, or escape. -/
def IsLiteralText (q : UInt8) (s : Text) : Prop :=
  ∀ c ∈ s, c ≠ q ∧ c ≠ backslash ∧ c ≠ newline ∧ c ≠ carriageReturn

/-- One symbol of a production. -/
inductive IsToken : Text → Prop where
  /-- A word. -/
  | word {w : Text} (hne : w ≠ []) (hw : ∀ c ∈ w, isTokenByte c = true) : IsToken w
  /-- A quoted literal. -/
  | literal {q : UInt8} {s : Text} (hq : isQuote q = true) (hs : IsLiteralText q s) :
      IsToken (q :: (s ++ [q]))

/-- Symbols with single spaces between them; there is one at least. -/
def IsSymbols (p : Text) : Prop :=
  ∃ tokens, tokens ≠ [] ∧ (∀ t ∈ tokens, IsToken t) ∧ p = join [space] tokens

/-- A later production as it is written: blanks, a pipe, a space and symbols. -/
def IsAlternative (p : Text) : Prop :=
  ∃ w q, (∀ c ∈ w, isBlank c = true) ∧ IsSymbols q ∧ p = w ++ pipe :: space :: q

/-- A byte that a symbol or an alternative starts with. -/
def isEdge (c : UInt8) : Bool := isTokenByte c || isQuote c || c == pipe

/-- What holds of each of the 256 bytes holds of every byte. -/
theorem forall_byte {p : UInt8 → Prop} (h : ∀ i : Fin 256, p (UInt8.ofFin i)) (c : UInt8) :
    p c := by
  simpa using h c.toFin

theorem isVisible_of_isEdge {c : UInt8} : isEdge c = true → isVisible c = true :=
  forall_byte (p := fun c => isEdge c = true → isVisible c = true) (by decide +kernel) c

theorem isEdge_ne {c : UInt8} : isEdge c = true →
    c ≠ closeBrace ∧ c ≠ semicolon ∧ c ≠ hash ∧ c ≠ minus ∧ c ≠ newline ∧ c ≠ colon :=
  forall_byte (p := fun c => isEdge c = true →
    c ≠ closeBrace ∧ c ≠ semicolon ∧ c ≠ hash ∧ c ≠ minus ∧ c ≠ newline ∧ c ≠ colon)
    (by decide +kernel) c

theorem isTokenByte_spec {c : UInt8} : isTokenByte c = true →
    c < 0x80 ∧ isWordByte c = true ∧ isHeaderSpace c = false ∧ isQuote c = false ∧
      c ≠ openBrace ∧ c ≠ closeBrace ∧ c ≠ pipe ∧ c ≠ hash :=
  forall_byte (p := fun c => isTokenByte c = true →
    c < 0x80 ∧ isWordByte c = true ∧ isHeaderSpace c = false ∧ isQuote c = false ∧
      c ≠ openBrace ∧ c ≠ closeBrace ∧ c ≠ pipe ∧ c ≠ hash) (by decide +kernel) c

theorem isEdge_of_isTokenByte {c : UInt8} (h : isTokenByte c = true) : isEdge c = true := by
  simp [isEdge, h]

theorem isEdge_of_isQuote {c : UInt8} (h : isQuote c = true) : isEdge c = true := by
  simp [isEdge, h]

/-! ## Scans of a line -/

/-- A text that the scans for braces and pipes go through: words, blanks and literals. -/
inductive Inert : Text → Prop where
  /-- Nothing. -/
  | nil : Inert []
  /-- A byte of a word, or a blank. -/
  | byte {c : UInt8} {s : Text} (hc : isTokenByte c = true ∨ isBlank c = true) (hs : Inert s) :
      Inert (c :: s)
  /-- A literal. -/
  | literal {q : UInt8} {t s : Text} (hq : isQuote q = true) (ht : IsLiteralText q t)
      (hs : Inert s) : Inert (q :: (t ++ q :: s))

theorem Inert.append {s t : Text} (hs : Inert s) (ht : Inert t) : Inert (s ++ t) := by
  induction hs with
  | nil => exact ht
  | byte hc _ ih => exact .byte hc ih
  | literal hq hlit _ ih => simpa using Inert.literal hq hlit ih

theorem inert_of_bytes {w : Text} (hw : ∀ c ∈ w, isTokenByte c = true ∨ isBlank c = true) :
    Inert w := by
  induction w with
  | nil => exact .nil
  | cons c w ih =>
    exact .byte (hw c List.mem_cons_self) (ih fun b hb => hw b (List.mem_cons_of_mem c hb))

theorem inert_of_blanks {w : Text} (hw : ∀ c ∈ w, isBlank c = true) : Inert w :=
  inert_of_bytes fun c hc => Or.inr (hw c hc)

theorem IsToken.inert {t : Text} (h : IsToken t) : Inert t := by
  cases h with
  | word _ hw => exact inert_of_bytes fun c hc => Or.inl (hw c hc)
  | literal hq hs => exact .literal hq hs .nil

/-- A byte of a word or a blank is none of the signs that the scans look for. -/
theorem Inert.byte_ne {c : UInt8} (hc : isTokenByte c = true ∨ isBlank c = true) :
    isQuote c = false ∧ c ≠ openBrace ∧ c ≠ closeBrace ∧ c ≠ pipe ∧ c ≠ hash := by
  rcases hc with hc | hc
  · exact (isTokenByte_spec hc).2.2.2
  · simp only [isBlank, Bool.or_eq_true, beq_iff_eq] at hc
    rcases hc with rfl | rfl <;> decide

theorem next_of_isLiteralText {q c : UInt8} {t : Text} (ht : IsLiteralText q (c :: t)) :
    Quoting.next (.literal q) c = .literal q := by
  obtain ⟨hq, hesc, -⟩ := ht c List.mem_cons_self
  rw [Quoting.next, if_neg hesc, if_neg hq]

theorem IsLiteralText.tail {q c : UInt8} {t : Text} (ht : IsLiteralText q (c :: t)) :
    IsLiteralText q t := fun b hb => ht b (List.mem_cons_of_mem c hb)

/-- In a literal no brace opens a block. -/
theorem openingBraceFrom_literal {q : UInt8} (hq : isQuote q = true) {t : Text}
    (ht : IsLiteralText q t) (u : Text) :
    openingBraceFrom (.literal q) (t ++ q :: u)
      = (openingBraceFrom .code u).map (· + (t.length + 1)) := by
  induction t with
  | nil => rw [List.nil_append, openingBraceFrom, if_neg (by simp), next_quote hq]; rfl
  | cons c t ih =>
    rw [List.cons_append, openingBraceFrom, if_neg (by simp), next_of_isLiteralText ht, ih ht.tail,
      Option.map_map]
    rfl

/-- The first brace behind symbols is the first brace of what follows them. -/
theorem Inert.openingBrace?_append {s : Text} (hs : Inert s) (u : Text) :
    openingBrace? (s ++ u) = (openingBrace? u).map (· + s.length) := by
  unfold openingBrace?
  induction hs with
  | nil => simp
  | byte hc _ ih =>
    obtain ⟨hquote, hopen, -⟩ := byte_ne hc
    rw [List.cons_append, openingBraceFrom, if_neg (by simp [hopen]), Quoting.next,
      if_neg (by simp [hquote]), ih, Option.map_map]
    rfl
  | @literal q t s hq ht _ ih =>
    rw [List.cons_append, openingBraceFrom, if_neg (by simp [(isQuote_ne hq).1]), Quoting.next,
      if_pos hq, List.append_assoc, List.cons_append, openingBraceFrom_literal hq ht, ih,
      Option.map_map, Option.map_map]
    congr 1
    funext i
    simp
    omega

/-- In a literal no pipe divides alternatives. -/
theorem alternativesFrom_literal {q : UInt8} (hq : isQuote q = true) {t : Text}
    (ht : IsLiteralText q t) (d : Int) (u : Text) :
    alternativesFrom (.literal q) d (t ++ q :: u)
      = (t ++ q :: (alternativesFrom .code d u).1, (alternativesFrom .code d u).2) := by
  induction t with
  | nil => simp [alternativesFrom, next_quote hq]
  | cons c t ih => simp [alternativesFrom, next_of_isLiteralText ht, ih ht.tail]

/-- Symbols belong to the first alternative of a line that they start. -/
theorem Inert.alternatives_append {s : Text} (hs : Inert s) (u : Text) :
    alternatives (s ++ u) = (s ++ (alternatives u).1, (alternatives u).2) := by
  unfold alternatives
  induction hs with
  | nil => rfl
  | byte hc _ ih =>
    obtain ⟨hquote, hopen, hclose, hpipe, hhash⟩ := byte_ne hc
    simp [alternativesFrom, hquote, hopen, hclose, hpipe, hhash, ih]
  | literal hq ht _ ih =>
    simp [alternativesFrom, hq, Quoting.next, alternativesFrom_literal hq ht, ih]

theorem Inert.alternatives_eq {s : Text} (hs : Inert s) : alternatives s = (s, []) := by
  have := hs.alternatives_append []
  simpa [alternatives, alternativesFrom] using this

theorem Inert.newline_notMem {s : Text} (hs : Inert s) : newline ∉ s := by
  induction hs with
  | nil => simp
  | byte hc _ ih =>
    rw [List.mem_cons, not_or]
    refine ⟨?_, ih⟩
    rintro rfl
    exact absurd hc (by decide)
  | literal hq ht _ ih =>
    rw [List.mem_cons, List.mem_append, List.mem_cons]
    rintro (rfl | hmem | rfl | hmem)
    · exact absurd hq (by decide)
    · exact (ht newline hmem).2.2.1 rfl
    · exact absurd hq (by decide)
    · exact ih hmem

/-! ## Headers -/

theorem takeWhile_isWord_append {name t : Text} (hname : ∀ c ∈ name, isTokenByte c = true)
    (ht : (pieces t).takeWhile Piece.isWord = []) :
    ofPieces ((pieces (name ++ t)).takeWhile Piece.isWord) = name := by
  induction name with
  | nil => rw [List.nil_append, ht, ofPieces_nil]
  | cons c name ih =>
    obtain ⟨hascii, hword, -⟩ := isTokenByte_spec (hname c List.mem_cons_self)
    have hpiece : Piece.isWord ⟨some c.toNat, [c]⟩ = true := hword
    rw [List.cons_append, pieces_ascii_cons hascii, List.takeWhile_cons_of_pos hpiece,
      ofPieces_cons, ih fun b hb => hname b (List.mem_cons_of_mem c hb)]
    rfl

/-- A name, spaces and a colon are read as a header. -/
theorem header?_name {name w : Text} (hne : name ≠ []) (hname : ∀ c ∈ name, isTokenByte c = true)
    (hw : ∀ c ∈ w, c = space) (rest : Text) :
    header? (name ++ (w ++ colon :: rest)) = some (name, rest) := by
  have hstart : (name ++ (w ++ colon :: rest)).dropWhile isHeaderSpace
      = name ++ (w ++ colon :: rest) := by
    obtain ⟨c, name', rfl⟩ := List.exists_cons_of_ne_nil hne
    have hc := (isTokenByte_spec (hname c List.mem_cons_self)).2.2.1
    rw [List.cons_append, List.dropWhile_cons_of_neg (by simp [hc])]
  have hstop : (pieces (w ++ colon :: rest)).takeWhile Piece.isWord = [] := by
    cases w with
    | nil =>
      rw [List.nil_append, pieces_ascii_cons (by decide), List.takeWhile_cons_of_neg (by decide)]
    | cons c w =>
      rw [hw c List.mem_cons_self, List.cons_append, pieces_ascii_cons (by decide),
        List.takeWhile_cons_of_neg (by decide)]
  have hcolon : (w ++ colon :: rest).dropWhile isHeaderSpace = colon :: rest := by
    rw [List.dropWhile_append_of_pos fun c hc => by rw [hw c hc]; rfl,
      List.dropWhile_cons_of_neg (by decide)]
  simp [header?, hstart, takeWhile_isWord_append hname hstop, hcolon, hne]

/-! ## Lines that are no headers -/

/-- A sign that no header has stands before each colon. -/
def Shielded (s : Text) : Prop :=
  ∀ before after, s = before ++ colon :: after →
    ∃ c ∈ before, c < 0x80 ∧ isAsciiSpace c = false ∧ isWordByte c = false

theorem header?_eq_none {line : Text} (h : Shielded line) : header? line = none := by
  cases hline : header? line with
  | none => rfl
  | some p =>
    obtain ⟨name, rest⟩ := p
    obtain ⟨w₁, w₂, hcut, hw₁, hw₂, -⟩ := header?_eq hline
    obtain ⟨c, hc, hascii, hspace, hword⟩ := h (w₁ ++ (name ++ w₂)) rest (by simp [hcut])
    -- Before the colon of a header stand white space and bytes of names.
    rcases List.mem_append.1 hc with hc | hc
    · rw [hw₁ c hc] at hspace
      exact absurd hspace (by simp)
    · rcases List.mem_append.1 hc with hc | hc
      · rw [isWordByte_of_mem_name hline c hc hascii] at hword
        exact absurd hword (by simp)
      · rw [hw₂ c hc] at hspace
        exact absurd hspace (by simp)

theorem shielded_of_notMem {s : Text} (h : colon ∉ s) : Shielded s := by
  rintro before after rfl
  exact absurd (List.mem_append_right before List.mem_cons_self) h

theorem shielded_cons {c : UInt8} (hc : c < 0x80) (hspace : isAsciiSpace c = false)
    (hword : isWordByte c = false) (hcolon : c ≠ colon) (s : Text) : Shielded (c :: s) := by
  intro before after hs
  cases before with
  | nil => exact absurd (List.cons.inj hs).1 hcolon
  | cons b before =>
    obtain rfl : c = b := (List.cons.inj hs).1
    exact ⟨c, List.mem_cons_self, hc, hspace, hword⟩

theorem Shielded.append {s t : Text} (hs : Shielded s) (ht : Shielded t) : Shielded (s ++ t) := by
  intro before after h
  rcases List.append_eq_append_iff.1 h with ⟨mid, rfl, hmid⟩ | ⟨mid, hmid, hafter⟩
  · obtain ⟨c, hc, hsign⟩ := ht mid after hmid
    exact ⟨c, List.mem_append_right s hc, hsign⟩
  · cases mid with
    | nil =>
      obtain ⟨c, hc, hsign⟩ := ht [] after hafter.symm
      exact absurd hc (by simp)
    | cons b mid =>
      obtain rfl : b = colon := (List.cons.inj hafter).1.symm
      exact hs before mid hmid

theorem Inert.shielded {s : Text} (hs : Inert s) : Shielded s := by
  induction hs with
  | nil => exact shielded_of_notMem (by simp)
  | @byte c s hc _ ih =>
    refine Shielded.append (s := [c]) (shielded_of_notMem ?_) ih
    rw [List.mem_singleton]
    rintro rfl
    exact absurd hc (by decide)
  | @literal q t s hq _ _ _ =>
    simp only [isQuote, Bool.or_eq_true, beq_iff_eq] at hq
    rcases hq with rfl | rfl
    · exact shielded_cons (by decide) (by decide) (by decide) (by decide) _
    · exact shielded_cons (by decide) (by decide) (by decide) (by decide) _

/-! ## Lists of symbols -/

theorem IsToken.head {t : Text} (h : IsToken t) :
    ∃ c rest, t = c :: rest ∧ isEdge c = true ∧ c ≠ pipe := by
  cases h with
  | word hne hw =>
    obtain ⟨c, rest, rfl⟩ := List.exists_cons_of_ne_nil hne
    have hc := hw c List.mem_cons_self
    exact ⟨c, rest, rfl, isEdge_of_isTokenByte hc, (isTokenByte_spec hc).2.2.2.2.2.2.1⟩
  | @literal q s hq hs =>
    refine ⟨q, s ++ [q], rfl, isEdge_of_isQuote hq, ?_⟩
    rintro rfl
    exact absurd hq (by decide)

theorem IsToken.last {t : Text} (h : IsToken t) :
    ∃ front c, t = front ++ [c] ∧ isEdge c = true := by
  cases h with
  | word hne hw =>
    exact ⟨_, _, (List.dropLast_concat_getLast hne).symm,
      isEdge_of_isTokenByte (hw _ (List.getLast_mem hne))⟩
  | @literal q s hq hs => exact ⟨q :: s, q, rfl, isEdge_of_isQuote hq⟩

/-- A list of symbols is one symbol, or a symbol, a space and a list of symbols. -/
theorem IsSymbols.induction {motive : Text → Prop} (token : ∀ t, IsToken t → motive t)
    (cons : ∀ t q, IsToken t → motive q → motive (t ++ space :: q)) {p : Text} (h : IsSymbols p) :
    motive p := by
  obtain ⟨tokens, hne, htokens, rfl⟩ := h
  induction tokens with
  | nil => exact absurd rfl hne
  | cons t tokens ih =>
    have ht := htokens t List.mem_cons_self
    cases tokens with
    | nil => exact token t ht
    | cons u tokens =>
      have hrest := ih (by simp) fun v hv => htokens v (List.mem_cons_of_mem t hv)
      simpa [join] using cons t _ ht hrest

namespace IsSymbols

variable {p : Text} (h : IsSymbols p)
include h

theorem inert : Inert p := by
  refine h.induction (fun t ht => ht.inert) fun t q ht hq => ?_
  exact ht.inert.append (.byte (Or.inr (by decide)) hq)

theorem head : ∃ c rest, p = c :: rest ∧ isEdge c = true ∧ c ≠ pipe := by
  refine h.induction (fun t ht => ht.head) fun t q ht _ => ?_
  obtain ⟨c, rest, rfl, hc⟩ := ht.head
  exact ⟨c, rest ++ space :: q, rfl, hc⟩

theorem last : ∃ front c, p = front ++ [c] ∧ isEdge c = true := by
  refine h.induction (fun t ht => ht.last) fun t q _ hq => ?_
  obtain ⟨front, c, rfl, hc⟩ := hq
  exact ⟨t ++ space :: front, c, by simp, hc⟩

theorem crisp : Crisp p := by
  obtain ⟨c, rest, hhead, hc, -⟩ := h.head
  obtain ⟨front, b, hlast, hb⟩ := h.last
  exact ⟨⟨c, rest, hhead, isVisible_of_isEdge hc⟩, ⟨front, b, hlast, isVisible_of_isEdge hb⟩⟩

/-- Symbols behind a pipe. -/
theorem crisp_pipe : Crisp (pipe :: space :: p) := by
  obtain ⟨front, b, hlast, hb⟩ := h.last
  exact ⟨⟨pipe, space :: p, rfl, by decide⟩,
    ⟨pipe :: space :: front, b, by rw [hlast]; rfl, isVisible_of_isEdge hb⟩⟩

theorem hasPipe_eq_false : hasPipe p = false := by
  obtain ⟨c, rest, rfl, -, hc⟩ := h.head
  rw [hasPipe, h.crisp.trim_eq, ← Bool.not_eq_true, startsWith_singleton_iff]
  simpa using hc

end IsSymbols

/-! ## Reading symbols -/

theorem readyAlternatives_of_inert {text : Text} (h : Inert text) (header : Bool) :
    readyAlternatives text header = [text] := by
  rw [readyAlternatives, h.alternatives_eq]

theorem readyAlternatives_pipe {w s : Text} (hw : ∀ c ∈ w, isBlank c = true) (hs : Inert s)
    (header : Bool) : readyAlternatives (w ++ pipe :: s) header = [w ++ pipe :: s] := by
  have halts : alternatives (w ++ pipe :: s) = (w, [s]) := by
    have hpipe : alternatives (pipe :: s) = ([], [s]) := by
      have hcut : alternatives (pipe :: s) = ([], (alternatives s).1 :: (alternatives s).2) := rfl
      rw [hcut, hs.alternatives_eq]
    rw [(inert_of_blanks hw).alternatives_append, hpipe, List.append_nil]
  rw [readyAlternatives, halts]
  simp [isSpaces_of_blanks hw]

/-- Symbols between blanks are read as the first production of a rule. -/
theorem Rule.readProductions_first {r : Rule} (hr : r.productions = []) {w p t : Text}
    (hw : ∀ c ∈ w, isBlank c = true) (hp : IsSymbols p) (ht : ∀ c ∈ t, isBlank c = true) :
    r.readProductions (w ++ (p ++ t)) false = .ok (r.addProduction p) := by
  have hinert : Inert (w ++ (p ++ t)) :=
    (inert_of_blanks hw).append (hp.inert.append (inert_of_blanks ht))
  have htrim : trim (w ++ (p ++ t)) = p :=
    hp.crisp.trim_append (isSpaces_of_blanks hw) (isSpaces_of_blanks ht)
  have hne : p ≠ [] := by
    obtain ⟨c, rest, rfl, -⟩ := hp.head
    simp
  have hread : r.readAlternative (w ++ (p ++ t)) false = .ok (r.addProduction p) := by
    simp [readAlternative, htrim, hne, hp.hasPipe_eq_false, hr, header?_eq_none hp.inert.shielded]
  rw [readProductions, readyAlternatives_of_inert hinert]
  simp [hread]

/-- An alternative is read as one production, with its indentation. -/
theorem Rule.readProductions_alternative (r : Rule) {w q t : Text}
    (hw : ∀ c ∈ w, isBlank c = true) (hq : IsSymbols q) (ht : ∀ c ∈ t, isBlank c = true) :
    r.readProductions (w ++ (pipe :: space :: q ++ t)) false
      = .ok (r.addProduction (w ++ pipe :: space :: q)) := by
  have hready : readyAlternatives (w ++ (pipe :: space :: q ++ t)) false
      = [w ++ (pipe :: space :: q ++ t)] := by
    have hinert : Inert (space :: (q ++ t)) :=
      .byte (Or.inr (by decide)) (hq.inert.append (inert_of_blanks ht))
    exact readyAlternatives_pipe hw hinert false
  have htrim : trim (w ++ (pipe :: space :: q ++ t)) = pipe :: space :: q :=
    hq.crisp_pipe.trim_append (isSpaces_of_blanks hw) (isSpaces_of_blanks ht)
  have hpipe : hasPipe (pipe :: space :: q) = true := by
    rw [hasPipe, hq.crisp_pipe.trim_eq]
    rfl
  have hend : trimBlanksEnd (w ++ (pipe :: space :: q ++ t)) = w ++ pipe :: space :: q :=
    hq.crisp_pipe.trimEndWhile_append (fun _ => isBlank_eq_false_of_isVisible) ht w
  have hread : r.readAlternative (w ++ (pipe :: space :: q ++ t)) false
      = .ok (r.addProduction (w ++ pipe :: space :: q)) := by
    simp only [readAlternative, htrim, hpipe, hend]
    rfl
  rw [readProductions, hready, List.foldlM_cons, hread]
  rfl

end GrammarLayout
