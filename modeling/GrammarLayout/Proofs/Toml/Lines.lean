import GrammarLayout.Proofs.Text.Pieces
import GrammarLayout.Proofs.Toml.Number
import GrammarLayout.Style.Encode
import GrammarLayout.Toml.Parser

/-!
# Lines read back

The reader of a document takes one statement after the other and needs the rest
of the text only to know where a statement ends.  So what a line reads as can
be told for every text behind it.

What is proved here:

* `key?_join` — keys without quotes;
* `isPlain_text`, `isPlain_size`, `isPlain_flag` — values without parts;
* `statement?_table`, `statement?_assign` — the two kinds of lines;
* `statementsFrom?_lines` — a text of lines that each read as a statement.
-/

namespace GrammarLayout.Toml

open Ascii Text

theorem startsWith_cons_of_ne {c d : UInt8} (h : c ≠ d) (p s : Text) :
    startsWith (c :: p) (d :: s) = false := by
  rw [startsWith, List.isPrefixOf, beq_false_of_ne h, Bool.false_and]

/-! ## Keys -/

/-- A key that needs no quotes. -/
def IsBare (name : Text) : Prop := name ≠ [] ∧ ∀ b ∈ name, isBareByte b = true

instance (name : Text) : Decidable (IsBare name) :=
  decidable_of_iff (name ≠ [] ∧ name.all isBareByte = true) (and_congr_right' List.all_eq_true)

theorem ne_of_isBareByte {c d : UInt8} (hc : isBareByte c = true) (hd : isBareByte d = false) :
    c ≠ d := by
  rintro rfl
  rw [hc] at hd
  cases hd

theorem isBareByte_of_isBlank {b : UInt8} (h : isBlank b = true) : isBareByte b = false := by
  rw [isBlank, Bool.or_eq_true, beq_iff_eq, beq_iff_eq] at h
  rcases h with rfl | rfl <;> decide

theorem trimBlanksStart_cons {c : UInt8} (hc : isBlank c = false) (s : Text) :
    trimBlanksStart (c :: s) = c :: s := List.dropWhile_cons_of_neg (by rw [hc]; decide)

theorem trimBlanksStart_append {blanks : Text} (hblanks : ∀ b ∈ blanks, isBlank b = true)
    {c : UInt8} (hc : isBlank c = false) (s : Text) :
    trimBlanksStart (blanks ++ c :: s) = c :: s := by
  rw [trimBlanksStart, List.dropWhile_append_of_pos hblanks]
  exact trimBlanksStart_cons hc s

namespace IsBare

variable {name : Text} (h : IsBare name)

include h

theorem exists_eq_cons : ∃ c s, name = c :: s ∧ isBareByte c = true ∧ isBlank c = false := by
  obtain ⟨hne, hbare⟩ := h
  cases name with
  | nil => exact absurd rfl hne
  | cons c s =>
    have hc := hbare c List.mem_cons_self
    refine ⟨c, s, rfl, hc, ?_⟩
    cases hblank : isBlank c with
    | false => rfl
    | true => rw [isBareByte_of_isBlank hblank] at hc; cases hc

/-- A bare part ends before a byte that belongs to none. -/
theorem keyPart?_append {c : UInt8} (hc : isBareByte c = false) (rest : Text) :
    keyPart? (name ++ c :: rest) = some (name, c :: rest) := by
  have htake : (name ++ c :: rest).takeWhile isBareByte = name := takeWhile_append_cons h.2 hc rest
  have hdrop : (name ++ c :: rest).dropWhile isBareByte = c :: rest := by
    rw [List.dropWhile_append_of_pos h.2, List.dropWhile_cons_of_neg (by rw [hc]; decide)]
  obtain ⟨d, s, rfl, hd, -⟩ := h.exists_eq_cons
  rw [List.cons_append] at htake hdrop ⊢
  rw [keyPart?, if_neg (ne_of_isBareByte hd (by decide)), if_neg (ne_of_isBareByte hd (by decide)),
    if_pos hd, htake, hdrop]

end IsBare

/-- A key of bare parts with dots between them, blanks behind it left out. -/
theorem key?_join {parts : Key} (hne : parts ≠ []) (hbare : ∀ part ∈ parts, IsBare part)
    {blanks : Text} (hblanks : ∀ b ∈ blanks, isBlank b = true) {c : UInt8}
    (hc : isBareByte c = false) (hblank : isBlank c = false) (hdot : c ≠ dot) (rest : Text)
    {n : Nat} (hn : parts.length ≤ n) :
    key? n (join [dot] parts ++ (blanks ++ c :: rest)) = some (parts, c :: rest) := by
  induction parts generalizing n with
  | nil => exact absurd rfl hne
  | cons part parts ih =>
    obtain ⟨n, rfl⟩ : ∃ k, n = k + 1 := ⟨n - 1, by rw [List.length_cons] at hn; omega⟩
    have hpart := hbare part List.mem_cons_self
    obtain ⟨d, s, hcons, -, hd⟩ := hpart.exists_eq_cons
    have hstart : ∀ t, trimBlanksStart (part ++ t) = part ++ t := by
      intro t
      rw [hcons, List.cons_append, trimBlanksStart_cons hd]
    cases parts with
    | nil =>
      have hread : keyPart? (part ++ (blanks ++ c :: rest)) = some (part, blanks ++ c :: rest) := by
        cases blanks with
        | nil => exact hpart.keyPart?_append hc rest
        | cons b blanks =>
          exact hpart.keyPart?_append (isBareByte_of_isBlank (hblanks b List.mem_cons_self)) _
      rw [join, key?, hstart, hread]
      simp [trimBlanksStart_append hblanks hblank, hdot]
    | cons next parts =>
      have hrest := ih (List.cons_ne_nil _ _) (fun q hq => hbare q (List.mem_cons_of_mem _ hq))
        (n := n) (by simpa using hn)
      have htext : join [dot] (part :: next :: parts) ++ (blanks ++ c :: rest)
          = part ++ dot :: (join [dot] (next :: parts) ++ (blanks ++ c :: rest)) := by
        simp [join]
      rw [htext, key?, hstart, hpart.keyPart?_append (by decide)]
      simp [trimBlanksStart_cons (show isBlank dot = false by decide), hrest]

/-! ## Values -/

/-- A text that stands for a value without parts, up to the end of its line. -/
structure IsPlain (written : Text) (v : Setting) : Prop where
  /-- It starts with no blank, and opens no array and no inline table. -/
  head : ∃ c s, written = c :: s ∧ isBlank c = false ∧ c ≠ 0x5B ∧ c ≠ openBrace
  /-- It is read as the value. -/
  read : ∀ rest, plain? (written ++ newline :: rest) = some (v, newline :: rest)

theorem IsPlain.value? {written : Text} {v : Setting} (h : IsPlain written v) {blanks : Text}
    (hblanks : ∀ b ∈ blanks, isBlank b = true) (rest : Text) (n : Nat) :
    value? (n + 1) (blanks ++ (written ++ newline :: rest))
      = some (.plain v, newline :: rest) := by
  obtain ⟨⟨c, s, rfl, hblank, hbracket, hbrace⟩, hread⟩ := h
  have hplain := hread rest
  rw [List.cons_append] at hplain ⊢
  rw [Toml.value?, trimBlanksStart_append hblanks hblank]
  simp only
  rw [if_neg hbracket, if_neg hbrace, hplain]
  rfl

theorem isPlain_flag (b : Bool) : IsPlain (Setting.flag b).encode (.flag b) := by
  cases b with
  | false => exact ⟨⟨_, _, rfl, by decide, by decide, by decide⟩, fun rest => rfl⟩
  | true => exact ⟨⟨_, _, rfl, by decide, by decide, by decide⟩, fun rest => rfl⟩

theorem word?_of_isDigit {c : UInt8} (hc : isDigit c = true) (s : Text) :
    word? (c :: s) = none := by
  have hne : ∀ {d : UInt8}, isDigit d = false → d ≠ c := fun hd => (ne_of_isDigit hc hd).symm
  have hfirst : ∀ w ∈ words, startsWith w.1 (c :: s) = false := by
    have hletter : ∀ w ∈ words, ∃ d t, w.1 = d :: t ∧ isDigit d = false := by
      simp only [words, List.forall_mem_cons]
      refine ⟨?_, ?_, ?_, ?_, ?_, ?_, ?_, ?_, by simp⟩ <;> exact ⟨_, _, rfl, by decide⟩
    intro w hw
    obtain ⟨d, t, heq, hd⟩ := hletter w hw
    rw [heq]
    exact startsWith_cons_of_ne (hne hd) t s
  rw [word?, List.find?_eq_none.2 fun w hw => by rw [hfirst w hw]; decide]
  rfl

theorem isPlain_size {n : Nat} (hpos : 0 < n) (hn : n < twoTo 63) :
    IsPlain (Text.ofNat n) (.int .signed64 n) := by
  obtain ⟨c, s, hs, -⟩ := exists_ofNat_eq_cons hpos
  have hdigit : isDigit c = true := isDigit_of_mem_ofNat (n := n) (by simp [hs])
  have hne : ∀ {d : UInt8}, isDigit d = false → c ≠ d := ne_of_isDigit hdigit
  refine ⟨⟨c, s, hs, ?_, hne (by decide), hne (by decide)⟩, ?_⟩
  · rw [isBlank, beq_false_of_ne (hne (by decide)), beq_false_of_ne (hne (by decide))]
    rfl
  · intro rest
    have hnumber := number?_ofNat hpos hn rest
    rw [hs, List.cons_append] at hnumber ⊢
    rw [plain?, word?_of_isDigit hdigit, Option.none_or, hnumber]
    simp [hne (d := doubleQuote) (by decide), hne (d := singleQuote) (by decide)]

/-! ## Strings -/

/-- A byte of a string that stands for itself. -/
def isBasicByte (b : UInt8) : Bool := b != doubleQuote && b != backslash && !endsLine b

theorem scanBasic?_append {t : Text} (ht : ∀ b ∈ t, isBasicByte b = true) (rest : Text) :
    scanBasic? (t ++ doubleQuote :: rest) = some (t, rest) := by
  induction t with
  | nil => rw [List.nil_append, scanBasic?.eq_def]; rfl
  | cons b t ih =>
    have hb := ht b List.mem_cons_self
    simp only [isBasicByte, Bool.and_eq_true, bne_iff_ne, Bool.not_eq_true'] at hb
    rw [List.cons_append, scanBasic?.eq_def]
    simp [hb, ih fun c hc => ht c (List.mem_cons_of_mem _ hc)]

theorem unescape?_self {t : Text} (ht : ∀ b ∈ t, isBasicByte b = true) : unescape? t = some t := by
  induction t with
  | nil => rw [unescape?.eq_def]
  | cons b t ih =>
    have hb := ht b List.mem_cons_self
    simp only [isBasicByte, Bool.and_eq_true, bne_iff_ne] at hb
    rw [unescape?.eq_def]
    simp [hb, ih fun c hc => ht c (List.mem_cons_of_mem _ hc)]

theorem isPlain_text {t : Text} (hne : t ≠ []) (ht : ∀ b ∈ t, isBasicByte b = true) :
    IsPlain (Setting.text t).encode (.text t) := by
  refine ⟨⟨doubleQuote, t ++ [doubleQuote], rfl, by decide, by decide, by decide⟩, ?_⟩
  intro rest
  have hread : basic? (t ++ doubleQuote :: newline :: rest) = some (t, newline :: rest) := by
    simp [basic?, scanBasic?_append ht, unescape?_self ht]
  have hlong : startsWith [doubleQuote, doubleQuote] (t ++ doubleQuote :: newline :: rest)
      = false := by
    cases t with
    | nil => exact absurd rfl hne
    | cons b t =>
      have hb := ht b List.mem_cons_self
      simp only [isBasicByte, Bool.and_eq_true, bne_iff_ne] at hb
      exact startsWith_cons_of_ne (Ne.symm hb.1.1) _ _
  have htext : (Setting.text t).encode ++ newline :: rest
      = doubleQuote :: (t ++ doubleQuote :: newline :: rest) := by
    simp [Setting.encode]
  rw [htext, plain?, string?, hlong, hread]
  rfl

/-! ## Statements -/

theorem length_le_length_join {parts : List Text} (hparts : ∀ part ∈ parts, part ≠ []) :
    parts.length ≤ (join [dot] parts).length := by
  induction parts with
  | nil => exact Nat.zero_le _
  | cons part parts ih =>
    have hpart := List.length_pos_iff.2 (hparts part List.mem_cons_self)
    cases parts with
    | nil => exact hpart
    | cons next parts =>
      have hrest := ih fun q hq => hparts q (List.mem_cons_of_mem _ hq)
      simp only [join, List.length_append, List.length_cons] at hrest ⊢
      omega

theorem exists_join_eq_cons {parts : Key} (hne : parts ≠ [])
    (hbare : ∀ part ∈ parts, IsBare part) :
    ∃ c s, join [dot] parts = c :: s ∧ isBareByte c = true := by
  obtain ⟨part, parts, rfl⟩ := List.exists_cons_of_ne_nil hne
  obtain ⟨c, s, rfl, hc, -⟩ := (hbare part List.mem_cons_self).exists_eq_cons
  cases parts with
  | nil => exact ⟨c, s, rfl, hc⟩
  | cons next parts => exact ⟨c, _, rfl, hc⟩

/-- A line that opens a table. -/
theorem statement?_table {key : Key} (hne : key ≠ []) (hbare : ∀ part ∈ key, IsBare part)
    (rest : Text) :
    statement? (0x5B :: (join [dot] key ++ 0x5D :: rest)) = some (.table key, rest) := by
  have hlength : key.length ≤ (0x5B :: (join [dot] key ++ 0x5D :: rest)).length := by
    have := length_le_length_join fun part hpart => (hbare part hpart).1
    rw [List.length_cons, List.length_append]
    omega
  have hread := key?_join hne hbare (List.forall_mem_nil _) (c := 0x5D) (by decide) (by decide)
    (by decide) rest hlength
  obtain ⟨c, s, hcons, hc⟩ := exists_join_eq_cons hne hbare
  have hdouble : startsWith [0x5B] (join [dot] key ++ 0x5D :: rest) = false := by
    rw [hcons]
    exact startsWith_cons_of_ne (ne_of_isBareByte hc (by decide)).symm _ _
  rw [statement?, if_neg (by decide), hdouble, if_neg (by decide)]
  rw [List.nil_append] at hread
  rw [hread]
  rfl

/-- A line that gives a key a value. -/
theorem statement?_assign {name : Text} (hname : IsBare name) {written : Text} {v : Setting}
    (hv : IsPlain written v) (rest : Text) :
    statement? (name ++ (bytes " = " ++ (written ++ newline :: rest)))
      = some (.assign [name] (.plain v), newline :: rest) := by
  obtain ⟨c, s, hs, hc, -⟩ := hname.exists_eq_cons
  have htext : name ++ (bytes " = " ++ (written ++ newline :: rest))
      = c :: (s ++ (bytes " = " ++ (written ++ newline :: rest))) := by rw [hs]; rfl
  have hblanks : ∀ b ∈ [space], isBlank b = true := List.forall_mem_singleton.2 (by decide)
  have hbare : ∀ part ∈ [name], IsBare part := List.forall_mem_singleton.2 hname
  have hkey : ∀ n, key? (n + 1) (name ++ (bytes " = " ++ (written ++ newline :: rest)))
      = some ([name], equals :: space :: (written ++ newline :: rest)) := by
    intro n
    exact key?_join (List.cons_ne_nil name []) hbare hblanks (by decide) (by decide) (by decide)
      (space :: (written ++ newline :: rest)) (Nat.le_add_left 1 n)
  have hvalue : ∀ n, value? (n + 1) (space :: (written ++ newline :: rest))
      = some (.plain v, newline :: rest) :=
    hv.value? hblanks rest
  rw [htext] at hkey ⊢
  rw [statement?, if_pos (ne_of_isBareByte hc (by decide)), List.length_cons, hkey]
  show (value? _ _).bind _ = _
  rw [hvalue]
  rfl

/-! ## Documents -/

/-- A line that reads as a statement, whatever follows it. -/
def IsLine (line : Text) (statement : Statement) : Prop :=
  ∃ blanks c s, line = blanks ++ c :: s ∧ (∀ b ∈ blanks, isBlank b = true) ∧
    isLayout c = false ∧ c ≠ hash ∧
    ∀ rest, statement? (c :: (s ++ newline :: rest)) = some (statement, newline :: rest)

theorem skipTrivia_blanks_append {blanks : Text} (hblanks : ∀ b ∈ blanks, isBlank b = true)
    {c : UInt8} (hc : isLayout c = false) (hhash : c ≠ hash) (s : Text) :
    skipTrivia false (blanks ++ c :: s) = c :: s := by
  induction blanks with
  | nil => simp [skipTrivia, hc, hhash]
  | cons b blanks ih =>
    have hb : isLayout b = true := by
      rw [isLayout, hblanks b List.mem_cons_self]
      rfl
    rw [List.cons_append, skipTrivia, if_neg (by decide), if_pos hb]
    exact ih fun d hd => hblanks d (List.mem_cons_of_mem _ hd)

/-- A text of lines reads as the statements of its lines, in order. -/
theorem statementsFrom?_lines {ls : List (Text × Statement)} (hls : ∀ l ∈ ls, IsLine l.1 l.2)
    {n : Nat} (hn : ls.length ≤ n) :
    statementsFrom? n (ls.flatMap fun l => l.1 ++ [newline]) = some (ls.map Prod.snd) := by
  induction ls generalizing n with
  | nil => cases n <;> rfl
  | cons l ls ih =>
    obtain ⟨n, rfl⟩ : ∃ k, n = k + 1 := ⟨n - 1, by rw [List.length_cons] at hn; omega⟩
    obtain ⟨blanks, c, s, hline, hblanks, hlayout, hhash, hread⟩ := hls l List.mem_cons_self
    have hrest := ih (fun q hq => hls q (List.mem_cons_of_mem _ hq)) (n := n) (by simpa using hn)
    have htext : (l :: ls).flatMap (fun l => l.1 ++ [newline])
        = blanks ++ c :: (s ++ newline :: ls.flatMap fun l => l.1 ++ [newline]) := by
      simp [hline]
    have hend : ∀ t, lineEnd? (newline :: t) = some t := fun t => rfl
    rw [htext, statementsFrom?, skipTrivia_blanks_append hblanks hlayout hhash]
    simp [hread, hend, hrest]

/-- A byte that prints as itself. -/
def isPrintableByte (b : UInt8) : Bool := space ≤ b && b < 0x7F

theorem lt_of_isPrintableByte_or {b : UInt8} (h : isPrintableByte b = true ∨ b = newline) :
    b < 0x80 := by
  rcases h with h | rfl
  · rw [isPrintableByte, Bool.and_eq_true, decide_eq_true_eq, decide_eq_true_eq] at h
    exact UInt8.lt_trans h.2 (by decide)
  · decide

theorem isUtf8_of_ascii {s : Text} (hs : ∀ b ∈ s, b < 0x80) : isUtf8 s = true := by
  induction s with
  | nil => rfl
  | cons b s ih =>
    have hrest := ih fun c hc => hs c (List.mem_cons_of_mem _ hc)
    rw [isUtf8, pieces_ascii_cons (hs b List.mem_cons_self), List.all_cons]
    exact hrest

theorem noControls_of_printable {s : Text} (hs : ∀ b ∈ s, isPrintableByte b = true ∨ b = newline) :
    noControls s = true := by
  induction s with
  | nil => rfl
  | cons b s ih =>
    rw [noControls, ih fun c hc => hs c (List.mem_cons_of_mem _ hc), Bool.and_true]
    rcases hs b List.mem_cons_self with hb | rfl
    · simp only [isPrintableByte] at hb
      grind
    · rfl

theorem dropEncodingMark_of_ascii {s : Text} (hs : ∀ b ∈ s, b < 0x80) : dropEncodingMark s = s := by
  have hstart : ∀ {c : UInt8} (p : Text), ¬ c < 0x80 → startsWith (c :: p) s = false := by
    intro c p hc
    cases s with
    | nil => rfl
    | cons b s =>
      refine startsWith_cons_of_ne ?_ p s
      rintro rfl
      exact hc (hs _ List.mem_cons_self)
  rw [dropEncodingMark, hstart _ (by decide), hstart _ (by decide), dropStart, hstart _ (by decide)]
  rfl

/-- The statements of a document of printable lines. -/
theorem statements?_lines {ls : List (Text × Statement)} (hls : ∀ l ∈ ls, IsLine l.1 l.2)
    (hprint : ∀ l ∈ ls, ∀ b ∈ l.1, isPrintableByte b = true) :
    statements? (ls.flatMap fun l => l.1 ++ [newline]) = some (ls.map Prod.snd) := by
  have hbytes : ∀ b ∈ ls.flatMap fun l => l.1 ++ [newline],
      isPrintableByte b = true ∨ b = newline := by
    intro b hb
    obtain ⟨l, hl, hmem⟩ := List.mem_flatMap.1 hb
    rcases List.mem_append.1 hmem with hmem | hmem
    · exact Or.inl (hprint l hl b hmem)
    · exact Or.inr (List.mem_singleton.1 hmem)
  have hascii : ∀ b ∈ ls.flatMap fun l => l.1 ++ [newline], b < 0x80 :=
    fun b hb => lt_of_isPrintableByte_or (hbytes b hb)
  have hlength : ls.length ≤ (ls.flatMap fun l => l.1 ++ [newline]).length := by
    clear hls hprint hbytes hascii
    induction ls with
    | nil => exact Nat.zero_le _
    | cons l ls ih =>
      simp only [List.flatMap_cons, List.length_append, List.length_cons] at ih ⊢
      omega
  rw [statements?, dropEncodingMark_of_ascii hascii, isUtf8_of_ascii hascii,
    noControls_of_printable hbytes]
  exact statementsFrom?_lines hls hlength

end GrammarLayout.Toml
