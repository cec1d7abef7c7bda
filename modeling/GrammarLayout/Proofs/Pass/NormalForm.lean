import GrammarLayout.Proofs.Pass.Words
import GrammarLayout.Proofs.Text.Ends

/-!
# The form of a line with spaced operators

Spacing operators only moves blanks.  What comes out has single spaces and
nothing at its end, the characters that are no blanks are those of the line, and
so an end that holds layout only can be cut off before or after.

What is proved here:

* `filter_spaceOperators` — every byte but spaces and tabs is kept;
* `tab_notMem_spaceOperators`, `not_infix_spaceOperators`,
  `getLast?_spaceOperators` — the blanks that are left are single spaces between
  visible bytes;
* `trim_spaceOperators` — a trimmed line stays trimmed;
* `spaceOperators_trimLayout` — the layout at the end of a line can be cut off
  first.
-/

namespace GrammarLayout

open Ascii Text

/-! ## Blanks -/

theorem spaceOperators_eq_squeezed (line : Text) :
    spaceOperators line = squeezed false (spaceFrom (.text .code) [] [] line) :=
  trimEndWhile_collapseBlanks _

theorem mem_squeezed {gap : Bool} {s : Text} {c : UInt8} (h : c ∈ squeezed gap s) :
    c = space ∨ isBlank c = false := by
  induction s generalizing gap with
  | nil => exact absurd h (by simp [squeezed])
  | cons b s ih =>
    cases hb : isBlank b with
    | true => rw [squeezed_blank hb] at h; exact ih h
    | false =>
      rw [squeezed_byte hb, List.mem_append, List.mem_cons] at h
      rcases h with h | rfl | h
      · exact Or.inl (by cases gap <;> simp_all)
      · exact Or.inr hb
      · exact ih h

theorem getLast?_squeezed (gap : Bool) (s : Text) :
    ∀ c ∈ (squeezed gap s).getLast?, isBlank c = false := by
  induction s generalizing gap with
  | nil => simp [squeezed]
  | cons b s ih =>
    cases hb : isBlank b with
    | true => rw [squeezed_blank hb]; exact ih true
    | false =>
      intro c hc
      have hlast : ((squeezed false s).getLast?.getD b) = c := by
        simpa [squeezed_byte hb, List.getLast?_append, List.getLast?_cons] using hc
      cases hs : (squeezed false s).getLast? with
      | none => rw [hs] at hlast; exact hlast ▸ hb
      | some d => rw [hs] at hlast; exact ih false c (hs ▸ hlast ▸ rfl)

theorem not_infix_squeezed (gap : Bool) (s : Text) : ¬[space, space] <:+: squeezed gap s := by
  induction s generalizing gap with
  | nil => simp [squeezed]
  | cons b s ih =>
    cases hb : isBlank b with
    | true => rw [squeezed_blank hb]; exact ih true
    | false =>
      have hne : space ≠ b := by
        rintro rfl
        exact absurd hb (by decide)
      rw [squeezed_byte hb]
      cases gap with
      | false => simp [List.infix_cons_iff, hne, ih]
      | true => simp [List.infix_cons_iff, hne, ih]

theorem tab_notMem_spaceOperators (line : Text) : tab ∉ spaceOperators line := by
  rw [spaceOperators_eq_squeezed]
  intro h
  rcases mem_squeezed h with h | h
  · exact absurd h (by decide)
  · exact absurd h (by decide)

theorem not_infix_spaceOperators (line : Text) : ¬[space, space] <:+: spaceOperators line := by
  rw [spaceOperators_eq_squeezed]
  exact not_infix_squeezed false _

theorem getLast?_spaceOperators (line : Text) :
    ∀ c ∈ (spaceOperators line).getLast?, isBlank c = false := by
  rw [spaceOperators_eq_squeezed]
  exact getLast?_squeezed false _

/-! ## Visible bytes -/

theorem Words.filter_written {st : CodeState} {seen : Text} {gap : Bool} {s : Text}
    {ws : List Word} (h : Words st seen gap s ws) :
    (written ws).filter (!isBlank ·) = s.filter (!isBlank ·) := by
  have hgap : ∀ gap : Bool, (if gap then [space] else []).filter (!isBlank ·) = [] := by decide
  induction h with
  | nil => rfl
  | blank hc _ ih => simpa [hc] using ih
  | byte hc _ _ ih => simp [Word.write, hgap, hc, ih]
  | operator _ _ ih => simp [Word.write, hgap, ih]

/-- Every byte but spaces and tabs is kept. -/
theorem filter_spaceOperators (line : Text) :
    (spaceOperators line).filter (!isBlank ·) = line.filter (!isBlank ·) := by
  obtain ⟨ws, h⟩ := exists_words (.text .code) [] false line
  rw [h.spaceOperators_eq, h.filter_written]

theorem Words.mem_written {st : CodeState} {seen : Text} {gap : Bool} {s : Text} {ws : List Word}
    (h : Words st seen gap s ws) : ∀ c ∈ written ws, c = space ∨ c ∈ s := by
  have hword : ∀ (w : Word) (c : UInt8), c ∈ w.write → c = space ∨ c ∈ w.text := by
    rintro ⟨gap, text⟩ c hc
    cases gap <;> simp_all [Word.write]
  induction h with
  | nil => simp
  | blank _ _ ih => exact fun c hc => (ih c hc).imp_right (List.mem_cons_of_mem _)
  | byte _ _ _ ih =>
    intro c hc
    rcases List.mem_append.1 hc with hc | hc
    · exact (hword _ c hc).imp_right fun h => List.mem_cons.2 (Or.inl (List.mem_singleton.1 h))
    · exact (ih c hc).imp_right (List.mem_cons_of_mem _)
  | operator _ _ ih =>
    intro c hc
    rcases List.mem_append.1 hc with hc | hc
    · exact (hword _ c hc).imp_right (List.mem_append_left _)
    · exact (ih c hc).imp_right (List.mem_append_right _)

/-- What comes out is made of the bytes of the line and of spaces. -/
theorem mem_spaceOperators {line : Text} {c : UInt8} (h : c ∈ spaceOperators line) :
    c = space ∨ c ∈ line := by
  obtain ⟨ws, hws⟩ := exists_words (.text .code) [] false line
  rw [hws.spaceOperators_eq] at h
  exact hws.mem_written c h

/-- A visible byte at the start of a line stays there. -/
theorem head?_spaceOperators {line : Text} {c : UInt8} (hc : isBlank c = false)
    (hline : line.head? = some c) : (spaceOperators line).head? = some c := by
  obtain ⟨ws, h⟩ := exists_words (.text .code) [] false line
  rw [h.spaceOperators_eq]
  cases h with
  | nil => exact absurd hline (by simp)
  | blank hb => exact absurd hc (by simp [← Option.some.inj hline, hb])
  | byte => exact hline
  | @operator _ _ op s ws hop h =>
    obtain ⟨b, t, rfl⟩ := List.exists_cons_of_ne_nil hop.made_of.1
    exact hline

/-! ## Visible characters -/

/-- The pieces of a text that are no blanks. -/
def visiblePieces (s : Text) : List Piece := (pieces s).filter fun r => !r.raw.all isBlank

theorem visiblePieces_append {s t : Text} (h : Seam s t) :
    visiblePieces (s ++ t) = visiblePieces s ++ visiblePieces t := by
  rw [visiblePieces, h, List.filter_append]
  rfl

theorem visiblePieces_blank {c : UInt8} (hc : isBlank c = true) (s t : Text) :
    visiblePieces (s ++ c :: t) = visiblePieces s ++ visiblePieces t := by
  have hascii := lt_of_isAsciiSpace (isAsciiSpace_of_isBlank hc)
  rw [visiblePieces_append (seam_ascii_cons hascii s t), visiblePieces, visiblePieces,
    visiblePieces, pieces_ascii_cons hascii, List.filter_cons_of_neg (by simp [hc])]

/-- Reading on behind any text, the words have the visible characters of what they were read from;
a space stands for the blanks that were read before. -/
theorem Words.visiblePieces_written {st : CodeState} {seen : Text} {gap : Bool} {s : Text}
    {ws : List Word} (h : Words st seen gap s ws) (front : Text) :
    visiblePieces (front ++ (if gap then [space] else []) ++ s)
      = visiblePieces (front ++ written ws) := by
  have hspace : isBlank space = true := rfl
  have hdue : ∀ (gap : Bool) (x : Text) {c : UInt8} (t : Text), c < 0x80 →
      visiblePieces (x ++ (if gap then [space] else []) ++ c :: t)
        = visiblePieces x ++ visiblePieces (c :: t) := by
    intro gap x c t hc
    rw [visiblePieces_append (seam_ascii_cons hc _ _)]
    cases gap with
    | true => simpa [visiblePieces] using visiblePieces_blank hspace x []
    | false => simp
  induction h generalizing front with
  | @nil _ _ gap =>
    cases gap with
    | true => simpa [visiblePieces] using visiblePieces_blank hspace front []
    | false => simp
  | @blank st seen gap c s ws hc h ih =>
    have hnil : visiblePieces (c :: s) = visiblePieces s := visiblePieces_blank hc [] s
    rw [← ih, hdue gap front s (lt_of_isAsciiSpace (isAsciiSpace_of_isBlank hc)), hnil, if_pos rfl,
      List.append_assoc]
    exact (visiblePieces_blank hspace front s).symm
  | @byte st seen gap c s ws hc hop h ih =>
    have := ih (front ++ (if gap then [space] else []) ++ [c])
    simpa [Word.write] using this
  | @operator seen gap op s ws hop h ih =>
    obtain ⟨hne, hbytes⟩ := hop.made_of
    obtain ⟨c, t, hct⟩ := List.exists_cons_of_ne_nil hne
    have hc : c < 0x80 := (isOperatorByte_spec (hbytes c (hct ▸ List.mem_cons_self))).1
    obtain ⟨init, b, hinit⟩ := List.eq_nil_or_concat op |>.resolve_left hne
    have hb : b < 0x80 := (isOperatorByte_spec (hbytes b (by simp [hinit]))).1
    have hbehind : visiblePieces (op ++ s) = visiblePieces (op ++ written ws) := by
      rw [← ih op, if_pos rfl, List.append_assoc]
      refine Eq.trans ?_ (visiblePieces_blank hspace op s).symm
      rw [hinit, List.concat_eq_append]
      exact visiblePieces_append (seam_concat_ascii hb init s)
    have hread := hdue gap front (t ++ s) hc
    have hwritten := hdue (lastInk seen).isSome front (t ++ written ws) hc
    rw [← List.cons_append, ← hct] at hread hwritten
    rw [hread, hbehind, ← hwritten, written_cons, Word.write]
    simp

theorem visiblePieces_spaceOperators (line : Text) :
    visiblePieces (spaceOperators line) = visiblePieces line := by
  obtain ⟨ws, h⟩ := exists_words (.text .code) [] false line
  rw [h.spaceOperators_eq]
  exact (h.visiblePieces_written []).symm

/-! ## Trimmed lines -/

/-- A piece whose first byte is a blank is that blank. -/
theorem isSpace_of_blank {s : Text} {r : Piece} (hr : r ∈ pieces s) {c : UInt8} {t : Text}
    (hraw : r.raw = c :: t) (hc : isBlank c = true) : r.isSpace = true := by
  obtain ⟨qs, rs, hsplit⟩ := List.append_of_mem hr
  obtain ⟨-, hlead, -⟩ := pieces_drop_lead (pieces_ofPieces_right hsplit)
  have hspace := isAsciiSpace_of_isBlank hc
  rw [hlead, ofPieces_cons, hraw, List.cons_append, leadPiece_ascii (lt_of_isAsciiSpace hspace)]
  simpa [Piece.isSpace, isAsciiSpace, lt_of_isAsciiSpace hspace] using hspace

theorem visible_of_isSpace {s : Text} {r : Piece} (hr : r ∈ pieces s) (h : r.isSpace = false) :
    r.raw.all isBlank = false := by
  obtain ⟨c, t, hraw⟩ := List.exists_cons_of_ne_nil (raw_ne_nil hr)
  have hc : isBlank c = false := by
    rw [Bool.eq_false_iff]
    intro hc
    exact absurd (isSpace_of_blank hr hraw hc) (by simp [h])
  simp [hraw, hc]

theorem head?_visiblePieces {s : Text} {r : Piece} (hr : (pieces s).head? = some r)
    (h : r.raw.all isBlank = false) : (visiblePieces s).head? = some r := by
  obtain ⟨rs, hs⟩ := List.head?_eq_some_iff.1 hr
  rw [visiblePieces, hs, List.filter_cons_of_pos (by simp [h]), List.head?_cons]

theorem getLast?_visiblePieces {s : Text} {r : Piece} (hr : (pieces s).getLast? = some r)
    (h : r.raw.all isBlank = false) : (visiblePieces s).getLast? = some r := by
  obtain ⟨rs, hs⟩ := List.getLast?_eq_some_iff.1 hr
  rw [visiblePieces, hs, List.filter_append, List.filter_cons_of_pos (by simp [h]),
    List.filter_nil, List.getLast?_concat]

/-- A trimmed line stays trimmed. -/
theorem trim_spaceOperators {line : Text} (h : trim line = line) :
    trim (spaceOperators line) = spaceOperators line := by
  obtain ⟨hhead, hlast⟩ := trim_eq_self_iff.1 h
  have hpieces := visiblePieces_spaceOperators line
  by_cases hempty : pieces line = []
  · rw [pieces_eq_nil_iff.1 hempty]
    rfl
  -- The ends of the line are visible, and so are the ends of what comes out.
  refine trim_eq_self_iff.2 ⟨fun r hr => ?_, fun r hr => ?_⟩
  · obtain ⟨q, qs, hq⟩ := List.exists_cons_of_ne_nil hempty
    have hspace : q.isSpace = false := hhead q (by rw [hq]; rfl)
    have hmem : q ∈ pieces line := by rw [hq]; exact List.mem_cons_self
    obtain ⟨c, t, hraw⟩ := List.exists_cons_of_ne_nil (raw_ne_nil hmem)
    have hc : isBlank c = false := by
      rw [Bool.eq_false_iff]
      exact fun hc => absurd (isSpace_of_blank hmem hraw hc) (by simp [hspace])
    have hfirst : (spaceOperators line).head? = some c := by
      refine head?_spaceOperators hc ?_
      rw [← ofPieces_pieces line, hq, ofPieces_cons, hraw]
      rfl
    have hvisible : r.raw.all isBlank = false := by
      obtain ⟨rs, hrs⟩ := List.head?_eq_some_iff.1 hr
      have hr' : r ∈ pieces (spaceOperators line) := by rw [hrs]; exact List.mem_cons_self
      obtain ⟨b, t, hb⟩ := List.exists_cons_of_ne_nil (raw_ne_nil hr')
      rw [← ofPieces_pieces (spaceOperators line), hrs, ofPieces_cons, hb] at hfirst
      obtain rfl : b = c := Option.some.inj hfirst
      simp [hb, hc]
    have := head?_visiblePieces (by rw [hq]; rfl) (visible_of_isSpace hmem hspace)
    rw [← hpieces, head?_visiblePieces hr hvisible] at this
    exact Option.some.inj this ▸ hspace
  · obtain ⟨q, hq⟩ := List.getLast?_isSome.2 hempty |> Option.isSome_iff_exists.1
    have hspace : q.isSpace = false := hlast q hq
    have hvisible : r.raw.all isBlank = false := by
      obtain ⟨rs, hrs⟩ := List.getLast?_eq_some_iff.1 hr
      have hr' : r ∈ pieces (spaceOperators line) := by rw [hrs]; simp
      obtain ⟨init, b, hb⟩ := List.eq_nil_or_concat r.raw |>.resolve_left (raw_ne_nil hr')
      have hend : isBlank b = false := by
        refine getLast?_spaceOperators line b ?_
        rw [← ofPieces_pieces (spaceOperators line), hrs, ofPieces_append, ofPieces_cons, hb]
        simp
      simp [hb, hend]
    have := getLast?_visiblePieces hq (visible_of_isSpace (List.mem_of_getLast? hq) hspace)
    rw [← hpieces, getLast?_visiblePieces hr hvisible] at this
    exact Option.some.inj this ▸ hspace

/-! ## Layout at the end of a line -/

section Layout

variable {w : Text} (hw : ∀ c ∈ w, isLayout c = true)
include hw

theorem any_head?_append_layout {p : UInt8 → Bool} (hp : ∀ c, isLayout c = true → p c = false)
    (rest : Text) : (rest ++ w).head?.any p = rest.head?.any p := by
  cases rest with
  | cons c rest => rfl
  | nil =>
    cases w with
    | nil => rfl
    | cons c w => exact hp c (hw c List.mem_cons_self)

theorem IsOperator.append_layout_iff {seen op rest : Text} :
    IsOperator seen op (rest ++ w) ↔ IsOperator seen op rest :=
  ⟨fun h => h.of_rest fun _ hp hrest => (any_head?_append_layout hw hp rest).symm.trans hrest,
    fun h => h.of_rest fun _ hp hrest => (any_head?_append_layout hw hp rest).trans hrest⟩

/-- Layout behind a text holds no operator and no part of one. -/
theorem operatorAt?_append_layout (seen s : Text) :
    operatorAt? seen (s ++ w) = operatorAt? seen s := by
  refine Option.ext fun op => ?_
  rw [operatorAt?_eq_some_iff, operatorAt?_eq_some_iff]
  constructor
  · rintro ⟨rest, hrest, hop⟩
    rcases List.append_eq_append_iff.1 hrest with ⟨a, rfl, rfl⟩ | ⟨a, rfl, rfl⟩
    · have hnil : a = [] := by
        refine List.eq_nil_iff_forall_not_mem.2 fun c hc => ?_
        have hsigns : ∀ c ∈ bytes "|&=<+-*/", isLayout c = false := by decide +kernel
        have hsign := hop.made_of.2 c (List.mem_append_right s hc)
        have := hsigns c (List.contains_iff_mem.1 hsign)
        rw [hw c (List.mem_append_left rest hc)] at this
        exact absurd this (by simp)
      subst hnil
      exact ⟨[], by simp, (IsOperator.append_layout_iff hw).1 hop⟩
    · exact ⟨a, rfl, (IsOperator.append_layout_iff hw).1 hop⟩
  · rintro ⟨rest, rfl, hop⟩
    exact ⟨rest ++ w, by simp, (IsOperator.append_layout_iff hw).2 hop⟩

/-- Layout behind a text only adds words of layout. -/
theorem Words.append_layout {st : CodeState} {seen : Text} {gap : Bool} {s : Text}
    {ws : List Word} (h : Words st seen gap s ws) :
    ∃ ws', Words st seen gap (s ++ w) (ws ++ ws') ∧ ∀ c ∈ written ws', isLayout c = true := by
  induction h with
  | @nil st seen gap =>
    obtain ⟨ws, h⟩ := exists_words st seen gap w
    refine ⟨ws, h, fun c hc => ?_⟩
    rcases h.mem_written c hc with rfl | hc
    · rfl
    · exact hw c hc
  | blank hc h ih =>
    obtain ⟨ws', h', hws'⟩ := ih
    exact ⟨ws', .blank hc h', hws'⟩
  | @byte _ seen _ c s _ hc hop h ih =>
    obtain ⟨ws', h', hws'⟩ := ih
    refine ⟨ws', .byte hc (fun hst => ?_) h', hws'⟩
    exact (operatorAt?_append_layout hw seen (c :: s)).trans (hop hst)
  | @operator _ _ op s _ hop h ih =>
    obtain ⟨ws', h', hws'⟩ := ih
    refine ⟨ws', ?_, hws'⟩
    rw [List.append_assoc]
    exact .operator ((IsOperator.append_layout_iff hw).2 hop) h'

end Layout

theorem getLast?_filter {p : UInt8 → Bool} {s : Text} {c : UInt8} (hc : p c = true)
    (hs : s.getLast? = some c) : (s.filter p).getLast? = some c := by
  obtain ⟨t, rfl⟩ := List.getLast?_eq_some_iff.1 hs
  rw [List.filter_append, List.filter_cons_of_pos hc, List.filter_nil, List.getLast?_concat]

/-- A visible byte at the end of a line stays there. -/
theorem getLast?_spaceOperators_of_visible {line : Text} {c : UInt8} (hc : isBlank c = false)
    (hline : line.getLast? = some c) : (spaceOperators line).getLast? = some c := by
  have hkept := getLast?_filter (p := (!isBlank ·)) (by simpa using hc) hline
  rw [← filter_spaceOperators] at hkept
  cases hlast : (spaceOperators line).getLast? with
  | none =>
    rw [List.getLast?_eq_none_iff.1 hlast] at hkept
    exact absurd hkept (by simp)
  | some b =>
    have hb := getLast?_spaceOperators line b hlast
    rw [getLast?_filter (by simpa using hb) hlast] at hkept
    exact hkept

/-- The layout at the end of a line can be cut off first. -/
theorem spaceOperators_trimLayout (line : Text) :
    spaceOperators (trimEndWhile isLayout line) = trimEndWhile isLayout (spaceOperators line) := by
  obtain ⟨w, hline, hw⟩ := exists_trimEndWhile isLayout line
  obtain ⟨ws, h⟩ := exists_words (.text .code) [] false (trimEndWhile isLayout line)
  obtain ⟨ws', h', hws'⟩ := h.append_layout hw
  have hwritten : written (ws ++ ws') = written ws ++ written ws' := List.flatMap_append
  rw [← hline] at h'
  rw [h'.spaceOperators_eq, hwritten, h.spaceOperators_eq]
  rcases trimEndWhile_eq_nil_or_concat isLayout line with hnil | ⟨t, c, hc, hlast⟩
  · have hempty : written ws = [] := by
      rw [← h.spaceOperators_eq, hnil]
      rfl
    rw [hempty, List.nil_append, trimEndWhile_eq_nil_iff.2 hws']
  · have hblank : isBlank c = false := (Bool.or_eq_false_iff.1 (Bool.or_eq_false_iff.1 hc).1).1
    have hend := getLast?_spaceOperators_of_visible hblank (hlast ▸ List.getLast?_concat)
    rw [h.spaceOperators_eq] at hend
    obtain ⟨init, hinit⟩ := List.getLast?_eq_some_iff.1 hend
    rw [hinit, List.append_assoc, List.singleton_append, trimEndWhile_append_cons hc,
      trimEndWhile_eq_nil_iff.2 hws']

end GrammarLayout
