import GrammarLayout.Proofs.Pass.NormalForm

/-!
# Literals and comments of a line with spaced operators

A line is code, closed literals and a comment at its end.  Spacing operators
finds no operator in a literal or in the comment, but the blanks of the whole
line are collapsed at the end, those in literals and in the comment with them.

What is proved here:

* `Words.literalsFrom_written`, `Words.commentFrom_written` — what is written
  from the words of a line has its literals and its comment, their blanks
  collapsed;
* `collapseBlanks_eq_self_iff` — the texts that collapsing leaves as they are;
* `literals_comment_spaceOperators` — the literals and the comment of a line with spaced
  operators.
-/

namespace GrammarLayout

open Ascii Text

/-! ## The parts of a line -/

/-- The closed literals of a text with their quotes, in order, read from state `q`; `read` is what
was read of a literal so far, in reverse. -/
def literalsFrom : Quoting → Text → Text → List Text
  | _, _, [] => []
  | q, read, c :: s =>
      if q = .code then
        if c = hash then [] else literalsFrom (q.next c) [c] s
      else if q.next c = .code then (c :: read).reverse :: literalsFrom .code [] s
      else literalsFrom (q.next c) (c :: read) s

/-- The closed literals of a line, in order. -/
def literals (line : Text) : List Text := literalsFrom .code [] line

/-- The comment at the end of a text, from its hash mark on, read from state `q`. -/
def commentFrom : Quoting → Text → Text
  | _, [] => []
  | q, c :: s => if q = .code ∧ c = hash then c :: s else commentFrom (q.next c) s

/-- The comment of a line. -/
def comment (line : Text) : Text := commentFrom .code line

theorem commentFrom_suffix (q : Quoting) (s : Text) : commentFrom q s <:+ s := by
  induction s generalizing q with
  | nil => exact List.suffix_rfl
  | cons c s ih =>
    rw [commentFrom]
    split_ifs
    · exact List.suffix_rfl
    · exact (ih _).trans (List.suffix_cons c s)

/-- What was read before it is forgotten in code. -/
theorem literalsFrom_code (read read' s : Text) :
    literalsFrom .code read s = literalsFrom .code read' s := by
  cases s <;> rfl

theorem IsOperator.unquoted {seen op rest : Text} (h : IsOperator seen op rest) :
    ∀ c ∈ op, isQuote c = false ∧ c ≠ hash := fun c hc =>
  have hsign := isOperatorByte_spec (h.made_of.2 c hc)
  ⟨hsign.2.2.1, hsign.2.2.2.1⟩

/-- An operator opens no literal and no comment, nor does the space in front of it. -/
theorem IsOperator.unquoted_write {seen op rest : Text} (h : IsOperator seen op rest) (gap : Bool) :
    ∀ c ∈ (Word.mk gap op).write, isQuote c = false ∧ c ≠ hash := by
  intro c hc
  rcases List.mem_append.1 hc with hc | hc
  · split_ifs at hc
    · rw [List.mem_singleton.1 hc]
      decide
    · exact absurd hc (by simp)
  · exact h.unquoted c hc

theorem literalsFrom_plain {x : Text} (hx : ∀ c ∈ x, isQuote c = false ∧ c ≠ hash)
    (read read' s : Text) : literalsFrom .code read (x ++ s) = literalsFrom .code read' s := by
  induction x generalizing read with
  | nil => exact literalsFrom_code read read' s
  | cons c x ih =>
    obtain ⟨hquote, hhash⟩ := hx c List.mem_cons_self
    rw [List.cons_append, literalsFrom, if_pos rfl, if_neg hhash, Quoting.next,
      if_neg (by simp [hquote])]
    exact ih (fun b hb => hx b (List.mem_cons_of_mem c hb)) [c]

/-! ## Collapsed blanks -/

theorem collapseBlanks_cons {c : UInt8} (hc : isBlank c = false) (s : Text) :
    collapseBlanks (c :: s) = c :: collapseBlanks s := if_neg (by simp [hc])

theorem collapseBlanks_blank {c : UInt8} (hc : isBlank c = true) (s : Text) :
    collapseBlanks (c :: s)
      = if s.head?.any isBlank then collapseBlanks s else space :: collapseBlanks s := if_pos hc

/-- A text that ends in a visible byte is collapsed as it is squeezed. -/
theorem collapseBlanks_concat {c : UInt8} (hc : isBlank c = false) (s : Text) :
    collapseBlanks (s ++ [c]) = squeezed false (s ++ [c]) := by
  have hlast : ∃ t, collapseBlanks (s ++ [c]) = t ++ [c] := by
    induction s with
    | nil => exact ⟨[], collapseBlanks_cons hc []⟩
    | cons b s ih =>
      obtain ⟨t, ht⟩ := ih
      rw [List.cons_append]
      cases hb : isBlank b with
      | false => exact ⟨b :: t, by rw [collapseBlanks_cons hb, ht]; rfl⟩
      | true =>
        rw [collapseBlanks_blank hb, ht]
        split_ifs
        exacts [⟨t, rfl⟩, ⟨space :: t, rfl⟩]
  obtain ⟨t, ht⟩ := hlast
  have hspace : (c == space) = false := by
    rw [beq_eq_false_iff_ne]
    rintro rfl
    exact absurd hc (by decide)
  rw [← trimEndWhile_collapseBlanks, ht]
  exact (@trimEndWhile_concat (· == space) c hspace t).symm

/-- Squeezing a text is collapsing it without the blanks at its end. -/
theorem squeezed_eq_collapseBlanks (s : Text) :
    squeezed false s = collapseBlanks (trimBlanksEnd s) := by
  obtain ⟨w, hs, hw⟩ := exists_trimEndWhile isBlank s
  have hcut : squeezed false s = squeezed false (trimBlanksEnd s) := by
    conv_lhs => rw [hs, squeezed_append, squeezed_blanks hw, List.append_nil]
    rfl
  rw [hcut, trimBlanksEnd]
  rcases trimEndWhile_eq_nil_or_concat isBlank s with hnil | ⟨t, c, hc, hlast⟩
  · rw [hnil]
    rfl
  · rw [hlast, collapseBlanks_concat hc]

theorem length_collapseBlanks_le (s : Text) : (collapseBlanks s).length ≤ s.length := by
  induction s with
  | nil => exact Nat.le_refl _
  | cons c s ih =>
    rw [collapseBlanks]
    split_ifs <;> simp only [List.length_cons] <;> omega

/-- Collapsing keeps the texts whose blanks are single spaces. -/
theorem collapseBlanks_eq_self_iff {s : Text} :
    collapseBlanks s = s ↔ tab ∉ s ∧ ¬[space, space] <:+: s := by
  induction s with
  | nil => simp [collapseBlanks]
  | cons c s ih =>
    cases hc : isBlank c with
    | false =>
      have hne : tab ≠ c ∧ space ≠ c := by
        constructor <;> rintro rfl <;> exact absurd hc (by decide)
      rw [collapseBlanks_cons hc, List.cons_inj_right, ih]
      simp [List.infix_cons_iff, hne.1, hne.2]
    | true =>
      have hsigns : c = space ∨ c = tab := by simpa [isBlank] using hc
      rw [collapseBlanks_blank hc]
      split_ifs with hnext
      · obtain ⟨b, hb, t, rfl⟩ : ∃ b, isBlank b = true ∧ ∃ t, s = b :: t := by
          cases s with
          | nil => exact absurd hnext (by simp)
          | cons b t => exact ⟨b, hnext, t, rfl⟩
        have hlen := length_collapseBlanks_le (b :: t)
        refine iff_of_false (fun h => ?_) ?_
        · rw [h] at hlen
          exact absurd hlen (by simp)
        · rintro ⟨htab, hspaces⟩
          have hsign : b = space ∨ b = tab := by simpa [isBlank] using hb
          rcases hsigns with rfl | rfl
          · rcases hsign with rfl | rfl
            · exact hspaces ⟨[], t, rfl⟩
            · exact htab (by simp)
          · exact htab (by simp)
      · have hhead : ∀ t, s ≠ space :: t := by
          rintro t rfl
          exact hnext rfl
        rcases hsigns with rfl | rfl
        · rw [List.cons_inj_right, ih]
          have hprefix : ¬[space, space] <+: space :: s := by
            rintro ⟨t, ht⟩
            exact hhead t (List.cons.inj ht).2.symm
          have htab : tab ≠ space := by decide
          simp [List.infix_cons_iff, hprefix, htab]
        · have htab : space ≠ tab := by decide
          simp [htab]

/-! ## What is written of them -/

/-- A literal of which `read` was read has been written as `read'`, apart from the space that may be
due; `q'` is the state in front of that space. -/
structure Retraced (gap : Bool) (q : Quoting) (read : Text) (q' : Quoting) (read' : Text) : Prop where
  /-- The space leads to the state. -/
  state : q = if gap then q'.afterBlank else q'
  /-- In a literal, what was read has been written. -/
  bytes : q ≠ .code → squeezed false read.reverse = read'.reverse ∧ endsBlank read = gap

namespace Retraced

variable {gap : Bool} {q : Quoting} {read : Text} {q' : Quoting} {read' : Text}

theorem quoted (h : Retraced gap q read q' read') (hq : q.Quoted) : q'.Quoted := by
  have hstate := h.state
  split_ifs at hstate with hgap
  · exact Quoting.quoted_afterBlank.1 (hstate ▸ hq)
  · exact hstate ▸ hq

/-- The space that is due is read. -/
theorem exists_read (h : Retraced gap q read q' read') (hq : q.Quoted) (x : Text) :
    ∃ read'', literalsFrom q' read' ((if gap then [space] else []) ++ x)
        = literalsFrom q read'' x ∧
      (q ≠ .code → squeezed false (read.reverse) ++ (if gap then [space] else [])
        = read''.reverse) := by
  have hstate := h.state
  cases gap with
  | false =>
    refine ⟨read', by rw [hstate]; rfl, fun hcode => ?_⟩
    rw [(h.bytes hcode).1]
    exact List.append_nil _
  | true =>
    rw [if_pos rfl] at hstate
    have hnext : q'.next space = q := by rw [(h.quoted hq).next_blank rfl, hstate]
    by_cases hcode : q' = .code
    · subst hcode
      obtain rfl : q = .code := hstate
      exact ⟨[space], rfl, fun hne => absurd rfl hne⟩
    · have hne : q ≠ .code := by
        rintro rfl
        cases q' with
        | code => exact hcode rfl
        | literal b => exact absurd hstate (by simp [Quoting.afterBlank])
        | escape b => exact absurd hstate (by simp [Quoting.afterBlank])
      refine ⟨space :: read', ?_, fun _ => ?_⟩
      · rw [if_pos rfl, List.singleton_append, literalsFrom, if_neg hcode, hnext, if_neg hne]
      · rw [(h.bytes hne).1, List.reverse_cons]
        rfl

/-- After a blank a space is due. -/
theorem blank (h : Retraced gap q read q' read') (hq : q.Quoted) {c : UInt8}
    (hc : isBlank c = true) (read₀ : Text) :
    Retraced true (q.next c) (if q = .code then read₀ else c :: read) q' read' := by
  refine ⟨?_, fun hne => ?_⟩
  · have hstate := h.state
    rw [hq.next_blank hc, if_pos rfl]
    split_ifs at hstate <;> simp [hstate]
  · have hcode : q ≠ .code := by
      rintro rfl
      exact hne (hq.next_blank hc)
    obtain ⟨hbytes, -⟩ := h.bytes hcode
    rw [if_neg hcode, List.reverse_cons, squeezed_reverse_append, squeezed_blank hc, squeezed,
      List.append_nil]
    exact ⟨hbytes, hc⟩

end Retraced

/-- What is written from the words of a line has its literals, their blanks collapsed. -/
theorem Words.literalsFrom_written {st : CodeState} {seen : Text} {gap : Bool} {s : Text}
    {ws : List Word} (h : Words st seen gap s ws) {q : Quoting} (hst : st = .text q)
    (hq : q.Quoted) {read : Text} {q' : Quoting} {read' : Text}
    (hr : Retraced gap q read q' read') :
    literalsFrom q' read' (written ws) = (literalsFrom q read s).map collapseBlanks := by
  induction h generalizing q read q' read' with
  | nil => simp [literalsFrom]
  | @blank st seen gap c s ws hc h ih =>
    obtain ⟨hhash, -⟩ := of_isBlank hc
    have hnext : st.next c = .text (q.next c) := by rw [hst, CodeState.next_text fun _ => hhash]
    have hread : literalsFrom q read (c :: s)
        = literalsFrom (q.next c) (if q = .code then [c] else c :: read) s := by
      rw [literalsFrom]
      split_ifs with hcode hcut
      · rfl
      · exact absurd ((hq.next_blank hc).symm.trans hcut) (by simpa using hcode)
      · rfl
    rw [hread]
    exact ih hnext (hq.next c) (hr.blank hq hc [c])
  | @byte st seen gap c s ws hc hop h ih =>
    obtain ⟨read'', hread, hbytes⟩ := hr.exists_read hq ([c] ++ written ws)
    rw [written_cons, Word.write, List.append_assoc, hread, List.singleton_append, literalsFrom,
      literalsFrom]
    have hnext : (q = .code → c ≠ hash) → st.next c = .text (q.next c) := fun hcomment => by
      rw [hst, CodeState.next_text hcomment]
    -- What is written of a literal, the byte included.
    have hwritten : q ≠ .code → squeezed false (c :: read).reverse = (c :: read'').reverse := by
      intro hcode
      rw [List.reverse_cons, List.reverse_cons, ← hbytes hcode, squeezed_reverse_append,
        (hr.bytes hcode).2, squeezed_byte hc, List.append_assoc]
      rfl
    split_ifs with hcode hhash hclose
    · rfl
    · refine ih (hnext fun _ => hhash) (hq.next c) ⟨rfl, fun _ => ⟨?_, hc⟩⟩
      rw [List.reverse_singleton, squeezed_byte hc]
      rfl
    · have hrest := ih (hnext fun h => absurd h hcode) (hq.next c)
        (hclose ▸ ⟨rfl, fun h => absurd rfl h⟩ : Retraced false (q.next c) [] (q.next c) [])
      rw [hclose] at hrest
      rw [List.map_cons, ← hrest, ← hwritten hcode, List.reverse_cons, collapseBlanks_concat hc]
    · exact ih (hnext fun h => absurd h hcode) (hq.next c) ⟨rfl, fun _ => ⟨hwritten hcode, hc⟩⟩
  | @operator seen gap op s ws hop h ih =>
    obtain rfl : Quoting.code = q := CodeState.text.inj hst
    obtain rfl : q' = .code := by
      have hstate := hr.state
      split_ifs at hstate
      exacts [Quoting.afterBlank_eq_code_iff.1 hstate.symm, hstate.symm]
    rw [written_cons, literalsFrom_plain (hop.unquoted_write _) read' read' (written ws),
      literalsFrom_plain hop.unquoted read read s]
    exact ih rfl trivial ⟨rfl, fun h => absurd rfl h⟩

/-! ## Comments -/

theorem commentFrom_plain {x : Text} (hx : ∀ c ∈ x, isQuote c = false ∧ c ≠ hash) (s : Text) :
    commentFrom .code (x ++ s) = commentFrom .code s := by
  induction x with
  | nil => rfl
  | cons c x ih =>
    obtain ⟨hquote, hhash⟩ := hx c List.mem_cons_self
    rw [List.cons_append, commentFrom, if_neg fun h => hhash h.2, Quoting.next,
      if_neg (by simp [hquote])]
    exact ih fun b hb => hx b (List.mem_cons_of_mem c hb)

theorem commentFrom_space {q : Quoting} (hq : q.Quoted) (s : Text) :
    commentFrom q (space :: s) = commentFrom q.afterBlank s := by
  rw [commentFrom, if_neg fun h => absurd h.2 (by decide), hq.next_blank rfl]

/-- What is written from the words of a line has its comment, its blanks collapsed. -/
theorem Words.commentFrom_written {st : CodeState} {seen : Text} {gap : Bool} {s : Text}
    {ws : List Word} (h : Words st seen gap s ws) {q : Quoting} (hst : st = .text q)
    (hq : q.Quoted) {q' : Quoting} (hq' : q = if gap then q'.afterBlank else q') :
    commentFrom q' (written ws) = squeezed false (commentFrom q s) := by
  induction h generalizing q q' with
  | nil => rfl
  | @blank st seen gap c s ws hc h ih =>
    obtain ⟨hhash, -⟩ := of_isBlank hc
    rw [commentFrom, if_neg fun h => hhash h.2]
    refine ih (by rw [hst, CodeState.next_text fun _ => hhash]) (hq.next c) ?_
    rw [hq.next_blank hc, if_pos rfl]
    split_ifs at hq' <;> simp [hq']
  | @byte st seen gap c s ws hc hop h ih =>
    have hread : commentFrom q' (written (⟨gap, [c]⟩ :: ws)) = commentFrom q (c :: written ws) := by
      split_ifs at hq' with hgap
      · have hquoted : q'.Quoted := Quoting.quoted_afterBlank.1 (hq' ▸ hq)
        rw [written_cons, Word.write, if_pos hgap, hq', ← commentFrom_space hquoted]
        rfl
      · rw [written_cons, Word.write, if_neg hgap, hq']
        rfl
    rw [hread, commentFrom, commentFrom]
    split_ifs with hcomment
    · obtain ⟨rfl, rfl⟩ := hcomment
      subst hst
      rw [squeezed_byte hc, ← h.eq_squeezed]
      rfl
    · refine ih ?_ (hq.next c) rfl
      rw [hst, CodeState.next_text fun hcode hc => hcomment ⟨hcode, hc⟩]
  | @operator seen gap op s ws hop h ih =>
    obtain rfl : Quoting.code = q := CodeState.text.inj hst
    obtain rfl : q' = .code := by
      split_ifs at hq'
      exacts [Quoting.afterBlank_eq_code_iff.1 hq'.symm, hq'.symm]
    rw [written_cons, commentFrom_plain (hop.unquoted_write _), commentFrom_plain hop.unquoted]
    exact ih rfl trivial rfl

/-! ## The line as a whole -/

/-- Spacing operators keeps the literals and the comment of a line in their places and collapses the
blanks in them.  So they are kept byte for byte, blanks behind the comment apart, if and only if all
their blanks are single spaces. -/
theorem literals_comment_spaceOperators (line : Text) :
    literals (spaceOperators line) = (literals line).map collapseBlanks ∧
      comment (spaceOperators line) = collapseBlanks (trimBlanksEnd (comment line)) ∧
      comment (spaceOperators line) <:+ spaceOperators line ∧
      (literals (spaceOperators line) = literals line ↔
        ∀ l ∈ literals line, tab ∉ l ∧ ¬[space, space] <:+: l) ∧
      (comment (spaceOperators line) = trimBlanksEnd (comment line) ↔
        tab ∉ trimBlanksEnd (comment line) ∧ ¬[space, space] <:+: trimBlanksEnd (comment line)) := by
  obtain ⟨ws, h⟩ := exists_words (.text .code) [] false line
  have hliterals : literals (spaceOperators line) = (literals line).map collapseBlanks := by
    rw [h.spaceOperators_eq]
    exact h.literalsFrom_written rfl trivial ⟨rfl, fun hne => absurd rfl hne⟩
  have hcomment : comment (spaceOperators line) = collapseBlanks (trimBlanksEnd (comment line)) := by
    rw [h.spaceOperators_eq, ← squeezed_eq_collapseBlanks]
    exact h.commentFrom_written rfl trivial rfl
  refine ⟨hliterals, hcomment, commentFrom_suffix _ _, ?_, ?_⟩
  · have hkept : (literals line).map collapseBlanks = literals line
        ↔ ∀ l ∈ literals line, collapseBlanks l = l := by
      conv_lhs => rhs; rw [← List.map_id (literals line)]
      exact List.map_inj_left
    rw [hliterals, hkept]
    simp only [collapseBlanks_eq_self_iff]
  · rw [hcomment, collapseBlanks_eq_self_iff]

example : spaceOperators (bytes "x = \"a  b\"") = bytes "x = \"a b\"" := by decide

end GrammarLayout
