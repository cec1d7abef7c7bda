import GrammarLayout.Proofs.Grammar.Blocks
import GrammarLayout.Proofs.Pass.Operators

/-!
# The words of a line of code

Spacing the operators of a line reads the line as words, operators and single
bytes, and writes the words back with one space wherever a blank stood or an
operator begins or ends.  The words are all that the result depends on, and they
are what the result is made of when it is read again.

What is proved here:

* `Words.spaceOperators_eq` — the words of a line, written, are the line with
  its operators spaced;
* `Words.operatorAt?_written` — no operator appears where words are written;
* `Words.reread` — what was written from words has these words;
* `spaceOperators_spaceOperators` — spacing a line twice is spacing it once.
-/

namespace GrammarLayout

open Ascii Text

/-! ## Words -/

/-- A part of a line that is written as one: an operator or a single byte. -/
structure Word where
  /-- Whether a space is written in front of it. -/
  gap : Bool
  /-- Its bytes. -/
  text : Text

/-- The bytes of a word, behind its space. -/
def Word.write (w : Word) : Text := (if w.gap then [space] else []) ++ w.text

/-- Words, one after the other. -/
def written (ws : List Word) : Text := ws.flatMap Word.write

@[simp] theorem written_nil : written [] = [] := rfl

@[simp] theorem written_cons (w : Word) (ws : List Word) :
    written (w :: ws) = w.write ++ written ws := rfl

/-! ## States of the scan -/

theorem isQuote_of_isBlank {c : UInt8} (hc : isBlank c = true) : isQuote c = false := by
  rcases (by simpa [isBlank] using hc : c = space ∨ c = tab) with rfl | rfl <;> rfl

namespace Quoting

/-- The state after reading a blank. -/
def afterBlank : Quoting → Quoting
  | .escape q => .literal q
  | q => q

@[simp] theorem afterBlank_afterBlank (q : Quoting) : q.afterBlank.afterBlank = q.afterBlank := by
  cases q <;> rfl

@[simp] theorem quoted_afterBlank {q : Quoting} : q.afterBlank.Quoted ↔ q.Quoted := by
  cases q <;> exact Iff.rfl

@[simp] theorem afterBlank_eq_code_iff {q : Quoting} : q.afterBlank = .code ↔ q = .code := by
  cases q <;> simp [afterBlank]

/-- Blanks are all alike to the scan. -/
theorem Quoted.next_blank {q : Quoting} (h : q.Quoted) {c : UInt8} (hc : isBlank c = true) :
    q.next c = q.afterBlank := by
  match q with
  | .code => simp [Quoting.next, isQuote_of_isBlank hc, Quoting.afterBlank]
  | .escape b => rfl
  | .literal b =>
    have hslash : c ≠ backslash := by
      rcases (by simpa [isBlank] using hc : c = space ∨ c = tab) with rfl | rfl <;> decide
    have hquote : c ≠ b := by
      rintro rfl
      exact absurd (isQuote_of_isBlank hc) (by simp [show isQuote c = true from h])
    simp [Quoting.next, hslash, hquote, Quoting.afterBlank]

end Quoting

/-- Where a scan of a line of code stands. -/
inductive CodeState where
  /-- In code or in a literal. -/
  | text (q : Quoting)
  /-- In the comment at the end. -/
  | comment

namespace CodeState

/-- The state after reading one more byte. -/
def next : CodeState → UInt8 → CodeState
  | .text q, c => if q = .code ∧ c = hash then .comment else .text (q.next c)
  | .comment, _ => .comment

/-- A literal is closed by a quote. -/
def Quoted : CodeState → Prop
  | .text q => q.Quoted
  | .comment => True

/-- The state after reading a blank. -/
def afterBlank : CodeState → CodeState
  | .text q => .text q.afterBlank
  | .comment => .comment

@[simp] theorem afterBlank_afterBlank (st : CodeState) :
    st.afterBlank.afterBlank = st.afterBlank := by
  cases st <;> simp [afterBlank]

theorem eq_code_of_afterBlank {st : CodeState} (h : st.afterBlank = .text .code) :
    st = .text .code := by
  cases st <;> simp_all [afterBlank]

@[simp] theorem quoted_afterBlank {st : CodeState} : st.afterBlank.Quoted ↔ st.Quoted := by
  cases st <;> simp [afterBlank, Quoted]

theorem next_text {q : Quoting} {c : UInt8} (h : q = .code → c ≠ hash) :
    (text q).next c = text (q.next c) := if_neg fun hboth => h hboth.1 hboth.2

theorem Quoted.next_blank {st : CodeState} (h : st.Quoted) {c : UInt8} (hc : isBlank c = true) :
    st.next c = st.afterBlank := by
  cases st with
  | comment => rfl
  | text q =>
    have hhash : c ≠ hash := by
      rcases (by simpa [isBlank] using hc : c = space ∨ c = tab) with rfl | rfl <;> decide
    rw [next_text fun _ => hhash, Quoting.Quoted.next_blank h hc]
    rfl

theorem Quoted.next {st : CodeState} (h : st.Quoted) (c : UInt8) : (st.next c).Quoted := by
  cases st with
  | comment => trivial
  | text q =>
    rw [CodeState.next]
    split_ifs
    exacts [trivial, Quoting.Quoted.next h c]

end CodeState

/-! ## Reading words -/

/-- Read from state `st`, behind the text `seen` in reverse, the text has these words.  The flag says
whether a blank was read since the last word.  A space counts as read behind each operator. -/
inductive Words : CodeState → Text → Bool → Text → List Word → Prop where
  /-- The end of the line. -/
  | nil {st : CodeState} {seen : Text} {gap : Bool} : Words st seen gap [] []
  /-- A blank. -/
  | blank {st : CodeState} {seen : Text} {gap : Bool} {c : UInt8} {s : Text} {ws : List Word}
      (hc : isBlank c = true) (h : Words (st.next c) (c :: seen) true s ws) :
      Words st seen gap (c :: s) ws
  /-- A byte at which no operator starts, or a byte of a literal or a comment. -/
  | byte {st : CodeState} {seen : Text} {gap : Bool} {c : UInt8} {s : Text} {ws : List Word}
      (hc : isBlank c = false) (hop : st = .text .code → operatorAt? seen (c :: s) = none)
      (h : Words (st.next c) (c :: seen) false s ws) :
      Words st seen gap (c :: s) (⟨gap, [c]⟩ :: ws)
  /-- An operator, behind a space unless it comes first. -/
  | operator {seen : Text} {gap : Bool} {op s : Text} {ws : List Word}
      (hop : IsOperator seen op s)
      (h : Words (.text .code) (space :: (op.reverse ++ seen)) true s ws) :
      Words (.text .code) seen gap (op ++ s) (⟨(lastInk seen).isSome, op⟩ :: ws)

/-- Every text has words. -/
theorem exists_words (st : CodeState) (seen : Text) (gap : Bool) (s : Text) :
    ∃ ws, Words st seen gap s ws := by
  match s with
  | [] => exact ⟨[], .nil⟩
  | c :: t =>
    cases hc : isBlank c with
    | true =>
      obtain ⟨ws, h⟩ := exists_words (st.next c) (c :: seen) true t
      exact ⟨ws, .blank hc h⟩
    | false =>
      by_cases hop : st = .text .code → operatorAt? seen (c :: t) = none
      · obtain ⟨ws, h⟩ := exists_words (st.next c) (c :: seen) false t
        exact ⟨_, .byte hc hop h⟩
      · rw [Classical.not_imp, ← ne_eq, Option.ne_none_iff_exists'] at hop
        obtain ⟨rfl, op, hop⟩ := hop
        obtain ⟨rest, hrest, hop⟩ := exists_of_operatorAt? hop
        have hlen : rest.length < (c :: t).length := by
          have := List.length_pos_iff.2 hop.made_of.1
          rw [hrest, List.length_append]
          omega
        obtain ⟨ws, h⟩ := exists_words (.text .code) (space :: (op.reverse ++ seen)) true rest
        rw [hrest]
        exact ⟨_, .operator hop h⟩
termination_by s.length
decreasing_by all_goals simp_all

/-! ## The words of a line are what the scan writes -/

/-- The text with one space for each run of blanks between visible bytes; the flag says whether
blanks stand in front of it. -/
def squeezed : Bool → Text → Text
  | _, [] => []
  | gap, c :: s =>
      if isBlank c then squeezed true s else (if gap then [space] else []) ++ c :: squeezed false s

theorem squeezed_blank {c : UInt8} (hc : isBlank c = true) (gap : Bool) (s : Text) :
    squeezed gap (c :: s) = squeezed true s := if_pos hc

theorem squeezed_byte {c : UInt8} (hc : isBlank c = false) (gap : Bool) (s : Text) :
    squeezed gap (c :: s) = (if gap then [space] else []) ++ c :: squeezed false s :=
  if_neg (by simp [hc])

theorem squeezed_blanks {w : Text} (hw : ∀ c ∈ w, isBlank c = true) (gap : Bool) :
    squeezed gap w = [] := by
  induction w generalizing gap with
  | nil => rfl
  | cons c w ih =>
    rw [squeezed_blank (hw c List.mem_cons_self)]
    exact ih (fun b hb => hw b (List.mem_cons_of_mem c hb)) true

theorem squeezed_visible {s : Text} (hs : ∀ c ∈ s, isBlank c = false) (hne : s ≠ []) (gap : Bool) :
    squeezed gap s = (if gap then [space] else []) ++ s := by
  induction s generalizing gap with
  | nil => exact absurd rfl hne
  | cons c s ih =>
    rw [squeezed_byte (hs c List.mem_cons_self)]
    cases s with
    | nil => rfl
    | cons b s =>
      rw [ih (fun b hb => hs b (List.mem_cons_of_mem c hb)) (List.cons_ne_nil b s)]
      rfl

theorem squeezed_append (gap : Bool) (s t : Text) :
    squeezed gap (s ++ t) = squeezed gap s ++ squeezed ((s.getLast?.map isBlank).getD gap) t := by
  induction s generalizing gap with
  | nil => rfl
  | cons c s ih =>
    have hlast : (((c :: s).getLast?.map isBlank).getD gap)
        = (s.getLast?.map isBlank).getD (isBlank c) := by
      cases s <;> simp [List.getLast?_cons]
    rw [hlast, List.cons_append]
    cases hc : isBlank c with
    | true => rw [squeezed_blank hc, squeezed_blank hc, ih]
    | false => rw [squeezed_byte hc, squeezed_byte hc, ih]; simp

/-- Collapsing the blanks of a text and cutting its end is squeezing it. -/
theorem trimEndWhile_collapseBlanks (s : Text) :
    trimEndWhile (· == space) (collapseBlanks s) = squeezed false s := by
  induction s with
  | nil => rfl
  | cons c s ih =>
    cases hc : isBlank c with
    | false =>
      have hspace : (c == space) = false := by
        rw [beq_eq_false_iff_ne]
        rintro rfl
        exact absurd hc (by decide)
      rw [squeezed_byte hc, ← ih, collapseBlanks, if_neg (by simp [hc])]
      exact @trimEndWhile_append_cons (· == space) c hspace [] _
    | true =>
      rw [squeezed_blank hc, collapseBlanks, if_pos hc]
      match s with
      | [] => rfl
      | b :: s =>
        cases hb : isBlank b with
        | true =>
          rw [List.head?_cons, Option.any_some, if_pos hb, ih, squeezed_blank hb, squeezed_blank hb]
        | false =>
          have hne : squeezed false (b :: s) ≠ [] := by simp [squeezed_byte hb]
          rw [List.head?_cons, Option.any_some, if_neg (by simp [hb]),
            ← List.singleton_append, trimEndWhile_append_of_ne_nil (ih ▸ hne), ih, squeezed_byte hb,
            squeezed_byte hb]
          rfl

/-- The scan reads a line as quoting `q` does. -/
def OperatorScan.Reads (m : OperatorScan) (q : Quoting) : Prop := m = .text q ∨ m = .gap ∧ q = .code

section Scan

variable {m : OperatorScan} {q : Quoting} (hm : m.Reads q)
include hm

theorem spaceFrom_text {c : UInt8} (hgap : m = .gap → isBlank c = false) (seen out s : Text)
    (hhash : q = .code → c ≠ hash) (hop : q = .code → operatorAt? seen (c :: s) = none) :
    spaceFrom m seen out (c :: s) = spaceFrom (.text (q.next c)) (c :: seen) (c :: out) s := by
  match q with
  | .literal b | .escape b =>
    obtain rfl : m = .text _ := hm.resolve_right (by simp)
    rfl
  | .code =>
    rcases hm with rfl | ⟨rfl, -⟩
    · by_cases hquote : isQuote c = true
      · simp [spaceFrom, hquote, Quoting.next]
      · simp [spaceFrom, hquote, hhash rfl, hop rfl, Quoting.next]
    · by_cases hquote : isQuote c = true
      · simp [spaceFrom, hgap rfl, hquote, Quoting.next]
      · simp [spaceFrom, hgap rfl, hquote, hhash rfl, hop rfl, Quoting.next]

theorem spaceFrom_hash (hq : q = .code) (seen out s : Text) :
    spaceFrom m seen out (hash :: s) = out.reverse ++ hash :: s := by
  subst hq
  rcases hm with rfl | ⟨rfl, -⟩ <;> rfl

end Scan

theorem spaceFrom_passed (op : Text) (seen out s : Text) :
    spaceFrom (.after op.length) seen out (op ++ s)
      = spaceFrom .gap (op.reverse ++ seen) out s := by
  induction op generalizing seen with
  | nil => rfl
  | cons c op ih =>
    have hstep : spaceFrom (.after (c :: op).length) seen out (c :: op ++ s)
        = spaceFrom (.after op.length) (c :: seen) out (op ++ s) := by
      simp [OperatorScan.after, spaceFrom]
    rw [hstep, ih]
    simp

theorem spaceFrom_operator {m : OperatorScan} (hm : m.Reads .code) {seen op s : Text} (out : Text)
    (hop : operatorAt? seen (op ++ s) = some op) :
    spaceFrom m seen out (op ++ s)
      = spaceFrom .gap (op.reverse ++ seen) (writeOperator out op) s := by
  obtain ⟨hne, hbytes⟩ := isOperatorByte_of_operatorAt? hop
  obtain ⟨c, op, rfl⟩ := List.exists_cons_of_ne_nil hne
  obtain ⟨-, hblank, hquote, hhash, -⟩ := isOperatorByte_spec (hbytes c List.mem_cons_self)
  have hstep : spaceFrom m seen out (c :: op ++ s)
      = spaceFrom (.after op.length) (c :: seen) (writeOperator out (c :: op)) (op ++ s) := by
    rw [List.cons_append] at hop ⊢
    rcases hm with rfl | ⟨rfl, -⟩
    · simp [spaceFrom, hquote, hhash, hop]
    · simp [spaceFrom, hblank, hquote, hhash, hop]
  rw [hstep, spaceFrom_passed]
  simp

/-- The last byte of a text in reverse is a blank. -/
def endsBlank (out : Text) : Bool := out.head?.any isBlank

theorem squeezed_reverse_append (out s : Text) :
    squeezed false (out.reverse ++ s) = squeezed false out.reverse ++ squeezed (endsBlank out) s := by
  rw [squeezed_append, List.getLast?_reverse]
  cases out <;> rfl

/-- The output in front of an operator ends in a space, unless there is none. -/
theorem squeezed_writeOperator (out : Text) {op : Text} (hne : op ≠ [])
    (hop : ∀ c ∈ op, isBlank c = false) :
    squeezed false (writeOperator out op).reverse
      = squeezed false out.reverse ++ (Word.mk (lastInk out).isSome op).write := by
  have hcut : squeezed false out.reverse = squeezed false (out.dropWhile isBlank).reverse := by
    have hsplit : out.reverse
        = (out.dropWhile isBlank).reverse ++ (out.takeWhile isBlank).reverse := by
      rw [← List.reverse_append, List.takeWhile_append_dropWhile]
    rw [hsplit, squeezed_append, squeezed_blanks (w := (out.takeWhile isBlank).reverse) ?_,
      List.append_nil]
    exact fun c hc => List.mem_takeWhile_imp (List.mem_reverse.1 hc)
  have hword : ∀ gap, squeezed gap (op ++ [space]) = (if gap then [space] else []) ++ op := by
    intro gap
    rw [squeezed_append, squeezed_visible hop hne, squeezed_blanks (List.forall_mem_singleton.2 rfl),
      List.append_nil]
  rw [hcut, writeOperator, lastInk]
  cases hbefore : out.dropWhile isBlank with
  | nil => simpa [Word.write, squeezed] using hword false
  | cons c before =>
    have hrev : (space :: op.reverse ++ (space :: c :: before)).reverse
        = (c :: before).reverse ++ space :: (op ++ [space]) := by simp
    have hgap : squeezed (((c :: before).reverse.getLast?.map isBlank).getD false)
        (space :: (op ++ [space])) = space :: op :=
      (squeezed_blank rfl _ _).trans (hword true)
    rw [List.isEmpty_cons, if_neg Bool.false_ne_true, hrev, squeezed_append, hgap]
    rfl

theorem of_isBlank {c : UInt8} (hc : isBlank c = true) :
    c ≠ hash ∧ ∀ seen s, operatorAt? seen (c :: s) = none := by
  have hsigns : c ≠ hash ∧ isOperatorByte c = false := by
    rcases (by simpa [isBlank] using hc : c = space ∨ c = tab) with rfl | rfl <;> decide
  exact ⟨hsigns.1, operatorAt?_eq_none hsigns.2⟩

namespace Words

theorem eq_squeezed {seen : Text} {gap : Bool} {s : Text} {ws : List Word}
    (h : Words .comment seen gap s ws) : written ws = squeezed gap s := by
  generalize hst : CodeState.comment = st at h
  induction h with
  | nil => rfl
  | blank hc _ ih =>
    subst hst
    rw [squeezed_blank hc]
    exact ih rfl
  | @byte _ _ gap c s ws hc _ _ ih =>
    subst hst
    rw [squeezed_byte hc, written_cons, ih rfl]
    simp [Word.write]
  | operator => exact absurd hst (by simp)

/-- A scan that has read `r` and written `out`, in reverse, stands where the words do that are left
behind `seen` and in front of `s`. -/
structure Met (q : Quoting) (seen : Text) (gap : Bool) (s : Text) (m : OperatorScan)
    (r out : Text) : Prop where
  /-- Both stand in the same literal, or in code. -/
  reads : m.Reads q
  /-- The last byte read that is no blank is the same. -/
  lastInk : lastInk r = lastInk seen
  /-- The same operator comes next. -/
  operatorAt? : operatorAt? r s = operatorAt? seen s
  /-- Something was written if something visible was read. -/
  visible : (GrammarLayout.lastInk out).isSome = (GrammarLayout.lastInk seen).isSome
  /-- A blank was written last if a space is to be written next. -/
  ending : endsBlank out = gap
  /-- A space was written behind an operator. -/
  behind : m = .gap → gap = true

namespace Met

variable {q : Quoting} {seen : Text} {gap : Bool} {c : UInt8} {s : Text} {m : OperatorScan}
  {r out : Text}

/-- After a blank that is written. -/
theorem blank (h : Met q seen gap (c :: s) m r out) (hc : isBlank c = true) (q' : Quoting) :
    Met q' (c :: seen) true s (.text q') (c :: r) (c :: out) := by
  have halike : Alike (c :: r) (c :: seen) := .blank hc hc h.lastInk
  refine ⟨Or.inl rfl, halike.lastInk, halike.operatorAt? s, ?_, hc, fun _ => rfl⟩
  rw [lastInk_blank hc, lastInk_blank hc, h.visible]

/-- After a blank behind an operator. -/
theorem blank_gap (h : Met .code seen gap (c :: s) .gap r out) (hc : isBlank c = true) :
    Met .code (c :: seen) true s .gap (c :: r) out := by
  have halike : Alike (c :: r) (c :: seen) := .blank hc hc h.lastInk
  refine ⟨Or.inr ⟨rfl, rfl⟩, halike.lastInk, halike.operatorAt? s, ?_, h.ending.trans (h.behind rfl),
    fun _ => rfl⟩
  rw [lastInk_blank hc, h.visible]

/-- After a byte that is no blank. -/
theorem byte (hc : isBlank c = false) (q : Quoting) (seen s r out : Text) :
    Met q (c :: seen) false s (.text q) (c :: r) (c :: out) := by
  have halike : Alike (c :: r) (c :: seen) := .cons hc r seen
  exact ⟨Or.inl rfl, halike.lastInk, halike.operatorAt? s, by simp [lastInk_cons hc], hc, by simp⟩

/-- After an operator. -/
theorem operator {op : Text} (h : Met .code seen gap (op ++ s) m r out)
    (hop : IsOperator seen op s) :
    Met .code (space :: (op.reverse ++ seen)) true s .gap (op.reverse ++ r)
      (writeOperator out op) := by
  have hink : GrammarLayout.lastInk (op.reverse ++ r)
      = GrammarLayout.lastInk (op.reverse ++ seen) := by
    rw [hop.lastInk, hop.lastInk]
  have hhere : IsOperator r op s := by
    obtain ⟨rest, hrest, hhere⟩ := exists_of_operatorAt?
      (h.operatorAt?.trans hop.operatorAt?_append)
    exact List.append_cancel_left hrest ▸ hhere
  refine ⟨Or.inr ⟨rfl, rfl⟩, ?_, ?_, ?_, rfl, fun _ => rfl⟩
  · rw [lastInk_blank rfl, hink]
  · rw [hhere.operatorAt?_behind]
    exact (Alike.blank rfl rfl hink).operatorAt? s
  · rw [writeOperator, List.cons_append, lastInk_blank rfl, lastInk_blank rfl, hop.isSome_lastInk,
      hop.isSome_lastInk]

end Met

/-- The scan, wherever it stands, writes the words that are left behind what it has written. -/
theorem squeezed_spaceFrom {st : CodeState} {seen : Text} {gap : Bool} {s : Text} {ws : List Word}
    (h : Words st seen gap s ws) {q : Quoting} (hst : st = .text q) {m : OperatorScan}
    {r out : Text} (hmet : Met q seen gap s m r out) :
    squeezed false (spaceFrom m r out s) = squeezed false out.reverse ++ written ws := by
  induction h generalizing q m r out with
  | nil => simp [spaceFrom]
  | @blank st seen gap c s ws hc h ih =>
    obtain ⟨hhash, hnone⟩ := of_isBlank hc
    have hnext : st.next c = .text (q.next c) := by rw [hst, CodeState.next_text fun _ => hhash]
    rcases hmet.reads with rfl | ⟨rfl, rfl⟩
    · rw [spaceFrom_text (Or.inl rfl) (by simp) r out s (fun _ => hhash) (fun _ => hnone r s),
        ih hnext (hmet.blank hc _), List.reverse_cons, squeezed_reverse_append, squeezed_blank hc,
        squeezed, List.append_nil]
    · have hstep : spaceFrom .gap r out (c :: s) = spaceFrom .gap (c :: r) out s := by
        simp [spaceFrom, hc]
      have hcode : st.next c = .text .code := by
        rw [hnext, Quoting.next, isQuote_of_isBlank hc]
        rfl
      rw [hstep, ih hcode (hmet.blank_gap hc)]
  | @byte st seen gap c s ws hc hop h ih =>
    have hsplit : squeezed false (c :: out).reverse
        = squeezed false out.reverse ++ (Word.mk gap [c]).write := by
      rw [List.reverse_cons, squeezed_reverse_append, hmet.ending, squeezed_byte hc]
      rfl
    by_cases hcomment : q = .code ∧ c = hash
    · obtain ⟨rfl, rfl⟩ := hcomment
      subst hst
      rw [spaceFrom_hash hmet.reads rfl, squeezed_reverse_append, squeezed_byte rfl, hmet.ending,
        written_cons, eq_squeezed h]
      simp [Word.write]
    · have hhash : q = .code → c ≠ hash := fun hq hc => hcomment ⟨hq, hc⟩
      have hnone : q = .code → operatorAt? r (c :: s) = none := fun hq =>
        hmet.operatorAt?.trans (hop (hst.trans (hq ▸ rfl)))
      rw [spaceFrom_text hmet.reads (fun _ => hc) r out s hhash hnone,
        ih (hst ▸ CodeState.next_text hhash) (Met.byte hc _ seen s r out), hsplit, written_cons,
        List.append_assoc]
  | @operator seen gap op s ws hop h ih =>
    obtain rfl : Quoting.code = q := CodeState.text.inj hst
    have hhere : operatorAt? r (op ++ s) = some op :=
      hmet.operatorAt?.trans hop.operatorAt?_append
    have hvisible : ∀ c ∈ op, isBlank c = false := fun c hc =>
      (isOperatorByte_spec (hop.made_of.2 c hc)).2.1
    rw [spaceFrom_operator hmet.reads out hhere, ih rfl (hmet.operator hop),
      squeezed_writeOperator out hop.made_of.1 hvisible, hmet.visible, written_cons,
      List.append_assoc]

/-- The words of a line, written, are the line with its operators spaced. -/
theorem spaceOperators_eq {s : Text} {ws : List Word} (h : Words (.text .code) [] false s ws) :
    spaceOperators s = written ws := by
  rw [spaceOperators, trimEndWhile_collapseBlanks,
    h.squeezed_spaceFrom rfl ⟨Or.inl rfl, rfl, rfl, rfl, rfl, by simp⟩]
  rfl

/-! ## Reading the words again -/

theorem isBlank_of_isUpper {c : UInt8} (h : isUpper c = true) : isBlank c = false := by
  rw [Bool.eq_false_iff]
  intro hc
  rcases (by simpa [isBlank] using hc : c = space ∨ c = tab) with rfl | rfl <;> exact absurd h (by decide)

/-- A space is written first if one is due. -/
theorem written_gap {st : CodeState} {seen : Text} {gap : Bool} {s : Text} {ws : List Word}
    (h : Words st seen gap s ws) (hgap : gap = true) (hseen : (lastInk seen).isSome = true) :
    written ws = [] ∨ ∃ t, written ws = space :: t := by
  induction h with
  | nil => exact Or.inl rfl
  | blank hc _ ih => exact ih rfl (by rwa [lastInk_blank hc])
  | byte => exact Or.inr ⟨_, by rw [written_cons, Word.write, hgap]; rfl⟩
  | operator => exact Or.inr ⟨_, by rw [written_cons, Word.write, hseen]; rfl⟩

variable {st : CodeState} {seen : Text} {s : Text} {ws : List Word}

/-- A byte that is written without a space in front of it was read. -/
theorem exists_of_written (h : Words st seen false s ws) (hseen : (lastInk seen).isSome = true)
    {c : UInt8} {t : Text} (hc : isBlank c = false) (hw : written ws = c :: t) :
    ∃ s' ws', s = c :: s' ∧ t = written ws' ∧ Words (st.next c) (c :: seen) false s' ws' := by
  have hspace : ∀ t', space :: t' ≠ c :: t := by
    rintro t' h
    obtain ⟨rfl, -⟩ := List.cons.inj h
    exact absurd hc (by decide)
  cases h with
  | nil => exact absurd hw (by simp)
  | @blank _ _ _ b s ws hb h =>
    rcases h.written_gap rfl (by rwa [lastInk_blank hb]) with hnil | ⟨t', ht'⟩
    · exact absurd (hnil.symm.trans hw) (by simp)
    · exact absurd (ht'.symm.trans hw) (hspace t')
  | @byte _ _ _ b s ws _ _ h =>
    obtain ⟨rfl, rfl⟩ := List.cons.inj (show b :: written ws = c :: t from hw)
    exact ⟨s, ws, rfl, rfl, h⟩
  | @operator _ _ op s ws _ _ =>
    rw [written_cons, Word.write, hseen] at hw
    exact absurd hw (hspace _)

/-- What is read next is written next, unless it is a blank or the operator `<<`. -/
theorem any_head?_written {p : UInt8 → Bool} (hp : ∀ c, p c = true → isBlank c = false)
    (h : Words st seen false s ws) (hseen : assignable seen = false)
    (hshift : headIn (bytes "<") seen = false → p 0x3C = false)
    (hw : (written ws).head?.any p = false) : s.head?.any p = false := by
  cases h with
  | nil => rfl
  | @blank _ _ _ c s ws hc =>
    rw [List.head?_cons, Option.any_some, Bool.eq_false_iff]
    intro hpc
    exact absurd hc (by simp [hp c hpc])
  | byte => simpa [Word.write] using hw
  | operator hop =>
    obtain ⟨rfl, hfree, -⟩ := hop.eq_shift hseen
    exact hshift hfree

/-- No operator appears where words are written. -/
theorem operatorAt?_written {c : UInt8} (hc : isBlank c = false)
    (h : Words st (c :: seen) false s ws) (hnone : operatorAt? seen (c :: s) = none) :
    operatorAt? seen (c :: written ws) = none := by
  cases hsome : operatorAt? seen (c :: written ws) with
  | none => rfl
  | some op =>
    refine absurd hnone ?_
    rw [← ne_eq, Option.ne_none_iff_exists']
    obtain ⟨rest, hrest, hop⟩ := exists_of_operatorAt? hsome
    have hvisible : ∀ {set : Text}, (∀ c ∈ set, isBlank c = false) →
        ∀ c, set.contains c = true → isBlank c = false := fun hset c hc =>
      hset c (List.contains_iff_mem.1 hc)
    have hequals : ∀ {st seen s ws}, Words st (equals :: seen) false s ws → ∀ set : Text,
        (∀ c ∈ set, isBlank c = false) → set.contains 0x3C = false →
        headIn set (written ws) = false → headIn set s = false := fun h set hset hshift =>
      h.any_head?_written (hvisible hset) rfl (fun _ => hshift)
    cases hop with
    | logical hop htarget hfollow =>
      have hsign : ∃ b, isBlank b = false ∧ op = [b, b, equals] := by
        rcases hop with rfl | rfl
        exacts [⟨pipe, rfl, rfl⟩, ⟨0x26, rfl, rfl⟩]
      obtain ⟨b, hb, rfl⟩ := hsign
      obtain ⟨rfl, hw⟩ := List.cons.inj hrest
      obtain ⟨s, ws, rfl, hw, h⟩ := h.exists_of_written (by simp [lastInk_cons hb]) hb hw
      obtain ⟨s, ws, rfl, rfl, h⟩ := h.exists_of_written (by simp [lastInk_cons hb]) rfl hw.symm
      exact ⟨_, (IsOperator.logical hop htarget
        (hequals h _ (by decide +kernel) (by decide) hfollow)).operatorAt?_append⟩
    | shift hbefore hfollow hname =>
      obtain ⟨rfl, hw⟩ : c = 0x3C ∧ written ws = 0x3C :: rest := List.cons.inj hrest
      obtain ⟨s, ws, rfl, rfl, h⟩ := h.exists_of_written (by simp [lastInk_cons hc]) rfl hw
      refine ⟨_, (IsOperator.shift hbefore ?_ ?_).operatorAt?_append⟩
      · exact h.any_head?_written (hvisible (by decide +kernel)) rfl (fun hno => Bool.noConfusion hno) hfollow
      · exact h.any_head?_written (fun _ => isBlank_of_isUpper) rfl
          (fun hno => Bool.noConfusion hno) hname
    | @compound b _ hb hbefore htarget hfollow =>
      obtain ⟨rfl, hw⟩ := List.cons.inj hrest
      obtain ⟨s, ws, rfl, rfl, h⟩ := h.exists_of_written (by simp [lastInk_cons hc]) rfl hw
      exact ⟨_, (IsOperator.compound hb hbefore htarget
        (hequals h _ (by decide +kernel) (by decide) hfollow)).operatorAt?_append⟩
    | plain hbefore hfollow htarget =>
      obtain ⟨rfl, rfl⟩ := List.cons.inj hrest
      exact ⟨_, (IsOperator.plain hbefore
        (hequals h _ (by decide +kernel) (by decide) hfollow) htarget).operatorAt?_append⟩

/-- Where the words of a text are read again: the scan stands where it stood when they were read
first, in front of the blanks if a space is due. -/
def Resumes (gap : Bool) (st : CodeState) (seen : Text) (st' : CodeState) (seen' : Text) : Prop :=
  if gap then st'.afterBlank = st ∧ Alike seen (space :: seen') else st' = st ∧ Alike seen seen'

namespace Resumes

variable {gap : Bool} {st : CodeState} {seen : Text} {st' : CodeState} {seen' : Text}

theorem lastInk (h : Resumes gap st seen st' seen') :
    GrammarLayout.lastInk seen = GrammarLayout.lastInk seen' := by
  cases gap with
  | true => exact h.2.lastInk.trans (lastInk_blank rfl seen')
  | false => exact h.2.lastInk

/-- After a blank a space is due. -/
theorem blank (h : Resumes gap st seen st' seen') {c : UInt8} (hc : isBlank c = true) :
    Resumes true st.afterBlank (c :: seen) st' seen' := by
  refine ⟨?_, .blank hc rfl h.lastInk⟩
  cases gap with
  | true => rw [← h.1, CodeState.afterBlank_afterBlank]
  | false => rw [show st' = st from h.1]

/-- The space that is due is read. -/
theorem read (h : Resumes gap st seen st' seen') (hst : st.Quoted) {s : Text} {ws : List Word}
    (hread : ∀ seen'', Alike seen seen'' → Words st seen'' gap s ws) :
    Words st' seen' false ((if gap then [space] else []) ++ s) ws := by
  cases gap with
  | true =>
    have hst' : st'.Quoted := CodeState.quoted_afterBlank.1 (h.1 ▸ hst)
    refine .blank rfl ?_
    rw [hst'.next_blank rfl, h.1]
    exact hread _ h.2
  | false =>
    rw [show st' = st from h.1]
    exact hread _ h.2

end Resumes

/-- An operator is read again, behind the space that is written in front of it. -/
theorem Resumes.exists_operator {gap : Bool} {seen : Text} {st' : CodeState} {seen' op s : Text}
    (h : Resumes gap (.text .code) seen st' seen') (hop : IsOperator seen op s) :
    st' = .text .code ∧ if (GrammarLayout.lastInk seen).isSome then IsOperator (space :: seen') op s
      else IsOperator seen' op s := by
  cases gap with
  | true =>
    refine ⟨CodeState.eq_code_of_afterBlank h.1, ?_⟩
    split_ifs with hseen
    · exact h.2.isOperator hop
    · have hnone : GrammarLayout.lastInk seen' = none := by
        have hsame : GrammarLayout.lastInk seen = GrammarLayout.lastInk seen' :=
          (h : Resumes true (.text .code) seen st' seen').lastInk
        rw [← hsame]
        simpa using hseen
      exact (h.2.trans (Alike.blank_of_lastInk_eq_none rfl hnone).symm).isOperator hop
  | false =>
    refine ⟨h.1, ?_⟩
    split_ifs with hseen
    · exact (h.2.isOperator hop).space_before
    · exact h.2.isOperator hop

/-- Whether a blank was read does not matter if a blank is read next. -/
theorem of_gap {st : CodeState} {seen : Text} {gap : Bool} {s : Text} {ws : List Word}
    (h : Words st seen gap s ws) (hs : s = [] ∨ ∃ t, s = space :: t) (gap' : Bool) :
    Words st seen gap' s ws := by
  cases h with
  | nil => exact .nil
  | blank hc h => exact .blank hc h
  | byte hc =>
    rcases hs with hs | ⟨t, hs⟩
    · exact absurd hs (by simp)
    · rw [(List.cons.inj hs).1] at hc
      exact absurd hc (by decide)
  | operator hop h => exact .operator hop h

/-- What was written from words has these words. -/
theorem reread {st : CodeState} {seen : Text} {gap : Bool} {s : Text} {ws : List Word}
    (h : Words st seen gap s ws) (hst : st.Quoted) {st' : CodeState} {seen' : Text}
    (hresume : Resumes gap st seen st' seen') : Words st' seen' false (written ws) ws := by
  induction h generalizing st' seen' with
  | nil => exact .nil
  | blank hc h ih =>
    rw [hst.next_blank hc] at ih
    exact ih (CodeState.quoted_afterBlank.2 hst) (hresume.blank hc)
  | byte hc hop h ih =>
    rw [written_cons, Word.write, List.append_assoc]
    refine hresume.read hst fun seen'' halike => .byte hc (fun hcode => ?_) (ih (hst.next _) ?_)
    · rw [← halike.operatorAt?]
      exact h.operatorAt?_written hc (hop hcode)
    · exact ⟨rfl, .cons hc _ _⟩
  | @operator seen gap op s ws hop h ih =>
    have hspace : isBlank space = true := rfl
    have hrest := h.written_gap rfl (by rw [lastInk_blank hspace, hop.isSome_lastInk])
    have hread : ∀ gap' seen'', GrammarLayout.lastInk seen = GrammarLayout.lastInk seen'' →
        IsOperator seen'' op (written ws) → Words (.text .code) seen'' gap' (op ++ written ws)
          (⟨(GrammarLayout.lastInk seen).isSome, op⟩ :: ws) := by
      intro gap' seen'' hink hop''
      rw [hink]
      refine .operator hop'' ((ih trivial ⟨rfl, .blank hspace hspace ?_⟩).of_gap hrest true)
      rw [lastInk_blank hspace, hop.lastInk, hop.lastInk]
    have hspaced : IsOperator seen op (written ws) := hop.of_rest fun p hp _ => by
      rcases hrest with hnil | ⟨t, ht⟩
      · rw [hnil]
        rfl
      · rw [ht]
        exact hp space rfl
    obtain ⟨rfl, hagain⟩ := hresume.exists_operator hspaced
    rw [written_cons, Word.write, List.append_assoc]
    -- The space in front of the operator is the blank that is read again.
    split_ifs at hagain ⊢ with hseen
    · exact .blank hspace (hread true _ (hresume.lastInk.trans (lastInk_blank hspace _).symm) hagain)
    · exact hread false _ hresume.lastInk hagain

end Words

/-- Spacing the operators of a line twice is spacing them once. -/
theorem spaceOperators_spaceOperators (line : Text) :
    spaceOperators (spaceOperators line) = spaceOperators line := by
  obtain ⟨ws, h⟩ := exists_words (.text .code) [] false line
  have hagain : Words (.text .code) [] false (written ws) ws :=
    h.reread trivial ⟨rfl, rfl, fun _ => rfl⟩
  rw [h.spaceOperators_eq, hagain.spaceOperators_eq]

end GrammarLayout
