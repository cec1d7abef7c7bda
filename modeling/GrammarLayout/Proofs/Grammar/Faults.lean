import GrammarLayout.Diagnostic.Basic
import GrammarLayout.Proofs.Grammar.State
import GrammarLayout.Proofs.Text.FirstLines

/-!
# Where reading fails

A text that is not a grammar is refused with a fault and a line.  A stray brace,
and a production that looks like a header, are found on the line that is being
read, so nothing behind this line matters.  A block that is never closed is found
at the end of the text, and reported on the line that opened it; from there on no
line of the text changes what is reported.

What is proved here:

* `Scan.line_eq_error_iff` — a line fails at one of its segments;
* `Scan.LineFails.foundOn` — the faults found on a line;
* `Scan.Reads.open_of_line_le` — a block that is open at the end was open all the time
  since the line that opened it;
* `Document.parse_error_located` — where a text fails, and which texts fail in the
  same way.
-/

namespace GrammarLayout

open Ascii Text

/-! ## Faults found on a line -/

/-- The fault was found on line `n`, and is not that of a block that is never closed. -/
def ParseError.FoundOn (n : Nat) (e : ParseError) : Prop :=
  e.line = n ∧ e.fault.code ≠ .unterminatedAction

theorem Rule.readAlternative_error {r : Rule} {text : Text} {header : Bool} {fault : ParseFault}
    (h : r.readAlternative text header = .error fault) : fault.code = .headerLikeProduction := by
  simp only [readAlternative] at h
  split at h
  · exact absurd h (by simp)
  · split at h
    · exact absurd h (by simp)
    · split at h
      · split at h
        · rw [← Except.error.inj h]
          rfl
        · exact absurd h (by simp)
      · exact absurd h (by simp)

theorem Rule.readProductions_error {r : Rule} {text : Text} {header : Bool} {fault : ParseFault}
    (h : r.readProductions text header = .error fault) : fault.code = .headerLikeProduction := by
  obtain ⟨_, _, _, _, -, -, hfail⟩ := exists_of_foldlM_eq_error h
  exact readAlternative_error hfail

namespace Scan

variable {s s' next : Scan} {raw raw' rest line : Text} {r : OpenRule} {e : ParseError}

theorem foundOn_of_fail {α : Type} {fault : ParseFault}
    (h : (s.fail fault : Except ParseError α) = .error e)
    (hfault : fault.code ≠ .unterminatedAction) : e.FoundOn s.lines := by
  rw [← Except.error.inj h]
  exact ⟨rfl, hfault⟩

theorem readProductions_foundOn {header : Bool}
    (h : s.readProductions r line header = .error e) : e.FoundOn s.lines := by
  unfold readProductions at h
  split at h
  · exact absurd h (by simp)
  · rename_i fault hfault
    refine foundOn_of_fail h ?_
    rw [Rule.readProductions_error hfault]
    decide

theorem bodyLine_foundOn {header : Bool} (h : s.bodyLine r line header = .error e) :
    e.FoundOn s.lines := by
  simp only [bodyLine] at h
  split at h
  · exact foundOn_of_fail h (show Code.unexpectedBrace ≠ .unterminatedAction by decide)
  · split at h
    · exact absurd h (by simp [pure, Except.pure])
    · split at h
      · split at h
        · exact absurd h (by simp [pure, Except.pure])
        · rcases bind_eq_error_iff.1 h with h | ⟨rule, -, h⟩
          · exact readProductions_foundOn h
          · exact absurd h (by simp [pure, Except.pure])
      · -- Both ways of ending the line read its productions, or nothing when it is blank.
        have hread : ∀ {text : Text} {k : Rule → Except ParseError (Scan × Option Text)},
            (∀ rule, k rule ≠ .error e) →
            (if isSpaces text = true then (do let rule ← pure r.rule; k rule)
              else do let rule ← s.readProductions r text header; k rule) = .error e →
            e.FoundOn s.lines := by
          intro text k hk h
          split at h
          · exact absurd h (hk r.rule)
          · rcases bind_eq_error_iff.1 h with h | ⟨rule, -, h⟩
            · exact readProductions_foundOn h
            · exact absurd h (hk rule)
        exact hread (fun rule => by simp [pure, Except.pure]) h

theorem actionLine_foundOn {a : OpenAction} (h : s.actionLine r a line = .error e) :
    e.FoundOn s.lines := by
  simp only [actionLine] at h
  split at h
  · exact absurd h (by simp)
  · split at h
    · exact foundOn_of_fail h (show Code.unexpectedBrace ≠ .unterminatedAction by decide)
    · exact absurd h (by simp)

theorem grammarLine_foundOn (h : s.grammarLine raw = .error e) : e.FoundOn s.lines := by
  simp only [grammarLine] at h
  split at h
  · exact absurd h (by simp)
  · split at h
    · exact absurd h (by simp)
    · split at h
      · split at h
        · exact absurd h (by simp)
        · split at h
          · exact absurd h (by simp)
          · exact bodyLine_foundOn (s := s.leave _) h
      · split at h
        · split at h
          · exact absurd h (by simp)
          · exact bodyLine_foundOn h
        · exact absurd h (by simp)

theorem segment_foundOn (h : s.segment raw = .error e) : e.FoundOn s.lines := by
  unfold segment at h
  split at h
  · exact absurd h (by simp)
  · rename_i r a hmode
    cases hline : s.actionLine r a (trimTerminator raw) with
    | ok next => exact absurd h (by simp [hline, Except.map])
    | error e' =>
      rw [hline] at h
      obtain rfl : e' = e := by simpa [Except.map] using h
      exact actionLine_foundOn hline
  · exact grammarLine_foundOn h

/-! ## Lines that fail -/

/-- A line fails: at once, or behind a semicolon that ends the rule. -/
inductive LineFails : Scan → Text → ParseError → Prop where
  /-- It fails at once. -/
  | here {s : Scan} {raw : Text} {e : ParseError} : s.segment raw = .error e → LineFails s raw e
  /-- What is left of it fails. -/
  | behind {s next : Scan} {raw rest : Text} {e : ParseError} :
      s.segment raw = .ok (next, some rest) → LineFails next (rest ++ [newline]) e →
      LineFails s raw e

/-- The bound on the number of steps plays no part in a failure. -/
theorem segments_eq_error_iff (fuel : Nat) (hfuel : (trimTerminator raw).length < fuel) :
    segments fuel s raw = .error e ↔ LineFails s raw e := by
  induction fuel generalizing s raw with
  | zero => omega
  | succ fuel ih =>
    rw [segments, bind_eq_error_iff]
    have hrest : ∀ {next rest}, s.segment raw = .ok (next, some rest) →
        (segments fuel next (rest ++ [newline]) = .error e ↔
          LineFails next (rest ++ [newline]) e) := by
      intro next rest hseg
      have := (segment_cases hseg).length_trimTerminator_lt
      exact ih (by omega)
    constructor
    · rintro (h | ⟨⟨next, t⟩, hseg, h⟩)
      · exact .here h
      · cases t with
        | none => exact absurd h (by simp)
        | some rest => exact .behind hseg ((hrest hseg).1 h)
    · rintro (h | ⟨hseg, h⟩)
      · exact Or.inl h
      · exact Or.inr ⟨_, hseg, (hrest hseg).2 h⟩

theorem line_eq_error_iff :
    s.line raw = .error e ↔ LineFails { s with lines := s.lines + 1 } raw e :=
  segments_eq_error_iff _ (Nat.lt_succ_of_le (length_trimEndWhile_le _ raw))

/-- A fault is found on the line that is read. -/
theorem LineFails.foundOn (h : LineFails s raw e) : e.FoundOn s.lines := by
  induction h with
  | here h => exact segment_foundOn h
  | behind hseg _ ih => rwa [(segment_cases hseg).lines_eq] at ih

/-- What a segment leaves to be read, with the state in which it is read. -/
def pending (result : Scan × Option Text) : Option (Scan × Text) :=
  result.2.map fun rest => (result.1, rest)

/-- The end of a line shows in the lines that are kept only: not in what is left to be read, and not
in a failure. -/
theorem segment_pending_congr (h : trimTerminator raw' = trimTerminator raw) :
    (s.segment raw').map pending = (s.segment raw).map pending := by
  have hgrammar : (s.grammarLine raw').map pending = (s.grammarLine raw).map pending := by
    unfold grammarLine
    rw [h]
    dsimp only
    split
    · rfl
    · split
      · rfl
      · split
        · rfl
        · split
          · split <;> rfl
          · rfl
  unfold segment
  rw [h]
  split
  · rfl
  · rfl
  · exact hgrammar

theorem LineFails.congr (hfails : LineFails s raw e)
    (h : trimTerminator raw' = trimTerminator raw) : LineFails s raw' e := by
  have hsegment := segment_pending_congr (s := s) h
  cases hfails with
  | here hseg =>
    rw [hseg] at hsegment
    refine .here ?_
    cases hseg' : s.segment raw' with
    | error e' =>
      rw [hseg'] at hsegment
      rw [Except.error.inj hsegment]
    | ok result => exact absurd hsegment (by simp [hseg', Except.map])
  | behind hseg hrest =>
    rw [hseg] at hsegment
    refine .behind ?_ hrest
    cases hseg' : s.segment raw' with
    | error e' => exact absurd hsegment (by simp [hseg', Except.map])
    | ok result =>
      rw [hseg'] at hsegment
      obtain ⟨next', t⟩ := result
      cases t with
      | none => exact absurd hsegment (by simp [Except.map, pending])
      | some rest' =>
        obtain ⟨rfl, rfl⟩ : next' = _ ∧ rest' = _ := by simpa [Except.map, pending] using hsegment
        rfl

/-- A line that fails does so with and without the newline at its end. -/
theorem line_error_congr (hline : s.line raw = .error e)
    (h : trimTerminator raw' = trimTerminator raw) : s.line raw' = .error e :=
  line_eq_error_iff.2 ((line_eq_error_iff.1 hline).congr h)

/-! ## The line that opened a block -/

/-- A block that is open behind a step was opened by it, or was open before. -/
theorem Step.opened_or_open {t : Option Text} {a : OpenAction} (hstep : s.Step raw s' t)
    (hmode : s'.mode = .action r a) :
    t = none ∧ ((∀ r a, s.mode ≠ .action r a) ∧ a.line = s.lines ∨
      ∃ b, s.mode = .action r b ∧ b.line = a.line) := by
  have hbody : ∀ {s₀ : Scan} {r₀ : OpenRule} {line : Text} {header : Bool},
      s₀.BodyStep r₀ line header s' t → t = none ∧ a.line = s₀.lines := by
    intro s₀ r₀ line header hstep
    cases hstep with
    | closed => exact absurd hmode (by simp [leave])
    | opened => exact ⟨rfl, by rw [← (Mode.action.inj hmode).2]⟩
    | openedBehind => exact ⟨rfl, by rw [← (Mode.action.inj hmode).2]⟩
    | productions => exact absurd hmode (by simp [withRule])
    | terminated => exact absurd hmode (by simp [leave])
  have hgrammar : (s.mode = .outside ∨ ∃ r, s.mode = .body r) → ∀ r a, s.mode ≠ .action r a := by
    rintro (hm | ⟨r', hm⟩) r a <;> simp [hm]
  have hkept : ∀ {s₀ : Scan} {raw : Text}, (∀ r a, s₀.mode ≠ .action r a) →
      (s₀.keep raw).mode ≠ .action r a := fun h => mode_keep h _ r a
  cases hstep with
  | footer hm => exact absurd hmode (hkept (by simp [hm]))
  | action hm hstep =>
    cases hstep with
    | longer =>
      obtain ⟨rfl, rfl⟩ := Mode.action.inj hmode
      exact ⟨rfl, Or.inr ⟨_, hm, rfl⟩⟩
    | closed => exact absurd hmode (by simp [withRule])
    | terminated => exact absurd hmode (by simp [leave])
  | aside hm => exact absurd hmode (hkept (hgrammar hm))
  | marker => exact absurd hmode (hkept (by simp [leave]))
  | header => exact absurd hmode (by simp [leave])
  | headerComment => exact absurd hmode (hkept (by simp [leave]))
  | headerBody hm _ _ hstep => exact ⟨(hbody hstep).1, Or.inl ⟨hgrammar hm, (hbody hstep).2⟩⟩
  | stop => exact absurd hmode (hkept (by simp [leave]))
  | outside hm => exact absurd hmode (hkept (by simp [hm]))
  | body hm _ _ _ _ _ hstep =>
    exact ⟨(hbody hstep).1, Or.inl ⟨hgrammar (Or.inr ⟨_, hm⟩), (hbody hstep).2⟩⟩

theorem LineSteps.opened_or_open {a : OpenAction} (hsteps : LineSteps s raw s')
    (hmode : s'.mode = .action r a) :
    (∀ r a, s.mode ≠ .action r a) ∧ a.line = s.lines ∨
      ∃ b, s.mode = .action r b ∧ b.line = a.line := by
  induction hsteps with
  | last hstep => exact (hstep.opened_or_open hmode).2
  | @more s next s' raw rest hstep _ ih =>
    -- A step that leaves something to be read is neither in a block nor opens one.
    have hnext : ∀ r a, next.mode ≠ .action r a := fun r a h =>
      absurd (hstep.opened_or_open h).1 (by simp)
    have hs : ∀ r a, s.mode ≠ .action r a := by
      intro r a h
      cases hstep with
      | headerBody hm => simp [h] at hm
      | body hm => exact absurd (h.symm.trans hm) (by simp)
    rcases ih hmode with ⟨-, hline⟩ | ⟨b, hb, -⟩
    · exact Or.inl ⟨hs, hline.trans hstep.lines_eq⟩
    · exact absurd hb (hnext r b)

/-- A block that is open behind a line was opened on it, or was open before. -/
theorem line_opened_or_open {a : OpenAction} (h : s.line raw = .ok s')
    (hmode : s'.mode = .action r a) :
    (∀ r a, s.mode ≠ .action r a) ∧ a.line = s.lines + 1 ∨
      ∃ b, s.mode = .action r b ∧ b.line = a.line :=
  (line_lineSteps h).opened_or_open hmode

/-- A block that is open at the end was open wherever its line had been read. -/
theorem Reads.open_of_line_le {ls : List Text} {a : OpenAction} (hreads : Reads s ls s')
    (hmode : s'.mode = .action r a) (hle : a.line ≤ s.lines) :
    ∃ b, s.mode = .action r b ∧ b.line = a.line := by
  induction hreads with
  | nil => exact ⟨a, hmode, rfl⟩
  | @cons s next s' l ls hline _ ih =>
    have hnext := lines_line hline
    obtain ⟨b, hb, heq⟩ := ih hmode (by omega)
    rcases line_opened_or_open hline hb with ⟨-, hopened⟩ | ⟨c, hc, hceq⟩
    · omega
    · exact ⟨c, hc, hceq.trans heq⟩

/-- No block is open in front of the line that opens the block that is open at the end. -/
theorem Reads.not_open_of_line_eq {ls : List Text} {a : OpenAction} (hreads : Reads s ls s')
    (hmode : s'.mode = .action r a) (heq : a.line = s.lines + 1) (hcounted : s.Counted) :
    ∀ r a, s.mode ≠ .action r a := by
  have hclosed : ∀ {b : OpenAction}, s.mode = .action r b → b.line ≠ a.line := by
    intro b hb hline
    have := (hcounted r b hb).line.2
    omega
  cases hreads with
  | nil => exact absurd rfl (hclosed hmode)
  | @cons _ next _ l ls hline hrest =>
    have hnext := lines_line hline
    obtain ⟨b, hb, hbline⟩ := hrest.open_of_line_le hmode (by omega)
    rcases line_opened_or_open hline hb with ⟨hnone, -⟩ | ⟨c, hc, hcline⟩
    · exact hnone
    · exact absurd (hcline.trans hbline) (hclosed hc)

/-! ## The end of the text -/

/-- Behind the last line nothing fails but an open block. -/
theorem code_of_finish_eq_error (s : Scan) (h : s.finish = .error e) :
    e.fault.code = .unterminatedAction := by
  unfold finish at h
  split at h
  · rw [← Except.error.inj h]
    rfl
  · exact absurd h (by simp)

theorem exists_finish_eq_ok (s : Scan) (h : ∀ r a, s.mode ≠ .action r a) :
    ∃ d, s.finish = .ok d := by
  unfold finish
  split
  · rename_i r a hmode
    exact absurd hmode (h r a)
  · exact ⟨_, rfl⟩

end Scan

/-! ## Texts that fail -/

/-- Why a text is refused, in terms of its lines. -/
inductive Document.Fails (text : Text) : ParseError → Prop where
  /-- A line fails behind others that can be read. -/
  | onLine {before after : List Text} {l : Text} {s : Scan} {e : ParseError}
      (hlines : lines text = before ++ l :: after)
      (hread : before.foldlM Scan.line Scan.start = .ok s) (hfail : s.line l = .error e) :
      Fails text e
  /-- All lines can be read, but a block is open behind the last. -/
  | atEnd {s : Scan} {r : OpenRule} {a : OpenAction}
      (hread : (lines text).foldlM Scan.line Scan.start = .ok s) (hmode : s.mode = .action r a) :
      Fails text ⟨a.line, .unterminated r.rule.name⟩

theorem Document.parse_eq_error_iff {text : Text} {e : ParseError} :
    Document.parse text = .error e ↔ Document.Fails text e := by
  rw [Document.parse, bind_eq_error_iff]
  constructor
  · rintro (h | ⟨s, hread, h⟩)
    · obtain ⟨before, l, after, s, hlines, hread, hfail⟩ := exists_of_foldlM_eq_error h
      exact .onLine hlines hread hfail
    · unfold Scan.finish at h
      split at h
      · rename_i hmode
        rw [← Except.error.inj h]
        exact .atEnd hread hmode
      · exact absurd h (by simp)
  · intro h
    cases h with
    | onLine hlines hread hfail =>
      rw [hlines]
      exact Or.inl (foldlM_eq_error_of_step hread hfail _)
    | atEnd hread hmode => exact Or.inr ⟨_, hread, by simp [Scan.finish, hmode]⟩

namespace Scan

theorem lines_of_foldlM {ls : List Text} {s : Scan} (h : ls.foldlM Scan.line start = .ok s) :
    s.lines = ls.length := by
  rw [(reads_of_foldlM h).lines_eq]
  simp [start]

theorem counted_of_foldlM {ls : List Text} {s : Scan} (h : ls.foldlM Scan.line start = .ok s) :
    s.Counted :=
  ((reads_of_foldlM h).counted (counted_of_mode (by simp [start]))).1

/-- Lines that can be read may be read up to any of them. -/
theorem exists_foldlM_take {ls : List Text} {s : Scan} (h : ls.foldlM Scan.line start = .ok s)
    (k : Nat) : ∃ m, (ls.take k).foldlM Scan.line start = .ok m ∧ Reads m (ls.drop k) s := by
  rw [← List.take_append_drop k ls, List.foldlM_append] at h
  obtain ⟨m, hm, hrest⟩ := exists_of_bind_eq_ok h
  exact ⟨m, hm, reads_of_foldlM hrest⟩

end Scan

namespace Document

variable {text other : Text} {e : ParseError}

/-- The line of a fault is a line of the text. -/
theorem Fails.line_mem (h : Fails text e) : 1 ≤ e.line ∧ e.line ≤ (lines text).length := by
  cases h with
  | @onLine before after l s _ hlines hread hfail =>
    have hline : e.line = s.lines + 1 := (Scan.line_eq_error_iff.1 hfail).foundOn.1
    rw [hlines, List.length_append, List.length_cons, hline, Scan.lines_of_foldlM hread]
    omega
  | @atEnd s r a hread hmode =>
    rw [← Scan.lines_of_foldlM hread]
    exact (Scan.counted_of_foldlM hread r a hmode).line

/-- A text fails on a line as soon as another text with the same lines up to there does. -/
theorem Fails.of_sameLines (h : Fails text e) (hfault : e.fault.code ≠ .unterminatedAction)
    (hsame : SameLines e.line text other) : Fails other e := by
  cases h with
  | @onLine before after l s _ hlines hread hfail =>
    have hline : e.line = before.length + 1 := by
      rw [← Scan.lines_of_foldlM hread]
      exact (Scan.line_eq_error_iff.1 hfail).foundOn.1
    rw [hline] at hsame
    obtain ⟨l', after', hother, htrim⟩ := hsame.exists_append hlines
    exact .onLine hother hread (Scan.line_error_congr hfail htrim)
  | atEnd => exact absurd rfl hfault

/-- The lines in front of the line of a fault can all be read; behind them no block is open, if the
fault is a block that is never closed. -/
theorem Fails.exists_read (h : Fails text e) : ∃ s,
    ((lines text).take (e.line - 1)).foldlM Scan.line Scan.start = .ok s ∧
      (e.fault.code = .unterminatedAction → ∀ r a, s.mode ≠ .action r a) := by
  cases h with
  | @onLine before after l s _ hlines hread hfail =>
    obtain ⟨hline, hfault⟩ := (Scan.line_eq_error_iff.1 hfail).foundOn
    have hcount : e.line - 1 = before.length := by
      rw [hline, ← Scan.lines_of_foldlM hread]
      exact Nat.add_sub_cancel s.lines 1
    refine ⟨s, ?_, fun hcode => absurd hcode hfault⟩
    rwa [hlines, hcount, List.take_left]
  | @atEnd s r a hread hmode =>
    obtain ⟨hpos, hle⟩ := (Scan.counted_of_foldlM hread r a hmode).line
    obtain ⟨m, hm, hrest⟩ := Scan.exists_foldlM_take hread (a.line - 1)
    refine ⟨m, hm, fun _ => hrest.not_open_of_line_eq hmode ?_ (Scan.counted_of_foldlM hm)⟩
    rw [Scan.lines_of_foldlM hread] at hle
    rw [Scan.lines_of_foldlM hm, List.length_take]
    omega

/-- A block that is never closed is reported wherever the text ends behind its first line. -/
theorem Fails.firstLines (h : Fails text e) (hfault : e.fault.code = .unterminatedAction) {k : Nat}
    (hk : e.line ≤ k) : Fails (firstLines k text) e := by
  cases h with
  | onLine _ _ hfail => exact absurd hfault (Scan.line_eq_error_iff.1 hfail).foundOn.2
  | @atEnd s r a hread hmode =>
    obtain ⟨m, hm, hrest⟩ := Scan.exists_foldlM_take hread k
    have hle : a.line ≤ m.lines := by
      have := (Scan.counted_of_foldlM hread r a hmode).line.2
      rw [Scan.lines_of_foldlM hread] at this
      rw [Scan.lines_of_foldlM hm, List.length_take]
      exact Nat.le_min.2 ⟨hk, this⟩
    obtain ⟨b, hb, hline⟩ := hrest.open_of_line_le hmode hle
    rw [← lines_firstLines] at hm
    exact hline ▸ .atEnd hm hb

/-- A refused text names one of its lines.  A fault found on that line is found in every text with
the same lines up to there, and not before.  Of a block that is never closed the line is the one
that opens it: without it the text can be read, and with it the text is refused in the same way
wherever it ends. -/
theorem parse_error_located (h : Document.parse text = .error e) :
    (1 ≤ e.line ∧ e.line ≤ (lines text).length) ∧
    (e.fault.code = .unexpectedBrace ∨ e.fault.code = .headerLikeProduction →
      (∀ other, SameLines e.line text other → Document.parse other = .error e) ∧
      ∀ e', Document.parse (firstLines (e.line - 1) text) = .error e' →
        e'.fault.code ≠ .unexpectedBrace ∧ e'.fault.code ≠ .headerLikeProduction) ∧
    (e.fault.code = .unterminatedAction →
      (∃ d, Document.parse (firstLines (e.line - 1) text) = .ok d) ∧
      ∀ k, e.line ≤ k → Document.parse (firstLines k text) = .error e) := by
  rw [parse_eq_error_iff] at h
  obtain ⟨s, hread, hclosed⟩ := h.exists_read
  have hparse : Document.parse (Text.firstLines (e.line - 1) text) = s.finish := by
    rw [Document.parse, lines_firstLines, hread]
    rfl
  refine ⟨h.line_mem, fun hcode => ⟨fun other hsame => ?_, fun e' he' => ?_⟩, fun hcode =>
    ⟨?_, fun k hk => parse_eq_error_iff.2 (h.firstLines hcode hk)⟩⟩
  · refine parse_eq_error_iff.2 (h.of_sameLines ?_ hsame)
    rcases hcode with hcode | hcode <;> rw [hcode] <;> decide
  · rw [hparse] at he'
    have hcode' := s.code_of_finish_eq_error he'
    rw [hcode']
    decide
  · rw [hparse]
    exact s.exists_finish_eq_ok (hclosed hcode)

/-- A stray brace is found on the third line, also where the text ends there without a newline.  A
block that is opened on the second line and never closed is reported for that line however many
lines follow. -/
theorem parse_error_located_cases :
    (Document.parse (bytes "a: b\n  | c\n\x7d d\ne: f\n") = .error ⟨3, .strayBrace (bytes "a")⟩ ∧
      Document.parse (bytes "a: b\n  | c\n\x7d d") = .error ⟨3, .strayBrace (bytes "a")⟩) ∧
    Document.parse (bytes "a: b\nc \x7b\n x\n\x7d d: \x7b\n")
        = .error ⟨2, .unterminated (bytes "a")⟩ ∧
      ∀ k, 2 ≤ k → Document.parse (firstLines k (bytes "a: b\nc \x7b\n x\n\x7d d: \x7b\n"))
        = .error ⟨2, .unterminated (bytes "a")⟩ := by
  have hstray : Document.parse (bytes "a: b\n  | c\n\x7d d\ne: f\n")
      = .error ⟨3, .strayBrace (bytes "a")⟩ := by decide +kernel
  have hopen : Document.parse (bytes "a: b\nc \x7b\n x\n\x7d d: \x7b\n")
      = .error ⟨2, .unterminated (bytes "a")⟩ := by decide +kernel
  exact ⟨⟨hstray, ((parse_error_located hstray).2.1 (Or.inl rfl)).1 _ (by decide +kernel)⟩, hopen,
    ((parse_error_located hopen).2.2 rfl).2⟩

end Document

end GrammarLayout
