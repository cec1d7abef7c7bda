import GrammarLayout.Proofs.Grammar.SingleBlock

/-!
# What is read in front of blocks

The reader cuts lines next to ASCII bytes and between white space and other
characters, so the white space of a part of a line is that of the text.  When
the text is laid out with spaces, tabs and newlines only, nothing else stands
in front of a block that was read.

What is proved here:

* `Text.PlainSpaces` — texts with no other white space, and parts of them;
* `Scan.Step.led` — a step of the reader puts nothing else in front of a block;
* `Document.parse_led` — the blocks of a document that was read.
-/

namespace GrammarLayout

open Ascii Text

/-! ## Plain white space -/

namespace Text

/-- All white space of the text is made of spaces, tabs and newlines. -/
def PlainSpaces (s : Text) : Prop :=
  ∀ r ∈ pieces s, r.isSpace = true → ∀ c ∈ r.raw, c = space ∨ c = tab ∨ c = newline

instance (s : Text) : Decidable (PlainSpaces s) :=
  inferInstanceAs <| Decidable <|
    ∀ r ∈ pieces s, r.isSpace = true → ∀ c ∈ r.raw, c = space ∨ c = tab ∨ c = newline

theorem plainSpaces_append {a b : Text} (h : Seam a b) :
    PlainSpaces (a ++ b) ↔ PlainSpaces a ∧ PlainSpaces b := by
  unfold PlainSpaces
  rw [h, List.forall_mem_append]

theorem plainSpaces_append_cons {c : UInt8} (hc : c < 0x80) {a b : Text} :
    PlainSpaces (a ++ c :: b) ↔ PlainSpaces a ∧ PlainSpaces (c :: b) :=
  plainSpaces_append (seam_ascii_cons hc a b)

theorem plainSpaces_newline : PlainSpaces [newline] := by
  intro r hr _ c hc
  rw [pieces_ascii_cons (by decide), pieces_nil, List.mem_singleton] at hr
  rw [hr, List.mem_singleton] at hc
  exact Or.inr (Or.inr hc)

namespace PlainSpaces

variable {s : Text} (h : PlainSpaces s)
include h

/-- White space is plain when all of it is. -/
theorem mem_of_isSpaces (hs : isSpaces s = true) :
    ∀ c ∈ s, c = space ∨ c = tab ∨ c = newline := by
  intro c hc
  rw [← ofPieces_pieces s] at hc
  obtain ⟨r, hr, hmem⟩ := List.mem_flatMap.1 hc
  exact h r hr (List.all_eq_true.1 hs r hr) c hmem

theorem trim : PlainSpaces (trim s) := by
  obtain ⟨w₁, w₂, -, -, -, hpieces, -⟩ := trim_split s
  intro r hr
  exact h r (by rw [hpieces]; exact List.mem_append_right _ (List.mem_append_left _ hr))

theorem trimTerminator : PlainSpaces (trimTerminator s) := by
  obtain ⟨w, hs, hw⟩ := exists_terminator s
  cases w with
  | nil =>
    rw [List.append_nil] at hs
    rwa [← hs]
  | cons c w =>
    rw [hs, plainSpaces_append_cons (lt_of_isAsciiSpace (hw c List.mem_cons_self))] at h
    exact h.1

theorem of_cons {c : UInt8} {t : Text} (hs : s = c :: t) (hc : c < 0x80) : PlainSpaces t := by
  intro r hr
  exact h r (by rw [hs, pieces_ascii_cons hc]; exact List.mem_cons_of_mem _ hr)

end PlainSpaces

theorem PlainSpaces.of_mem_flatten {ls : List Text} (hls : EndedLines ls)
    (h : PlainSpaces ls.flatten) : ∀ l ∈ ls, PlainSpaces l := by
  induction hls with
  | nil => simp
  | last l => simpa using h
  | @cons l ls hl _ ih =>
    obtain ⟨t, rfl⟩ := hl
    rw [List.flatten_cons, plainSpaces_append (seam_concat_ascii (by decide) t _)] at h
    exact List.forall_mem_cons.2 ⟨h.1, ih h.2⟩

theorem PlainSpaces.lines {s : Text} (h : PlainSpaces s) : ∀ l ∈ lines s, PlainSpaces l :=
  of_mem_flatten (endedLines_lines s) (by rwa [flatten_lines])

end Text

/-! ## Blocks behind plain white space -/

/-- In front of the first brace of the text there is plain white space and nothing else. -/
def Text.Led (t : Text) : Prop := ∃ lead rest, t = lead ++ openBrace :: rest ∧
  ∀ c ∈ lead, c = space ∨ c = tab ∨ c = newline

theorem Text.Led.append {t : Text} (h : Led t) (s : Text) : Led (t ++ s) := by
  obtain ⟨lead, rest, rfl, hlead⟩ := h
  exact ⟨lead, rest ++ s, by simp, hlead⟩

theorem Text.Led.trimLayout {t : Text} (h : Led t) : Led (trimEndWhile isLayout t) := by
  obtain ⟨lead, rest, rfl, hlead⟩ := h
  exact ⟨lead, trimEndWhile isLayout rest, trimEndWhile_append_cons (by decide) lead rest, hlead⟩

/-- The body of the action starts with the brace, and its lead is plain white space. -/
theorem Action.parts_of_led {a : Action} (h : Led a.text) : (∃ rest, a.body = openBrace :: rest) ∧
    ∀ c ∈ a.lead, c = space ∨ c = tab ∨ c = newline := by
  obtain ⟨lead, rest, htext, hlead⟩ := h
  have hbrace : openBrace ∉ lead := fun hmem => by
    rcases hlead openBrace hmem with h | h | h <;> exact absurd h (by decide)
  obtain ⟨hcutLead, hcutBody⟩ := (Cut.block hbrace).lead_body htext
  rw [hcutLead, hcutBody]
  exact ⟨⟨rest, rfl⟩, hlead⟩

/-- Plain white space stands in front of all blocks of the entry. -/
def Entry.Led (e : Entry) : Prop := ∀ a ∈ e.actions, Text.Led a.text

namespace Scan

/-- Plain white space stands in front of all blocks read so far, and of the open one. -/
abbrev Led (s : Scan) : Prop := s.Holds Entry.Led fun a => Text.Led a.text

variable {s s' : Scan} {r : OpenRule} {line : Text} {t : Option Text}

theorem led_verbatim (v : Verbatim) : (Entry.verbatim v).Led := by
  simp [Entry.Led, Entry.actions]

/-- Adding productions to the open rule leaves its actions as they are. -/
theorem Led.readProductions (h : s.Led) (hr : s.openRule? = some r) {rule : Rule} {text : Text}
    {header : Bool} (hread : r.rule.readProductions text header = .ok rule) :
    (Entry.rule rule).Led := by
  intro a ha
  have hkept : a ∈ r.rule.actions := by
    rw [← Rule.actions_readProductions hread]
    exact ha
  exact h.rule hr a hkept

/-- A block on a line of its own stands behind a newline and the indentation of the line. -/
theorem led_newline_cons {i : Nat} (hline : PlainSpaces line) (hbrace : unclosedBrace? line = some i)
    (hblank : isSpaces (line.take i) = true) : Text.Led (newline :: line) := by
  obtain ⟨rest, hrest⟩ := exists_drop_unclosedBrace? hbrace
  have hcut : line = line.take i ++ openBrace :: rest := by rw [← hrest, List.take_append_drop]
  rw [hcut, plainSpaces_append (seam_of_isSpaces hblank _)] at hline
  refine ⟨newline :: line.take i, rest, by rw [List.cons_append, ← hcut], fun c hc => ?_⟩
  rcases List.mem_cons.1 hc with rfl | hc
  · exact Or.inr (Or.inr rfl)
  · exact hline.1.mem_of_isSpaces hblank c hc

/-- A block behind a production keeps the blanks in front of it. -/
theorem led_drop {i : Nat} (hbrace : unclosedBrace? line = some i) :
    Text.Led (line.drop (trimBlanksEnd (line.take i)).length) := by
  obtain ⟨rest, hrest⟩ := exists_drop_unclosedBrace? hbrace
  obtain ⟨w, hw, hblank⟩ := exists_trimEndWhile isBlank (line.take i)
  have hcut : line = trimBlanksEnd (line.take i) ++ (w ++ openBrace :: rest) := by
    rw [← hrest, ← List.append_assoc, trimBlanksEnd, ← hw, List.take_append_drop]
  refine ⟨w, rest, ?_, fun c hc => ?_⟩
  · generalize trimBlanksEnd (line.take i) = before at hcut ⊢
    rw [hcut, List.drop_left]
  · have := hblank c hc
    rw [isBlank, Bool.or_eq_true, beq_iff_eq, beq_iff_eq] at this
    exact this.imp_right Or.inl

theorem BodyStep.led {header : Bool} (h : s.Led) (hr : s.openRule? = some r)
    (hline : PlainSpaces line) (hstep : s.BodyStep r line header s' t) : s'.Led := by
  cases hstep with
  | closed => exact h.leave (Or.inl rfl)
  | opened hbrace _ hblank =>
    exact h.withAction hr (h.rule hr) (led_newline_cons hline hbrace hblank)
  | openedBehind _ hbrace _ _ hread =>
    exact h.withAction hr (h.readProductions hr hread) (led_drop hbrace)
  | productions _ _ _ hread => exact h.withRule hr (h.readProductions hr hread)
  | terminated _ _ _ hread =>
    exact (h.withRule hr (h.readProductions hr hread)).leave (Or.inl rfl)

theorem ActionStep.led {a : OpenAction} (h : s.Led) (hmode : s.mode = .action r a)
    (hstep : s.ActionStep r a line s') : s'.Led := by
  have hr : s.openRule? = some r := by simp [openRule?, hmode]
  have hopen : Text.Led a.text := h.opened r a hmode
  have hadded : ∀ last, (s.withRule r (r.rule.addAction
      (Action.ofText (a.text ++ newline :: last) a.owner a.line))).Led := by
    intro last
    refine h.withRule hr fun b hb => ?_
    rcases List.mem_append.1 hb with hb | hb
    · exact h.rule hr b hb
    · rw [List.mem_singleton.1 hb]
      exact (hopen.append (newline :: last)).trimLayout
  cases hstep with
  | longer => exact h.withAction hr (h.rule hr) (hopen.append (newline :: line))
  | closed => exact hadded _
  | terminated => exact (hadded _).leave (Or.inl rfl)

/-- What stands behind the colon of a header is a part of its line. -/
theorem plainSpaces_of_header? {name rest : Text} (hline : PlainSpaces line)
    (hheader : header? line = some (name, rest)) : PlainSpaces rest := by
  obtain ⟨w₁, w₂, heq, -⟩ := header?_eq hheader
  rw [heq, ← List.append_assoc, ← List.append_assoc, plainSpaces_append_cons (by decide)] at hline
  exact hline.2.of_cons rfl (by decide)

/-- A step of the reader puts nothing but plain white space in front of a block. -/
theorem Step.led {raw : Text} (h : s.Led) (hraw : PlainSpaces raw) (hstep : s.Step raw s' t) :
    s'.Led := by
  have hnew : ∀ name, (s.leave (.body (s.newRule name))).Led := fun name =>
    h.leave_newRule (by simp [Entry.Led, Entry.actions, newRule])
  have hline := hraw.trimTerminator
  cases hstep with
  | footer => exact h.keep (led_verbatim _)
  | action hmode hstep => exact hstep.led h hmode
  | aside => exact h.keep (led_verbatim _)
  | marker => exact (h.leave (Or.inr rfl)).keep (led_verbatim _)
  | header => exact hnew _
  | headerComment => exact (hnew _).keep (led_verbatim _)
  | headerBody _ hheader _ hstep =>
    exact hstep.led (hnew _) rfl (plainSpaces_of_header? hline hheader)
  | stop => exact (h.leave (Or.inl rfl)).keep (led_verbatim _)
  | outside => exact h.keep (led_verbatim _)
  | body hmode _ _ _ _ _ hstep => exact hstep.led h (by simp [openRule?, hmode]) hline

/-! ## What is left of a line -/

theorem BodyStep.plainSpaces_rest {header : Bool} {rest : Text} (hline : PlainSpaces line)
    (hstep : s.BodyStep r line header s' t) (ht : t = some rest) : PlainSpaces rest := by
  cases hstep with
  | closed hsemi =>
    split at ht
    · cases ht
    · rw [← Option.some.inj ht]
      exact (hline.trim.of_cons hsemi (by decide)).trim
  | _ => cases ht

theorem Step.plainSpaces_rest {raw rest : Text} (hraw : PlainSpaces raw)
    (hstep : s.Step raw s' (some rest)) : PlainSpaces rest := by
  have hline := hraw.trimTerminator
  cases hstep with
  | headerBody _ hheader _ hstep =>
    exact hstep.plainSpaces_rest (plainSpaces_of_header? hline hheader) rfl
  | body _ _ _ _ _ _ hstep => exact hstep.plainSpaces_rest hline rfl

theorem LineSteps.led {raw : Text} (h : s.Led) (hraw : PlainSpaces raw)
    (hsteps : LineSteps s raw s') : s'.Led := by
  induction hsteps with
  | last hstep => exact hstep.led h hraw
  | more hstep _ ih =>
    refine ih (hstep.led h hraw) ?_
    exact (plainSpaces_append_cons (by decide)).2 ⟨hstep.plainSpaces_rest hraw, plainSpaces_newline⟩

theorem Reads.led {ls : List Text} (h : s.Led) (hls : ∀ l ∈ ls, PlainSpaces l)
    (hreads : Reads s ls s') : s'.Led := by
  induction hreads with
  | nil => exact h
  | @cons s next s' l ls hline _ ih =>
    obtain ⟨hl, hrest⟩ := List.forall_mem_cons.1 hls
    exact ih ((line_lineSteps hline).led (h.withLines (s.lines + 1)) hl) hrest

end Scan

/-- In a text without other white space than spaces, tabs and newlines nothing else is read in front
of a block. -/
theorem Document.parse_led {text : Text} {d : Document} (h : Document.parse text = .ok d)
    (htext : PlainSpaces text) : ∀ e ∈ d.entries, e.Led := by
  obtain ⟨s, hreads, hentries, -⟩ := parse_cases h
  rw [hentries]
  exact (hreads.led Scan.Holds.start htext.lines).entries

end GrammarLayout
