import GrammarLayout.Proofs.Grammar.Balance
import GrammarLayout.Proofs.Grammar.Conservation
import GrammarLayout.Proofs.Grammar.Invariant

/-!
# The shape of what is read

Every rule that the reader builds has the same shape, whatever text it reads:
its productions are single lines that are not blank, and the braces of each of
its blocks are balanced.  The reader keeps this shape from step to step; for
the block that is still open it keeps count of the braces.

What is proved here:

* `Rule.readProductions_plain` — adding the productions of a line;
* `Scan.Step.plain`, `Scan.Reads.plain` — one step and a whole run of the
  reader;
* `Document.parse_plain` — every entry of a document that was read is plain.
-/

namespace GrammarLayout

open Ascii Text

/-! ## Plain entries -/

theorem isSpaces_eq_false_of_ink {s t : Text} (h : ink s = ink t) (ht : isSpaces t = false) :
    isSpaces s = false := by
  rw [← Bool.not_eq_true, ← ink_eq_nil_iff] at ht ⊢
  rwa [h]

/-- An ASCII byte that may stand in a rule's name. -/
def isWordByte (c : UInt8) : Bool := isWord c.toNat

/-- The productions of a rule are single lines with something on them, and its blocks have balanced
braces. -/
structure Rule.Plain (r : Rule) : Prop where
  /-- The name holds no other ASCII byte than those of names. -/
  name : ∀ c ∈ r.name, c < 0x80 → isWordByte c = true
  /-- No production is blank. -/
  inked : ∀ p ∈ r.productions, isSpaces p = false
  /-- Every production is one line. -/
  oneLine : ∀ p ∈ r.productions, newline ∉ p
  /-- The braces of every block are balanced. -/
  balanced : ∀ a ∈ r.actions, braceBalance a.text = 0

namespace Rule.Plain

variable {r : Rule} (h : r.Plain)
include h

theorem addProduction {p : Text} (hink : isSpaces p = false) (hline : newline ∉ p) :
    (r.addProduction p).Plain := by
  refine ⟨h.name, ?_, ?_, h.balanced⟩
  all_goals
    intro q hq
    rcases List.mem_append.1 hq with hq | hq
  · exact h.inked q hq
  · rwa [List.mem_singleton.1 hq]
  · exact h.oneLine q hq
  · rwa [List.mem_singleton.1 hq]

theorem extendProduction (hne : r.productions ≠ []) {t : Text} (hink : isSpaces t = false)
    (hline : newline ∉ t) : (r.extendProduction t).Plain := by
  obtain ⟨ps, p, hps, -⟩ := exists_concat hne
  have hext : r.extendProduction t =
      { r with productions := ps ++ [trimBlanksEnd p ++ space :: trim t] } := by
    simp [Rule.extendProduction, hps]
  have hold : ∀ q ∈ ps, q ∈ r.productions := fun q hq => by rw [hps]; exact List.mem_append_left _ hq
  rw [hext]
  refine ⟨h.name, ?_, ?_, h.balanced⟩
  all_goals
    intro q hq
    rcases List.mem_append.1 hq with hq | hq
  · exact h.inked q (hold q hq)
  · rw [List.mem_singleton.1 hq, ← Bool.not_eq_true, ← ink_eq_nil_iff, ink_append_space, ink_trim,
      List.append_eq_nil_iff, not_and, ink_eq_nil_iff, ink_eq_nil_iff, Bool.not_eq_true]
    exact fun _ => hink
  · exact h.oneLine q (hold q hq)
  · rw [List.mem_singleton.1 hq, List.mem_append, List.mem_cons, not_or, not_or]
    refine ⟨fun hmem => ?_, by decide, fun hmem => hline (mem_of_mem_trim hmem)⟩
    exact h.oneLine p (by rw [hps]; simp) (mem_of_mem_trimEndWhile hmem)

theorem addAction {a : Action} (ha : braceBalance a.text = 0) : (r.addAction a).Plain := by
  refine ⟨h.name, h.inked, h.oneLine, fun b hb => ?_⟩
  rcases List.mem_append.1 hb with hb | hb
  · exact h.balanced b hb
  · rwa [List.mem_singleton.1 hb]

end Rule.Plain

/-- The entry was read, and when it is a rule it is plain. -/
def Entry.Plain : Entry → Prop
  | .verbatim v => v.synthetic = false
  | .rule r => r.Plain

/-! ## Productions of a line -/

theorem Rule.readAlternative_plain {r r' : Rule} {text : Text} {header : Bool} (h : r.Plain)
    (hline : newline ∉ text) (hr : r.readAlternative text header = .ok r') : r'.Plain := by
  rcases readAlternative_cases hr with ⟨-, rfl⟩ | ⟨hink, -, p, hp, rfl⟩ | ⟨hink, hne, -, rfl⟩
  · exact h
  · rcases hp with rfl | rfl
    · exact h.addProduction (isSpaces_eq_false_of_ink (ink_trim text) hink)
        fun hmem => hline (mem_of_mem_trim hmem)
    · exact h.addProduction (isSpaces_eq_false_of_ink (ink_trimBlanksEnd text) hink)
        fun hmem => hline (mem_of_mem_trimEndWhile hmem)
  · exact h.extendProduction hne (isSpaces_eq_false_of_ink (ink_trim text) hink)
      fun hmem => hline (mem_of_mem_trim hmem)

/-- The alternatives of a line hold bytes of the line, and blanks and pipes. -/
theorem mem_of_mem_readyAlternatives {text p : Text} {header : Bool}
    (hp : p ∈ readyAlternatives text header) {c : UInt8} (hc : c ∈ p) :
    c ∈ text ∨ c = pipe ∨ c = space := by
  obtain ⟨first, rest, halts⟩ : ∃ first rest, alternatives text = (first, rest) := ⟨_, _, rfl⟩
  have htext : text = first ++ rest.flatMap (pipe :: ·) := by
    have := alternatives_eq text
    rwa [halts] at this
  have hfirst : ∀ b ∈ first, b ∈ text := fun b hb => by
    rw [htext]
    exact List.mem_append_left _ hb
  have hrest : ∀ alt ∈ rest, ∀ b ∈ alt, b ∈ text := fun alt halt b hb => by
    rw [htext]
    exact List.mem_append_right _ (List.mem_flatMap.2 ⟨alt, halt, List.mem_cons_of_mem _ hb⟩)
  have hindent : ∀ b ∈ (if header then [] else leadingBlanks text), b ∈ text := by
    intro b hb
    split at hb
    · simp at hb
    · exact (List.takeWhile_sublist _).subset hb
  have hlater : ∀ alt ∈ rest, c ∈ trimEndWhile (· == space)
      ((if header then [] else leadingBlanks text) ++ bytes "| " ++ trim alt) →
      c ∈ text ∨ c = pipe ∨ c = space := by
    intro alt halt hmem
    rcases List.mem_append.1 (mem_of_mem_trimEndWhile hmem) with hmem | hmem
    · rcases List.mem_append.1 hmem with hmem | hmem
      · exact Or.inl (hindent c hmem)
      · have hbytes : c ∈ [pipe, space] := hmem
        exact Or.inr (by simpa using hbytes)
    · exact Or.inl (hrest alt halt c (mem_of_mem_trim hmem))
  rw [readyAlternatives, halts] at hp
  cases rest with
  | nil =>
    obtain rfl : p = first := by simpa using hp
    exact Or.inl (hfirst c hc)
  | cons second others =>
    simp only at hp
    split at hp
    · rcases List.mem_cons.1 hp with rfl | hp
      · rcases List.mem_append.1 hc with hc | hc
        · exact Or.inl (hfirst c hc)
        · rcases List.mem_cons.1 hc with rfl | hc
          · exact Or.inr (Or.inl rfl)
          · exact Or.inl (hrest second List.mem_cons_self c hc)
      · obtain ⟨alt, halt, rfl⟩ := List.mem_map.1 hp
        exact hlater alt (List.mem_cons_of_mem _ halt) hc
    · rcases List.mem_cons.1 hp with rfl | hp
      · exact Or.inl (hfirst c hc)
      · obtain ⟨alt, halt, rfl⟩ := List.mem_map.1 hp
        exact hlater alt halt hc

theorem Rule.readProductions_plain {r r' : Rule} {text : Text} {header : Bool} (h : r.Plain)
    (hline : newline ∉ text) (hr : r.readProductions text header = .ok r') : r'.Plain := by
  have halts : ∀ p ∈ readyAlternatives text header, newline ∉ p := by
    intro p hp hmem
    rcases mem_of_mem_readyAlternatives hp hmem with hmem | hmem | hmem
    · exact hline hmem
    · exact absurd hmem (by decide)
    · exact absurd hmem (by decide)
  rw [readProductions] at hr
  generalize readyAlternatives text header = alts at halts hr
  induction alts generalizing r with
  | nil =>
    rw [← Except.ok.inj hr]
    exact h
  | cons p alts ih =>
    rw [List.foldlM_cons] at hr
    obtain ⟨next, hp, hnext⟩ := exists_of_bind_eq_ok hr
    exact ih (readAlternative_plain h (halts p List.mem_cons_self) hp)
      (fun q hq => halts q (List.mem_cons_of_mem p hq)) hnext

/-! ## Names -/

/-- Every character of a rule's name is a character of names. -/
theorem isWord_of_mem_pieces_name {line name rest : Text} (h : header? line = some (name, rest)) :
    ∀ p ∈ pieces name, p.isWord = true := by
  simp only [header?] at h
  split at h
  · exact absurd h (by simp)
  · split at h
    · simp only [Option.some.injEq, Prod.mk.injEq] at h
      obtain ⟨rfl, -⟩ := h
      generalize line.dropWhile isHeaderSpace = start
      have hcut : pieces start = (pieces start).takeWhile Piece.isWord
          ++ (pieces start).dropWhile Piece.isWord := (List.takeWhile_append_dropWhile).symm
      obtain ⟨-, hword, -⟩ := pieces_ofPieces_append hcut
      rw [hword]
      exact fun p hp => List.mem_takeWhile_imp hp
    · exact absurd h (by simp)

/-- An ASCII byte of a rule's name is a byte of names. -/
theorem isWordByte_of_mem_name {line name rest : Text} (h : header? line = some (name, rest)) :
    ∀ c ∈ name, c < 0x80 → isWordByte c = true := by
  intro c hc hascii
  -- The byte is a piece of its own.
  obtain ⟨a, b, hab⟩ := List.append_of_mem hc
  have hpiece : (⟨some c.toNat, [c]⟩ : Piece) ∈ pieces name := by
    rw [hab, seam_ascii_cons hascii a b, pieces_ascii_cons hascii]
    exact List.mem_append_right _ List.mem_cons_self
  simpa [Piece.isWord, isWordByte] using isWord_of_mem_pieces_name h _ hpiece

/-! ## One step -/

namespace Scan

/-- Everything read is plain, and the braces of the open block are counted. -/
structure Plain (s : Scan) : Prop where
  /-- Every entry is plain. -/
  entries : ∀ e ∈ s.entries, e.Plain
  /-- The number of open braces is that of the open block, and at least one is open. -/
  counted : ∀ r a, s.mode = .action r a → braceBalance a.text = a.balance ∧ 0 < a.balance

variable {s s' : Scan} {r : OpenRule} {line : Text} {t : Option Text}

theorem plain_iff_holds : s.Plain ↔
    s.Holds Entry.Plain fun a => braceBalance a.text = a.balance ∧ 0 < a.balance :=
  ⟨fun h => ⟨h.entries, h.counted⟩, fun h => ⟨h.entries, h.opened⟩⟩

theorem Plain.rule (h : s.Plain) (hr : s.openRule? = some r) : r.rule.Plain :=
  (plain_iff_holds.1 h).rule hr

theorem Plain.keep (h : s.Plain) (raw : Text) : (s.keep raw).Plain :=
  plain_iff_holds.2 ((plain_iff_holds.1 h).keep rfl)

theorem Plain.leave (h : s.Plain) {m : Mode} (hm : m = .outside ∨ m = .footer) :
    (s.leave m).Plain :=
  plain_iff_holds.2 ((plain_iff_holds.1 h).leave hm)

theorem Plain.withRule {rule : Rule} (h : s.Plain) (hr : s.openRule? = some r)
    (hrule : rule.Plain) : (s.withRule r rule).Plain :=
  plain_iff_holds.2 ((plain_iff_holds.1 h).withRule hr hrule)

theorem Plain.openAction {rule : Rule} {text : Text} {balance : Int} (h : s.Plain)
    (hr : s.openRule? = some r) (hrule : rule.Plain) (hbalance : braceBalance text = balance)
    (hpos : 0 < balance) : (s.openAction r rule text balance).Plain :=
  plain_iff_holds.2 ((plain_iff_holds.1 h).withAction hr hrule ⟨hbalance, hpos⟩)

theorem plain_newRule {name : Text} (hname : ∀ c ∈ name, c < 0x80 → isWordByte c = true) :
    (s.newRule name).rule.Plain :=
  ⟨hname, by simp [newRule], by simp [newRule], by simp [newRule]⟩

theorem Plain.leave_newRule {name : Text} (h : s.Plain)
    (hname : ∀ c ∈ name, c < 0x80 → isWordByte c = true) :
    (s.leave (.body (s.newRule name))).Plain :=
  plain_iff_holds.2 ((plain_iff_holds.1 h).leave_newRule (plain_newRule hname))

/-- The text of a block behind productions is blanks and the block. -/
theorem exists_drop_trimBlanksEnd (line : Text) (i : Nat) : ∃ w, isSpaces w = true ∧
    line.drop (trimBlanksEnd (line.take i)).length = w ++ line.drop i := by
  obtain ⟨w, hw, hblank⟩ := trimEndWhile_append (p := isBlank) (fun _ => isAsciiSpace_of_isBlank)
    (line.take i)
  refine ⟨w, ink_eq_nil_iff.1 (ink_of_spaces hblank), ?_⟩
  calc line.drop (trimBlanksEnd (line.take i)).length
      = (trimBlanksEnd (line.take i) ++ (w ++ line.drop i)).drop
          (trimBlanksEnd (line.take i)).length := by
        rw [← List.append_assoc, trimBlanksEnd, ← hw, List.take_append_drop]
    _ = w ++ line.drop i := List.drop_left

theorem braceBalance_drop_trimBlanksEnd (line : Text) (i : Nat) :
    braceBalance (line.drop (trimBlanksEnd (line.take i)).length) = braceBalance (line.drop i) := by
  obtain ⟨w, hw, hcut⟩ := exists_drop_trimBlanksEnd line i
  rw [hcut, braceBalance_append, braceBalance_of_isSpaces hw, Int.zero_add]

/-- A line with white space in front of position `i` has the balance of the text from there on. -/
theorem braceBalance_newline_line {line : Text} {i : Nat} (h : isSpaces (line.take i) = true) :
    braceBalance (newline :: line) = braceBalance (line.drop i) := by
  rw [braceBalance_newline]
  conv => lhs; rw [← List.take_append_drop i line]
  rw [braceBalance_append, braceBalance_of_isSpaces h, Int.zero_add]

theorem BodyStep.plain {header : Bool} (h : s.Plain) (hr : s.openRule? = some r)
    (hline : newline ∉ line) (hstep : s.BodyStep r line header s' t) : s'.Plain := by
  cases hstep with
  | closed => exact h.leave (Or.inl rfl)
  | @opened i hbrace hbalance hblank =>
    exact h.openAction hr (h.rule hr) (braceBalance_newline_line hblank) hbalance
  | @openedBehind i rule hsemi hbrace hbalance hplace hread =>
    refine h.openAction hr ?_ (braceBalance_drop_trimBlanksEnd line i) hbalance
    exact Rule.readProductions_plain (h.rule hr) (fun hmem => hline (List.mem_of_mem_take hmem)) hread
  | productions hsemi hopen hend hread =>
    exact h.withRule hr (Rule.readProductions_plain (h.rule hr) hline hread)
  | @terminated rule hsemi hopen hend hread =>
    have hrule : rule.Plain := Rule.readProductions_plain (h.rule hr)
      (fun hmem => hline (mem_of_mem_trimEndWhile (mem_of_mem_dropEnd hmem))) hread
    exact (h.withRule hr hrule).leave (Or.inl rfl)

theorem ActionStep.plain {a : OpenAction} (h : s.Plain) (hmode : s.mode = .action r a)
    (hstep : s.ActionStep r a line s') : s'.Plain := by
  have hr : s.openRule? = some r := by simp [openRule?, hmode]
  obtain ⟨hcount, -⟩ := h.counted r a hmode
  -- The block ends with a text of the balance of the line.
  have hclosed : ∀ last : Text, a.balance + braceBalance last = 0 →
      (s.withRule r (r.rule.addAction
        (Action.ofText (a.text ++ newline :: last) a.owner a.line))).Plain := by
    intro last hlast
    refine h.withRule hr ((h.rule hr).addAction ?_)
    rw [Action.ofText, braceBalance_of_ink (ink_trimLayoutEnd _), braceBalance_append,
      braceBalance_newline, hcount]
    exact hlast
  cases hstep with
  | longer hbalance =>
    refine plain_iff_holds.2 ((plain_iff_holds.1 h).withAction hr (h.rule hr) ⟨?_, hbalance⟩)
    rw [braceBalance_append, braceBalance_newline, hcount]
  | closed hbalance =>
    refine hclosed _ ?_
    rwa [braceBalance_of_ink (ink_trimBlanksEnd line)]
  | @terminated last hbalance hlast hbrace =>
    refine (hclosed last ?_).leave (Or.inl rfl)
    have hline : braceBalance line = braceBalance last := by
      rw [← braceBalance_of_ink (ink_trimBlanksEnd line), hlast, braceBalance_append,
        braceBalance_cons (by decide) (by decide), braceBalance_nil, Int.add_zero]
    rwa [← hline]

/-- A step of the reader keeps everything plain. -/
theorem Step.plain {raw : Text} (h : s.Plain) (hraw : newline ∉ trimTerminator raw)
    (hstep : s.Step raw s' t) : s'.Plain := by
  cases hstep with
  | footer hmode => exact h.keep raw
  | action hmode hstep => exact hstep.plain h hmode
  | aside hmode => exact h.keep raw
  | marker hmode => exact (h.leave (Or.inr rfl)).keep raw
  | header hmode hheader => exact h.leave_newRule (isWordByte_of_mem_name hheader)
  | headerComment hmode hheader =>
    exact (h.leave_newRule (isWordByte_of_mem_name hheader)).keep _
  | @headerBody name rest _ _ hmode hheader hrest hstep =>
    refine hstep.plain (h.leave_newRule (isWordByte_of_mem_name hheader)) rfl fun hmem => hraw ?_
    obtain ⟨w₁, w₂, hline, -⟩ := header?_eq hheader
    rw [hline]
    simp [hmem]
  | stop hmode => exact (h.leave (Or.inl rfl)).keep raw
  | outside hmode => exact h.keep raw
  | body hmode _ _ _ _ _ hstep => exact hstep.plain h (by simp [openRule?, hmode]) hraw

/-! ## Whole texts -/

/-- What is left of a line has no newline when the line has none before its end. -/
theorem Step.newline_notMem_rest {raw rest : Text} (hraw : newline ∉ trimTerminator raw)
    (hstep : s.Step raw s' (some rest)) : newline ∉ trimTerminator (rest ++ [newline]) := by
  rw [trimTerminator_concat_newline]
  exact fun hmem => hraw (hstep.mem_rest newline (mem_of_mem_trimEndWhile hmem))

theorem LineSteps.plain {raw : Text} (h : s.Plain) (hraw : newline ∉ trimTerminator raw)
    (hsteps : LineSteps s raw s') : s'.Plain := by
  induction hsteps with
  | last hstep => exact hstep.plain h hraw
  | more hstep _ ih => exact ih (hstep.plain h hraw) (hstep.newline_notMem_rest hraw)

theorem Reads.plain {ls : List Text} (h : s.Plain) (hls : ∀ l ∈ ls, newline ∉ trimTerminator l)
    (hreads : Reads s ls s') : s'.Plain := by
  induction hreads with
  | nil s => exact h
  | @cons s next s' l ls hline _ ih =>
    have hcounted : Scan.Plain { s with lines := s.lines + 1 } := ⟨h.entries, h.counted⟩
    exact ih ((line_lineSteps hline).plain hcounted (hls l List.mem_cons_self))
      fun k hk => hls k (List.mem_cons_of_mem l hk)

theorem plain_start : Scan.start.Plain := plain_iff_holds.2 .start

end Scan

/-- Every entry of a document that was read is plain. -/
theorem Document.parse_plain {text : Text} {d : Document} (h : Document.parse text = .ok d) :
    ∀ e ∈ d.entries, e.Plain := by
  obtain ⟨s, hreads, hentries, -⟩ := parse_cases h
  rw [hentries]
  exact (hreads.plain Scan.plain_start fun _ hl => newline_notMem_trimTerminator hl).entries

end GrammarLayout
