import GrammarLayout.Proofs.Grammar.Alternatives
import GrammarLayout.Proofs.Grammar.Leads
import GrammarLayout.Proofs.Grammar.Trimmed
import GrammarLayout.Proofs.Idempotent.Rules

/-!
# What is read from plain text is regular

The passes over a rule are idempotent on productions and blocks in parts.  The
reader cuts lines at pipes and braces and trims what is left, so what it makes
of a text has these parts as long as the white space in it is made of blanks.

What is proved here:

* `Text.IsPlainLine` — one line with plain white space, and its parts;
* `IsReadProduction` — productions as they are read, and `IsReadProduction.isProduction`;
* `Scan.Step.asRead`, `Scan.Reads.asRead` — a step and a run of the reader leave
  rules as they are read;
* `Document.parse_regular`, `Document.layOut_layOut_of_parse` — whole texts.
-/

namespace GrammarLayout

open Ascii Text

/-! ## Plain lines -/

namespace Text

/-- One line whose white space is made of blanks. -/
structure IsPlainLine (s : Text) : Prop where
  /-- All white space is plain. -/
  plain : PlainSpaces s
  /-- It is one line. -/
  oneLine : newline ∉ s

theorem EndsVisible.trimBlanksEnd {s : Text} (h : EndsVisible s) : trimBlanksEnd s = s :=
  trimEndWhile_eq_self_of_imp (fun c hc => by rw [isLayout, hc, Bool.true_or, Bool.true_or]) h.trimLayout

theorem isSpaces_trim (s : Text) : isSpaces (trim s) = isSpaces s := by
  rw [← isEmpty_trim, trim_trim, isEmpty_trim]

theorem isSpaces_trimBlanksEnd (s : Text) : isSpaces (trimBlanksEnd s) = isSpaces s := by
  rw [← isEmpty_trim, trim_trimBlanksEnd, isEmpty_trim]

theorem trimBlanksEnd_trim (s : Text) : trimBlanksEnd (trim s) = trim s :=
  (endsVisible_trim s).trimBlanksEnd

theorem isPlainLine_append_cons {c : UInt8} (hc : c < 0x80) {a b : Text} :
    IsPlainLine (a ++ c :: b) ↔ IsPlainLine a ∧ IsPlainLine (c :: b) := by
  constructor
  · intro h
    have hplain := (plainSpaces_append_cons hc).1 h.plain
    exact ⟨⟨hplain.1, fun hmem => h.oneLine (List.mem_append_left _ hmem)⟩,
      ⟨hplain.2, fun hmem => h.oneLine (List.mem_append_right _ hmem)⟩⟩
  · intro ⟨ha, hb⟩
    refine ⟨(plainSpaces_append_cons hc).2 ⟨ha.plain, hb.plain⟩, fun hmem => ?_⟩
    rcases List.mem_append.1 hmem with hmem | hmem
    exacts [ha.oneLine hmem, hb.oneLine hmem]

theorem isPlainLine_cons {c : UInt8} (hc : c < 0x80) (hblank : isAsciiSpace c = true → isBlank c = true)
    (hline : c ≠ newline) {s : Text} : IsPlainLine (c :: s) ↔ IsPlainLine s := by
  constructor
  · intro h
    exact ⟨h.plain.of_cons rfl hc, fun hmem => h.oneLine (List.mem_cons_of_mem c hmem)⟩
  · intro h
    refine ⟨fun r hr hspace b hb => ?_, fun hmem => ?_⟩
    · rw [pieces_ascii_cons hc, List.mem_cons] at hr
      rcases hr with rfl | hr
      · obtain rfl := List.mem_singleton.1 hb
        have hb := hblank (by rw [isAsciiSpace, decide_eq_true hc, Bool.true_and]; exact hspace)
        rw [isBlank, Bool.or_eq_true, beq_iff_eq, beq_iff_eq] at hb
        exact hb.imp_right Or.inl
      · exact h.plain r hr hspace b hb
    · rcases List.mem_cons.1 hmem with hc' | hmem
      exacts [hline hc'.symm, h.oneLine hmem]

namespace IsPlainLine

variable {s : Text} (h : IsPlainLine s)
include h

/-- White space on a plain line is made of blanks. -/
theorem isBlank_of_mem (hs : isSpaces s = true) : ∀ c ∈ s, isBlank c = true := by
  intro c hc
  rcases h.plain.mem_of_isSpaces hs c hc with rfl | rfl | rfl
  exacts [rfl, rfl, absurd hc h.oneLine]

/-- A plain line is its visible part between blanks. -/
theorem exists_trim : ∃ w₁ w₂, s = w₁ ++ (trim s ++ w₂) ∧
    (∀ c ∈ w₁, isBlank c = true) ∧ ∀ c ∈ w₂, isBlank c = true := by
  obtain ⟨w₁, w₂, hs, hw₁, hw₂, hpieces, -⟩ := trim_split s
  have hpart : ∀ {w : Text}, (∀ r ∈ pieces w, r ∈ pieces s) → (∀ c ∈ w, c ∈ s) → IsPlainLine w :=
    fun hr hc => ⟨fun r hmem => h.plain r (hr r hmem), fun hmem => h.oneLine (hc _ hmem)⟩
  refine ⟨w₁, w₂, hs, (hpart ?_ ?_).isBlank_of_mem hw₁, (hpart ?_ ?_).isBlank_of_mem hw₂⟩
  · intro r hr
    rw [hpieces]
    exact List.mem_append_left _ hr
  · intro c hc
    rw [hs]
    exact List.mem_append_left _ hc
  · intro r hr
    rw [hpieces]
    exact List.mem_append_right _ (List.mem_append_right _ hr)
  · intro c hc
    rw [hs]
    exact List.mem_append_right _ (List.mem_append_right _ hc)

/-- A plain line without blanks at its end is its visible part behind blanks. -/
theorem eq_leadingBlanks_append (hend : trimBlanksEnd s = s) : s = leadingBlanks s ++ Text.trim s := by
  obtain ⟨w₁, w₂, hs, hw₁, hw₂⟩ := h.exists_trim
  have htrim := trimBlanksEnd_trim s
  have hvisible : s = w₁ ++ Text.trim s := by
    by_cases hnil : Text.trim s = []
    · have hblanks := h.isBlank_of_mem (trim_eq_nil_iff.1 hnil)
      rw [trimBlanksEnd, trimEndWhile_eq_nil_iff.2 hblanks] at hend
      rw [← hend] at hs
      rw [hnil, List.append_nil, ← hend, (List.append_eq_nil_iff.1 hs.symm).1]
    · rw [hs, ← List.append_assoc, trimBlanksEnd, trimEndWhile_append_of_forall hw₂,
        trimEndWhile_append_of_ne_nil (by rwa [← trimBlanksEnd, htrim]), ← trimBlanksEnd, htrim] at hend
      rw [hend, List.append_assoc, ← hs]
  have hlead : leadingBlanks s = w₁ := by
    conv_lhs => rw [hvisible]
    exact leadingBlanks_append hw₁ (startsVisible_trim s).head?
  rw [hlead, ← hvisible]

/-- A plain line without blanks at its ends is trimmed. -/
theorem trim_eq_self (hstart : ∀ c ∈ s.head?, isBlank c = false) (hend : trimBlanksEnd s = s) :
    Text.trim s = s := by
  have hs := h.eq_leadingBlanks_append hend
  have hnil : leadingBlanks s = [] := leadingBlanks_append (w := []) (by simp) hstart
  rw [hnil, List.nil_append] at hs
  exact hs.symm

theorem trim : IsPlainLine (trim s) :=
  ⟨h.plain.trim, fun hmem => h.oneLine (mem_of_mem_trim hmem)⟩

/-- A plain line cut in front of blanks at its end is plain. -/
theorem trimBlanksEnd : IsPlainLine (trimBlanksEnd s) := by
  obtain ⟨w, hs, hw⟩ := exists_trimEndWhile isBlank s
  rw [← Text.trimBlanksEnd] at hs
  cases w with
  | nil => rwa [hs, List.append_nil] at h
  | cons c w =>
    have hc := hw c List.mem_cons_self
    rw [hs, isPlainLine_append_cons (lt_of_isAsciiSpace (isAsciiSpace_of_isBlank hc))] at h
    exact h.1

end IsPlainLine

theorem isPlainLine_blanks_append {w s : Text} (hw : ∀ c ∈ w, isBlank c = true) :
    IsPlainLine (w ++ s) ↔ IsPlainLine s := by
  induction w with
  | nil => rfl
  | cons c w ih =>
    have hc := hw c List.mem_cons_self
    rw [List.cons_append, isPlainLine_cons (lt_of_isAsciiSpace (isAsciiSpace_of_isBlank hc))
      (fun _ => hc), ih fun b hb => hw b (List.mem_cons_of_mem c hb)]
    rintro rfl
    exact absurd hc (by decide)

end Text

/-! ## Productions as they are read -/

/-- The text of a production on a plain line. -/
theorem isBody_of_isPlainLine {b : Text} (htrim : trim b = b) (hpipe : hasPipe b = false)
    (hline : IsPlainLine b) : IsBody b where
  trimmed := htrim
  unpiped := hpipe
  stem := by
    intro before inner hsplit
    obtain ⟨block, rest, hblock, -, rfl, -⟩ := splitInline?_eq hsplit
    have hb := firstBlock?_eq hblock
    have hstart := (trim_eq_self_iff.1 htrim).1
    rw [hb, List.cons_append, isPlainLine_append_cons (by decide)] at hline
    refine hline.1.trimBlanksEnd.trim_eq_self (fun c hc => ?_) (trimBlanksEnd_trimBlanksEnd _)
    obtain ⟨w, hw, -⟩ := exists_trimEndWhile isBlank block.before
    refine hstart.head? c ?_
    obtain ⟨t, ht⟩ := List.head?_eq_some_iff.1 hc
    rw [hb, hw, ← trimBlanksEnd, ht]
    rfl

/-- A production as it was read: a line without blanks at its end, with one pipe at most, and with
nothing but white space in front.  Only the first goes without a pipe. -/
structure IsReadProduction (i : Nat) (p : Text) : Prop where
  /-- It is one line. -/
  oneLine : newline ∉ p
  /-- There is something on it. -/
  inked : isSpaces p = false
  /-- No blank stands at its end. -/
  trimmed : trimBlanksEnd p = p
  /-- There is one pipe at most. -/
  single : hasPipe (bare p) = false
  /-- A pipe comes first, or the text of the first production. -/
  start : hasPipe p = true ∨ (i = 0 ∧ trim p = p)

/-- Behind a pipe the ink of the text is that of the production. -/
theorem ink_of_hasPipe {p : Text} (h : hasPipe p = true) : ink p = pipe :: ink (bare p) := by
  obtain ⟨t, ht⟩ := exists_of_hasPipe h
  rw [bare_of_trim_eq ht, ink_trim, ← ink_trim p, ht, ink_pipe]

namespace IsReadProduction

variable {i : Nat} {p : Text} (h : IsReadProduction i p)
include h

theorem isProduction (hplain : PlainSpaces p) : IsProduction i p := by
  have hline : IsPlainLine p := ⟨hplain, h.oneLine⟩
  by_cases hpipe : hasPipe p = true
  · obtain ⟨t, ht⟩ := exists_of_hasPipe hpipe
    have hp := hline.eq_leadingBlanks_append h.trimmed
    have hw := isBlank_of_mem_leadingBlanks p
    rw [hp, ht, isPlainLine_blanks_append hw, isPlainLine_cons (by decide) (by decide) (by decide)] at hline
    have hend : EndsVisible t :=
      (endsVisible_append_cons (c := pipe) (a := []) (by decide) (by decide)).1 (by
        rw [List.nil_append, ← ht]
        exact endsVisible_trim p)
    have htrimmed := hend.trimBlanksEnd
    have hbare : bare p = trim t := bare_of_trim_eq ht
    have hbody : IsBody (trim t) :=
      isBody_of_isPlainLine (trim_trim t) (by rw [← hbare]; exact h.single) hline.trim
    have hparts : p = alternative (leadingBlanks p) (leadingBlanks t) (trim t) := by
      rw [alternative, ← hline.eq_leadingBlanks_append htrimmed, ← ht, ← hp]
    rw [hparts]
    refine .alternative i hw (isBlank_of_mem_leadingBlanks t) hbody fun hnil => ?_
    have ht' := hline.eq_leadingBlanks_append htrimmed
    rw [hnil, List.append_nil] at ht'
    rw [← ht']
    exact eq_nil_of_isSpaces (trim_eq_nil_iff.1 hnil) (Or.inr hend)
  · obtain ⟨rfl, htrim⟩ := h.start.resolve_left hpipe
    exact .first (isBody_of_isPlainLine htrim (by simpa using hpipe) hline)

end IsReadProduction

theorem hasPipe_bare_iff {p : Text} (h : hasPipe p = true) :
    hasPipe (bare p) = true ↔ (ink p).tail.head? = some pipe := by
  rw [Rule.hasPipe_iff, ink_of_hasPipe h, List.tail_cons]

/-! ## Productions of a line -/

/-- White space belongs to the alternative that it stands in front of. -/
theorem alternativesFrom_isSpaces_append {w : Text} (hw : isSpaces w = true) {d : Int} (s : Text) :
    alternativesFrom .code d (w ++ s)
      = (w ++ (alternativesFrom .code d s).1, (alternativesFrom .code d s).2) := by
  have hneutral : ∀ c ∈ w, isNeutral c = true ∧ c ≠ hash ∧ c ≠ pipe := by
    intro c hc
    refine ⟨isNeutral_of_isSpaces hw c hc, ?_, ?_⟩
    · rintro rfl
      have hink := mem_ink (by decide) (by decide) hc
      rw [ink_of_isSpaces hw] at hink
      exact absurd hink (by simp)
    · rintro rfl
      have hink := pipe_mem_ink hc
      rw [ink_of_isSpaces hw] at hink
      exact absurd hink (by simp)
  clear hw
  induction w with
  | nil => rfl
  | cons c w ih =>
    obtain ⟨hc, hhash, hpipe⟩ := hneutral c List.mem_cons_self
    obtain ⟨hquote, hopen, hclose⟩ := isNeutral_spec hc
    simp [alternativesFrom, hquote, hopen, hclose, hhash, hpipe,
      ih fun b hb => hneutral b (List.mem_cons_of_mem c hb)]

/-- The first alternative does not start with a pipe. -/
theorem hasPipe_fst_alternativesFrom {d : Int} (hd : d ≤ 0) (s : Text) :
    hasPipe (alternativesFrom .code d s).1 = false := by
  rw [← Bool.not_eq_true, Rule.hasPipe_iff]
  intro hhead
  obtain ⟨w, rest, hfirst, hw⟩ := exists_of_head?_ink hhead
  obtain ⟨t, rfl⟩ : ∃ t, s = w ++ pipe :: t := by
    refine ⟨rest ++ (alternativesFrom .code d s).2.flatMap (pipe :: ·), ?_⟩
    have hs := alternativesFrom_eq .code d s
    rwa [hfirst, List.append_assoc, List.cons_append] at hs
  have hcut : (alternativesFrom .code d (pipe :: t)).1 = [] := by
    rw [alternativesFrom_cons]
    simp [hd, show pipe ≠ hash by decide]
  rw [alternativesFrom_isSpaces_append hw, hcut, List.append_nil, ink_of_isSpaces hw] at hhead
  exact absurd hhead (by simp)

theorem hasPipe_of_mem_alternativesFrom {q : Quoting} {d : Int} {s x : Text}
    (hx : x ∈ (alternativesFrom q d s).2) : hasPipe x = false := by
  induction s generalizing q d with
  | nil => simp [alternativesFrom] at hx
  | cons c s ih =>
    rw [alternativesFrom_cons] at hx
    split_ifs at hx with hhash hcut
    · simp at hx
    · rcases List.mem_cons.1 hx with rfl | hx
      · obtain ⟨rfl, rfl, hd⟩ := hcut
        refine hasPipe_fst_alternativesFrom ?_ s
        rwa [show byteDepth .code pipe = 0 from rfl, Int.add_zero]
      · exact ih hx
    · exact ih hx

theorem hasPipe_trim (p : Text) : hasPipe (trim p) = hasPipe p := by
  rw [hasPipe, trim_trim, ← hasPipe]

theorem hasPipe_trimBlanksEnd (p : Text) : hasPipe (trimBlanksEnd p) = hasPipe p := by
  rw [hasPipe, trim_trimBlanksEnd, ← hasPipe]

theorem bare_trimBlanksEnd (p : Text) : bare (trimBlanksEnd p) = bare p := by
  rw [bare, trim_trimBlanksEnd, ← bare]

theorem bare_trim (p : Text) : bare (trim p) = bare p := by
  rw [bare, trim_trim, ← bare]

theorem bare_trimEndWhile {f : UInt8 → Bool} (hf : ∀ c, f c = true → isAsciiSpace c = true) (p : Text) :
    bare (trimEndWhile f p) = bare p := by
  rw [bare, trim_trimEndWhile hf, bare]

/-- The alternatives of a line are on the line, with one pipe at most. -/
theorem single_of_mem_readyAlternatives {text p : Text} {header : Bool}
    (hline : newline ∉ text) (hp : p ∈ readyAlternatives text header) :
    newline ∉ p ∧ hasPipe (bare p) = false := by
  obtain ⟨first, rest, halts⟩ : ∃ first rest, alternatives text = (first, rest) := ⟨_, _, rfl⟩
  have hfirst : hasPipe first = false := by
    have := hasPipe_fst_alternativesFrom (Int.le_refl 0) text
    rwa [← alternatives, halts] at this
  have hrest : ∀ x ∈ rest, hasPipe x = false := by
    intro x hx
    refine hasPipe_of_mem_alternativesFrom (q := .code) (d := 0) (s := text) ?_
    rw [← alternatives, halts]
    exact hx
  have htext : text = first ++ rest.flatMap (pipe :: ·) := by
    have := alternatives_eq text
    rwa [halts] at this
  obtain ⟨hfirstLine, hrestLine⟩ : newline ∉ first ∧ ∀ x ∈ rest, newline ∉ x := by
    constructor
    · exact fun hmem => hline (by rw [htext]; exact List.mem_append_left _ hmem)
    · refine fun x hx hmem => hline ?_
      rw [htext]
      exact List.mem_append_right _ (List.mem_flatMap.2 ⟨x, hx, List.mem_cons_of_mem pipe hmem⟩)
  have hhead : newline ∉ first ∧ hasPipe (bare first) = false :=
    ⟨hfirstLine, by rw [bare_of_hasPipe_eq_false hfirst, hasPipe_trim, hfirst]⟩
  have hindent : ∀ c ∈ (if header then [] else leadingBlanks text), isBlank c = true := by
    split_ifs
    exacts [by simp, isBlank_of_mem_leadingBlanks text]
  rw [readyAlternatives, halts] at hp
  generalize (if header then [] else leadingBlanks text) = indent at hp hindent
  have hlater : ∀ x ∈ rest, p = trimEndWhile (· == space) (indent ++ bytes "| " ++ trim x) →
      newline ∉ p ∧ hasPipe (bare p) = false := by
    rintro x hx rfl
    have hcons : ∀ w : Text, w ++ bytes "| " ++ trim x = w ++ pipe :: ([space] ++ trim x) := fun w => by
      simp [show bytes "| " = [pipe, space] from rfl]
    have hspace : ∀ c ∈ [space], isBlank c = true := by simp [isBlank]
    rw [hcons]
    refine ⟨fun hmem => ?_, ?_⟩
    · rcases List.mem_append.1 (mem_of_mem_trimEndWhile hmem) with hmem | hmem
      · exact newline_notMem_of_blanks hindent hmem
      · have hx' : newline ∈ trim x := by simpa [newline, pipe, space] using hmem
        exact hrestLine x hx (mem_of_mem_trim hx')
    · have hascii : ∀ c : UInt8, (c == space) = true → isAsciiSpace c = true := by
        intro c hc
        rw [beq_iff_eq.1 hc]
        rfl
      rw [bare_trimEndWhile hascii, bare_blanks_pipe hindent, trim_blanks_append hspace,
        hasPipe_trim, hasPipe_trim]
      exact hrest x hx
  cases rest with
  | nil =>
    obtain rfl : p = first := by simpa using hp
    exact hhead
  | cons second others =>
    dsimp only at hp
    split_ifs at hp with hblank
    · rcases List.mem_cons.1 hp with rfl | hp
      · obtain ⟨hsecond, -⟩ := List.forall_mem_cons.1 hrestLine
        have hink : ink (first ++ pipe :: second) = pipe :: ink second := by
          rw [ink_isSpaces_append hblank, ink_pipe]
        refine ⟨?_, ?_⟩
        · rw [List.mem_append, List.mem_cons, not_or, not_or]
          exact ⟨hfirstLine, by decide, hsecond⟩
        · have hpiped : hasPipe (first ++ pipe :: second) = true := by
            rw [Rule.hasPipe_iff, hink]
            rfl
          rw [← Bool.not_eq_true, hasPipe_bare_iff hpiped, hink, List.tail_cons, ← Rule.hasPipe_iff,
            hrest second List.mem_cons_self]
          decide
      · obtain ⟨x, hx, hpx⟩ := List.mem_map.1 hp
        exact hlater x (List.mem_cons_of_mem second hx) hpx.symm
    · rcases List.mem_cons.1 hp with rfl | hp
      · exact hhead
      · obtain ⟨x, hx, hpx⟩ := List.mem_map.1 hp
        exact hlater x hx hpx.symm

/-! ## Rules as they are read -/

/-- White space in front of a brace, on the line of the brace or from the line before on, and the
rest of the block. -/
def IsReadBlock (t : Text) : Prop :=
  ∃ lead w rest, t = lead ++ openBrace :: rest ∧ (lead = w ∨ lead = newline :: w) ∧
    isSpaces w = true ∧ newline ∉ w

/-- A rule as it was read. -/
structure Rule.AsRead (r : Rule) : Prop where
  /-- The productions are. -/
  productions : ∀ i p, r.productions[i]? = some p → IsReadProduction i p
  /-- The blocks are. -/
  actions : ∀ a ∈ r.actions, IsReadBlock a.text

/-- All white space in the productions and the blocks of a rule is made of spaces, tabs and
newlines. -/
structure Rule.PlainlySpaced (r : Rule) : Prop where
  /-- In the productions. -/
  productions : ∀ p ∈ r.productions, PlainSpaces p
  /-- In the blocks. -/
  actions : ∀ a ∈ r.actions, PlainSpaces a.text

instance (r : Rule) : Decidable r.PlainlySpaced :=
  decidable_of_iff ((∀ p ∈ r.productions, PlainSpaces p) ∧ ∀ a ∈ r.actions, PlainSpaces a.text)
    ⟨fun h => ⟨h.1, h.2⟩, fun h => ⟨h.productions, h.actions⟩⟩

/-- The production behind the last one, after white space is cut off its end. -/
theorem IsReadProduction.of_text {i : Nat} {p text : Text} (hline : newline ∉ text)
    (hink : isSpaces text = false) (hsingle : hasPipe (bare text) = false)
    (hp : p = trim text ∨ hasPipe text = true ∧ p = trimBlanksEnd text)
    (hstart : hasPipe text = true ∨ i = 0) : IsReadProduction i p := by
  rcases hp with rfl | ⟨hpipe, rfl⟩
  · refine ⟨fun hmem => hline (mem_of_mem_trim hmem), by rw [isSpaces_trim, hink],
      trimBlanksEnd_trim text, ?_, ?_⟩
    · rw [bare_trim]
      exact hsingle
    · rw [hasPipe_trim, trim_trim]
      exact hstart.imp_right fun h => ⟨h, rfl⟩
  · refine ⟨fun hmem => hline (mem_of_mem_trimEndWhile hmem), by rw [isSpaces_trimBlanksEnd, hink],
      trimBlanksEnd_trimBlanksEnd text, ?_, Or.inl ?_⟩
    · rw [bare_trimBlanksEnd]
      exact hsingle
    · rw [hasPipe_trimBlanksEnd]
      exact hpipe

/-- A production that goes on with another line. -/
theorem IsReadProduction.extend {i : Nat} {p t : Text} (h : IsReadProduction i p) (hline : newline ∉ t)
    (htrim : trim t = t) (hink : isSpaces t = false) (hpipe : hasPipe t = false) :
    IsReadProduction i (p ++ space :: t) := by
  have hne : t ≠ [] := by
    rintro rfl
    exact absurd hink (by decide)
  have hinkp : ink (p ++ space :: t) = ink p ++ ink t := ink_append_space p t
  have hhead : (ink t).head? ≠ some pipe := by
    rw [Ne, ← Rule.hasPipe_iff, hpipe]
    decide
  have hlong : newline ∉ p ++ space :: t := by
    rw [List.mem_append, List.mem_cons, not_or, not_or]
    exact ⟨h.oneLine, by decide, hline⟩
  have hend : trimBlanksEnd (p ++ space :: t) = p ++ space :: t := by
    rw [trimBlanksEnd, trimEndWhile_append_cons_eq_self_iff (by decide), ← trimBlanksEnd]
    exact ⟨by rw [← htrim, trimBlanksEnd_trim], hne⟩
  have hlongInk : isSpaces (p ++ space :: t) = false := by
    rw [← Bool.not_eq_true, ← ink_eq_nil_iff, hinkp, List.append_eq_nil_iff, ink_eq_nil_iff,
      ink_eq_nil_iff, h.inked]
    simp
  by_cases hpiped : hasPipe p = true
  · have hboth : hasPipe (p ++ space :: t) = true := by
      rw [Rule.hasPipe_iff, hinkp, ink_of_hasPipe hpiped]
      rfl
    refine ⟨hlong, hlongInk, hend, ?_, Or.inl hboth⟩
    have hsingle := h.single
    rw [← Bool.not_eq_true, Rule.hasPipe_iff] at hsingle
    rw [← Bool.not_eq_true, hasPipe_bare_iff hboth, hinkp, ink_of_hasPipe hpiped, List.cons_append,
      List.tail_cons, List.head?_append]
    cases hbare : (ink (bare p)).head? with
    | none => simpa using hhead
    | some c =>
      rw [hbare] at hsingle
      simpa using hsingle
  · obtain ⟨rfl, htrimp⟩ := h.start.resolve_left hpiped
    have hpne : p ≠ [] := by
      rintro rfl
      exact absurd h.inked (by decide)
    have hboth : hasPipe (p ++ space :: t) = false := by
      rw [← Bool.not_eq_true, Rule.hasPipe_iff, hinkp]
      rw [Rule.hasPipe_iff] at hpiped
      cases hp : (ink p).head? with
      | none =>
        rw [List.head?_eq_none_iff, ink_eq_nil_iff] at hp
        exact absurd hp (by simp [h.inked])
      | some c =>
        rw [hp] at hpiped
        simpa [List.head?_append, hp] using hpiped
    have htrimLong : trim (p ++ space :: t) = p ++ space :: t := by
      refine trim_eq_self_iff.2 ⟨?_, ?_⟩
      · exact (StartsVisible.of_append_cons (by decide) hpne).2 (trim_eq_self_iff.1 htrimp).1
      · exact (EndsVisible.of_append_cons (by decide) hne).2 (trim_eq_self_iff.1 htrim).2
    refine ⟨hlong, hlongInk, hend, ?_, Or.inr ⟨rfl, htrimLong⟩⟩
    rw [bare_of_hasPipe_eq_false hboth, hasPipe_trim, hboth]

namespace Rule.AsRead

variable {r r' : Rule} (h : r.AsRead)
include h

theorem addProduction {p : Text} (hp : IsReadProduction r.productions.length p) :
    (r.addProduction p).AsRead := by
  refine ⟨fun i q hq => ?_, h.actions⟩
  rw [Rule.addProduction, List.getElem?_append] at hq
  split_ifs at hq with hi
  · exact h.productions i q hq
  · obtain ⟨hi0, rfl⟩ : i = r.productions.length ∧ q = p := by
      have hlt := (List.getElem?_eq_some_iff.1 hq).1
      have hzero : i - r.productions.length = 0 := by simpa using hlt
      rw [hzero] at hq
      exact ⟨by omega, (Option.some.inj hq).symm⟩
    rwa [hi0]

theorem extendProduction (hne : r.productions ≠ []) {t : Text} (hline : newline ∉ t)
    (htrim : trim t = t) (hink : isSpaces t = false) (hpipe : hasPipe t = false) :
    (r.extendProduction t).AsRead := by
  obtain ⟨ps, p, hps, -⟩ := exists_concat hne
  have hp : IsReadProduction ps.length p := h.productions _ _ (by simp [hps])
  have hext : r.extendProduction t = { r with productions := ps ++ [p ++ space :: t] } := by
    simp [Rule.extendProduction, hps, hp.trimmed, htrim]
  have hfront : Rule.AsRead { r with productions := ps } := by
    refine ⟨fun i q hq => h.productions i q ?_, h.actions⟩
    rw [hps, List.getElem?_append_left (List.getElem?_eq_some_iff.1 hq).1]
    exact hq
  rw [hext]
  exact hfront.addProduction (hp.extend hline htrim hink hpipe)

theorem addAction {a : Action} (ha : IsReadBlock a.text) : (r.addAction a).AsRead := by
  refine ⟨h.productions, fun b hb => ?_⟩
  rcases List.mem_append.1 hb with hb | hb
  · exact h.actions b hb
  · rwa [List.mem_singleton.1 hb]

theorem readAlternative {text : Text} {header : Bool} (hline : newline ∉ text)
    (hsingle : hasPipe (bare text) = false) (hr : r.readAlternative text header = .ok r') :
    r'.AsRead := by
  unfold Rule.readAlternative at hr
  dsimp only at hr
  rw [isEmpty_trim, hasPipe_trim] at hr
  split_ifs at hr with hblank hpipe hheader hempty hfirst
  · rwa [← Except.ok.inj hr]
  · rw [← Except.ok.inj hr]
    exact h.addProduction (.of_text hline (by simpa using hblank) hsingle (Or.inl rfl) (Or.inl hpipe))
  · rw [← Except.ok.inj hr]
    exact h.addProduction (.of_text hline (by simpa using hblank) hsingle (Or.inr ⟨hpipe, rfl⟩) (Or.inl hpipe))
  · rw [← Except.ok.inj hr]
    refine h.addProduction (.of_text hline (by simpa using hblank) hsingle (Or.inl rfl) (Or.inr ?_))
    rw [List.isEmpty_iff.1 hempty]
    rfl
  · rw [← Except.ok.inj hr]
    refine h.extendProduction (fun hnil => hempty (by rw [hnil]; rfl))
      (fun hmem => hline (mem_of_mem_trim hmem)) (trim_trim text) ?_ ?_
    · rw [isSpaces_trim]
      simpa using hblank
    · rw [hasPipe_trim]
      simpa using hpipe

theorem readProductions {text : Text} {header : Bool} (hline : newline ∉ text)
    (hr : r.readProductions text header = .ok r') : r'.AsRead := by
  have halts := fun p (hp : p ∈ readyAlternatives text header) => single_of_mem_readyAlternatives hline hp
  rw [Rule.readProductions] at hr
  generalize readyAlternatives text header = alts at halts hr
  induction alts generalizing r with
  | nil =>
    rw [← Except.ok.inj hr]
    exact h
  | cons p alts ih =>
    rw [List.foldlM_cons] at hr
    obtain ⟨next, hp, hnext⟩ := exists_of_bind_eq_ok hr
    obtain ⟨hpLine, hpSingle⟩ := halts p List.mem_cons_self
    exact ih (h.readAlternative hpLine hpSingle hp) (fun q hq => halts q (List.mem_cons_of_mem p hq)) hnext

end Rule.AsRead

/-! ## Blocks as they are read -/

theorem IsReadBlock.append {t : Text} (h : IsReadBlock t) (s : Text) : IsReadBlock (t ++ s) := by
  obtain ⟨lead, w, rest, rfl, hlead⟩ := h
  exact ⟨lead, w, rest ++ s, by simp, hlead⟩

theorem IsReadBlock.trimLayout {t : Text} (h : IsReadBlock t) : IsReadBlock (trimEndWhile isLayout t) := by
  obtain ⟨lead, w, rest, rfl, hlead⟩ := h
  exact ⟨lead, w, trimEndWhile isLayout rest, trimEndWhile_append_cons (by decide) lead rest, hlead⟩

namespace Scan

/-- The rules and the open block are as the reader leaves them. -/
abbrev AsRead (s : Scan) : Prop :=
  s.Holds (fun e => ∀ r, e = .rule r → r.AsRead) fun a => IsReadBlock a.text

variable {s s' : Scan} {r : OpenRule} {line : Text} {t : Option Text}

theorem BodyStep.asRead {header : Bool} (h : s.AsRead) (hr : s.openRule? = some r)
    (hline : newline ∉ line) (hstep : s.BodyStep r line header s' t) : s'.AsRead := by
  have hrule : r.rule.AsRead := h.rule hr _ rfl
  cases hstep with
  | closed => exact h.leave (Or.inl rfl)
  | @opened i hbrace _ hblank =>
    obtain ⟨rest, hrest⟩ := exists_drop_unclosedBrace? hbrace
    refine h.withAction hr (h.rule hr) ⟨newline :: line.take i, line.take i, rest, ?_, Or.inr rfl, hblank,
      fun hmem => hline (List.mem_of_mem_take hmem)⟩
    rw [List.cons_append, ← hrest, List.take_append_drop]
  | @openedBehind i _ _ hbrace _ _ hread =>
    obtain ⟨rest, hrest⟩ := exists_drop_unclosedBrace? hbrace
    obtain ⟨w, hw, htext⟩ := exists_drop_trimBlanksEnd line i
    refine h.withAction hr ?_ ⟨w, w, rest, by rw [htext, hrest], Or.inl rfl, hw, fun hmem => hline ?_⟩
    · rintro _ ⟨⟩
      exact hrule.readProductions (fun hmem => hline (List.mem_of_mem_take hmem)) hread
    · refine List.mem_of_mem_drop (i := (trimBlanksEnd (line.take i)).length) ?_
      rw [htext]
      exact List.mem_append_left _ hmem
  | productions _ _ _ hread =>
    refine h.withRule hr ?_
    rintro _ ⟨⟩
    exact hrule.readProductions hline hread
  | terminated _ _ _ hread =>
    refine (h.withRule hr ?_).leave (Or.inl rfl)
    rintro _ ⟨⟩
    refine hrule.readProductions (fun hmem => hline ?_) hread
    exact mem_of_mem_trimEndWhile (mem_of_mem_dropEnd hmem)

theorem ActionStep.asRead {a : OpenAction} (h : s.AsRead) (hmode : s.mode = .action r a)
    (hstep : s.ActionStep r a line s') : s'.AsRead := by
  have hr : s.openRule? = some r := by simp [openRule?, hmode]
  have hrule : r.rule.AsRead := h.rule hr _ rfl
  have hopen : IsReadBlock a.text := h.opened r a hmode
  -- The block ends with a part of the line.
  have hadded : ∀ last, (s.withRule r (r.rule.addAction
      (Action.ofText (a.text ++ newline :: last) a.owner a.line))).AsRead := by
    intro last
    refine h.withRule hr ?_
    rintro _ ⟨⟩
    exact hrule.addAction (hopen.append _).trimLayout
  cases hstep with
  | longer => exact h.withAction hr (h.rule hr) (hopen.append _)
  | closed => exact hadded _
  | terminated => exact (hadded _).leave (Or.inl rfl)

/-- A step of the reader leaves rules as they are read. -/
theorem Step.asRead {raw : Text} (h : s.AsRead) (hnewline : newline ∉ Text.trimTerminator raw)
    (hstep : s.Step raw s' t) : s'.AsRead := by
  have hnew : ∀ name, (s.leave (.body (s.newRule name))).AsRead := by
    refine fun name => h.leave_newRule ?_
    rintro _ ⟨⟩
    exact ⟨by simp [newRule], by simp [newRule]⟩
  have hkept : ∀ (v : Verbatim) (r : Rule), Entry.verbatim v = .rule r → r.AsRead := by
    rintro v r ⟨⟩
  cases hstep with
  | footer => exact h.keep (hkept _)
  | action hmode hstep => exact hstep.asRead h hmode
  | aside => exact h.keep (hkept _)
  | marker => exact (h.leave (Or.inr rfl)).keep (hkept _)
  | header => exact hnew _
  | headerComment => exact (hnew _).keep (hkept _)
  | headerBody _ hheader _ hstep =>
    refine hstep.asRead (hnew _) rfl fun hmem => ?_
    obtain ⟨w₁, w₂, heq, -⟩ := header?_eq hheader
    exact hnewline (by rw [heq]; simp [hmem])
  | stop => exact (h.leave (Or.inl rfl)).keep (hkept _)
  | outside => exact h.keep (hkept _)
  | body hmode _ _ _ _ _ hstep => exact hstep.asRead h (by simp [openRule?, hmode]) hnewline

theorem LineSteps.asRead {raw : Text} (h : s.AsRead) (hnewline : newline ∉ Text.trimTerminator raw)
    (hsteps : LineSteps s raw s') : s'.AsRead := by
  induction hsteps with
  | last hstep => exact hstep.asRead h hnewline
  | more hstep _ ih => exact ih (hstep.asRead h hnewline) (hstep.newline_notMem_rest hnewline)

theorem Reads.asRead {ls : List Text} (h : s.AsRead) (hls : ∀ l ∈ ls, newline ∉ Text.trimTerminator l)
    (hreads : Reads s ls s') : s'.AsRead := by
  induction hreads with
  | nil => exact h
  | @cons s next s' l ls hline _ ih =>
    obtain ⟨hl, hrest⟩ := List.forall_mem_cons.1 hls
    exact ih ((line_lineSteps hline).asRead (h.withLines (s.lines + 1)) hl) hrest

end Scan

/-! ## Whole texts -/

/-- A text with plain white space that is trimmed ends with a line of code. -/
theorem isEndLine_of_plainSpaces {body l : Text} (hplain : PlainSpaces body)
    (htrim : trimEndWhile isLayout body = body) (hne : body ≠ [])
    (hl : l ∈ (splitLines body).getLast?) : IsEndLine l := by
  obtain ⟨ls, l', hlines⟩ := exists_splitLines_concat body
  obtain rfl : l' = l := by
    rw [hlines, List.getLast?_concat] at hl
    exact Option.some.inj hl
  obtain ⟨front, hfront⟩ := exists_joinLines_concat ls l'
  have hbody : body = front ++ l' := by rw [← hfront, ← hlines, joinLines_splitLines]
  have hline : IsPlainLine l' := by
    refine ⟨?_, newline_notMem_of_mem_splitLines (s := body) (by simp [hlines])⟩
    by_cases hls : ls = []
    · rw [hls] at hlines
      rwa [← joinLines_splitLines body, hlines] at hplain
    · rw [← joinLines_splitLines body, hlines, joinLines_concat hls,
        plainSpaces_append_cons (by decide)] at hplain
      exact hplain.2.of_cons rfl (by decide)
  have hink : isSpaces l' = false := by
    rw [← Bool.not_eq_true]
    intro hspaces
    -- What stands in front of a blank line at the end would have been cut off, too.
    have hlayout : ∀ c ∈ l', isLayout c = true := fun c hc => by
      rw [isLayout, hline.isBlank_of_mem hspaces c hc, Bool.true_or, Bool.true_or]
    by_cases hls : ls = []
    · rw [hls] at hlines
      have hsame : body = l' := by
        rw [← joinLines_splitLines body, hlines]
        rfl
      rw [← hsame] at hlayout
      rw [trimEndWhile_eq_nil_iff.2 hlayout] at htrim
      exact hne htrim.symm
    · have hjoin := joinLines_splitLines body
      rw [hlines, joinLines_concat hls] at hjoin
      rw [← hjoin, trimEndWhile_append_cons_eq_self_iff (by decide)] at htrim
      rw [trimEndWhile_eq_nil_iff.2 hlayout] at htrim
      exact htrim.2 htrim.1.symm
  refine ⟨hink, ?_⟩
  have hlne : l' ≠ [] := by
    rintro rfl
    exact absurd hink (by decide)
  have hend : trimBlanksEnd l' = l' := by
    refine trimEndWhile_eq_self_of_imp (q := isLayout)
      (fun c hc => by rw [isLayout, hc, Bool.true_or, Bool.true_or]) ?_
    rcases trimEndWhile_eq_nil_or_concat isLayout l' with hnil | ⟨t, c, hc, hconcat⟩
    · have hspaces := trim_trimLayout l'
      rw [hnil, eq_comm, show trim [] = [] from rfl, trim_eq_nil_iff, hink] at hspaces
      exact absurd hspaces (by decide)
    · have hkept : trimEndWhile isLayout l' ≠ [] := by simp [hconcat]
      rw [hbody, trimEndWhile_append_of_ne_nil hkept] at htrim
      exact List.append_cancel_left htrim
  have hl' := hline.eq_leadingBlanks_append hend
  exact (trimBlanksStart_append (isBlank_of_mem_leadingBlanks l') (startsVisible_trim l').head? ▸
    congrArg trimBlanksStart hl').symm

/-- The block of an action that was read and trimmed. -/
theorem Action.inParts_of_isReadBlock {a : Action} (h : IsReadBlock a.text) (htrim : a.Trimmed)
    (hplain : PlainSpaces a.text) : a.InParts := by
  obtain ⟨lead, w, rest, htext, hlead, hw, hline⟩ := h
  rw [htext, plainSpaces_append_cons (by decide)] at hplain
  have hled : IsLead lead := by
    rcases hlead with rfl | rfl
    · exact Or.inl (IsPlainLine.isBlank_of_mem ⟨hplain.1, hline⟩ hw)
    · exact Or.inr ⟨w, rfl, IsPlainLine.isBlank_of_mem ⟨hplain.1.of_cons rfl (by decide), hline⟩ hw⟩
  obtain ⟨h₁, h₂⟩ := (Cut.block hled.openBrace_notMem).lead_body htext
  refine ⟨by rwa [h₁], ?_, fun l hl => ?_⟩
  · rw [h₂]
    rfl
  · refine isEndLine_of_plainSpaces (by rw [h₂]; exact hplain.2) htrim.body ?_ hl
    rw [h₂]
    exact List.cons_ne_nil _ _

/-- A rule that was read with plain white space is regular. -/
theorem Rule.AsRead.regular {r : Rule} (h : r.AsRead) (hordered : r.Ordered)
    (htrim : ∀ a ∈ r.actions, a.Trimmed) (hplain : r.PlainlySpaced) : r.Regular where
  productions i p hp := (h.productions i p hp).isProduction (hplain.productions p (List.mem_of_getElem? hp))
  productionIndent := hordered.productionIndent
  actions a ha := Action.inParts_of_isReadBlock (h.actions a ha) (htrim a ha) (hplain.actions a ha)
  owned := hordered.upper

namespace Document

variable {text : Text} {d : Document} (h : Document.parse text = .ok d)
include h

theorem parse_asRead : ∀ r, .rule r ∈ d.entries → r.AsRead := by
  obtain ⟨s, hreads, hentries, -⟩ := parse_cases h
  rw [hentries]
  intro r hr
  exact (hreads.asRead Scan.Holds.start fun _ hl => newline_notMem_trimTerminator hl).entries _ hr r rfl

variable (hplain : ∀ r ∈ d.rules, r.PlainlySpaced)
include hplain

/-- The rules of a document are regular when their white space is plain. -/
theorem parse_regular : ∀ r, .rule r ∈ d.entries → r.Regular := fun r hr =>
  (parse_asRead h r hr).regular (parse_ordered h r hr) (parse_trimmed h (.rule r) hr)
    (hplain r (mem_rules.2 hr))

/-- Laying out a document that was read twice is laying it out once, when the white space of its
rules is plain. -/
theorem layOut_layOut_of_parse (style : Style) : (d.layOut style).layOut style = d.layOut style :=
  layOut_layOut style (parse_regular h hplain) fun r hr => (parse_plain h (.rule r) hr).oneLine

end Document

end GrammarLayout
