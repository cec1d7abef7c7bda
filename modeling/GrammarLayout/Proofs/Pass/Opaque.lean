import GrammarLayout.Proofs.Grammar.Conservation
import GrammarLayout.Proofs.Grammar.Shape
import GrammarLayout.Proofs.Pass.Relaid
import GrammarLayout.Proofs.Text.Trim

/-!
# Text outside rules

A line that stands outside every rule is opaque: the reader keeps it, the
passes leave it where it is, and it is written as it was.  The only lines that
are ever added are blank ones, and in the sections after the grammar they are
added before the markers of these sections and nowhere else.

What is proved here:

* `Scan.Reads.entries_of_noRules` — without a header, the entries are the lines;
* `Scan.LineSteps.exists_marker`, `Scan.Reads.entries_of_footer` — what is kept
  of the line on which the sections after the grammar begin, and of those below;
* `Document.layOut_outline` — laying out keeps every line, and adds what the
  empty-line pass adds;
* `format_opaque` — the three put together for the text that is written.
-/

namespace GrammarLayout

open Ascii Text

/-! ## The lines that are kept -/

namespace Scan

variable {s s' : Scan} {raw : Text} {t : Option Text}

/-- A line kept as it is, as an entry. -/
def kept (l : Text) : Entry := .verbatim ⟨l, false⟩

theorem Step.of_footer (hmode : s.mode = .footer) (hstep : s.Step raw s' t) :
    s' = s.keep raw ∧ t = none := by
  cases hstep with
  | footer => exact ⟨rfl, rfl⟩
  | action h => simp [hmode] at h
  | aside h => simp [hmode] at h
  | marker h => simp [hmode] at h
  | header h => simp [hmode] at h
  | headerComment h => simp [hmode] at h
  | headerBody h => simp [hmode] at h
  | stop h => simp [hmode] at h
  | outside h => simp [hmode] at h
  | body h => simp [hmode] at h

theorem mode_keep_of_footer (hmode : s.mode = .footer) (raw : Text) :
    (s.keep raw).mode = .footer := by
  unfold keep
  rw [hmode]

theorem LineSteps.of_footer (hmode : s.mode = .footer) (hsteps : LineSteps s raw s') :
    s' = s.keep raw := by
  cases hsteps with
  | last hstep => exact (hstep.of_footer hmode).1
  | more hstep => exact absurd (hstep.of_footer hmode).2 (by simp)

/-- In the sections after the grammar every line is kept. -/
theorem Reads.entries_of_footer {ls : List Text} (hmode : s.mode = .footer)
    (hreads : Reads s ls s') : s'.entries = s.entries ++ ls.map kept := by
  induction hreads with
  | nil s => simp
  | @cons s next s' l ls hline _ ih =>
    have hnext := (line_lineSteps hline).of_footer (s := { s with lines := s.lines + 1 }) hmode
    have hentries : next.entries = s.entries ++ [kept l] := by
      rw [hnext, entries_keep]
      rfl
    have hmode' : next.mode = .footer := by
      rw [hnext]
      exact mode_keep_of_footer (s := { s with lines := s.lines + 1 }) hmode l
    rw [ih hmode', hentries, List.append_assoc]
    rfl

/-! ## Texts without rules -/

/-- Outside every rule, a step that opens none keeps its line. -/
theorem Step.of_noRules (hopen : s.openRule? = none) (hstep : s.Step raw s' t)
    (hnone : none ∉ s'.outline) :
    s'.entries = s.entries ++ [kept raw] ∧ s'.openRule? = none ∧ t = none := by
  have hbody : ∀ r, s.mode ≠ .body r := fun r h => by simp [openRule?, h] at hopen
  have hkeep : ∀ s : Scan, s.openRule? = none → (s.keep raw).openRule? = none := by
    intro s h
    unfold keep
    cases hm : s.mode <;> simp_all [openRule?]
  have hrule : ∀ name, none ∈ (s.leave (.body (s.newRule name))).outline := by
    intro name
    rw [outline_leave_newRule]
    simp
  cases hstep with
  | footer => exact ⟨entries_keep s raw, hkeep s hopen, rfl⟩
  | action h => simp [openRule?, h] at hopen
  | aside => exact ⟨entries_keep s raw, hkeep s hopen, rfl⟩
  | marker =>
    have hleave : (s.leave .footer).entries = s.entries := by simp [leave, entries, openRule?]
    refine ⟨?_, hkeep _ rfl, rfl⟩
    rw [entries_keep, hleave]
    rfl
  | header => exact absurd (hrule _) hnone
  | headerComment =>
    rw [outline_keep, List.mem_append, not_or] at hnone
    exact absurd (hrule _) hnone.1
  | headerBody _ _ _ hstep =>
    rw [hstep.outline_eq rfl] at hnone
    exact absurd (hrule _) hnone
  | stop h => exact absurd h (hbody _)
  | outside => exact ⟨entries_keep s raw, hkeep s hopen, rfl⟩
  | body h => exact absurd h (hbody _)

/-- As long as no rule is opened, the entries are the lines. -/
theorem Reads.entries_of_noRules {ls : List Text} (hopen : s.openRule? = none)
    (hreads : Reads s ls s') (hnone : none ∉ s'.outline) :
    s'.entries = s.entries ++ ls.map kept := by
  induction hreads with
  | nil s => simp
  | @cons s next s' l ls hline hrest ih =>
    obtain ⟨later, hlater⟩ := hrest.outline_eq
    have hnext : none ∉ next.outline := by
      rw [hlater, List.mem_append, not_or] at hnone
      exact hnone.1
    have hfirst : next.entries = s.entries ++ [kept l] ∧ next.openRule? = none := by
      have hopen' : ({ s with lines := s.lines + 1 } : Scan).openRule? = none := hopen
      cases line_lineSteps hline with
      | last hstep =>
        obtain ⟨hentries, hnextOpen, -⟩ := hstep.of_noRules hopen' hnext
        exact ⟨hentries, hnextOpen⟩
      | more hstep hsteps =>
        obtain ⟨added, hadded⟩ := hsteps.outline_eq
        rw [hadded, List.mem_append, not_or] at hnext
        exact absurd (hstep.of_noRules hopen' hnext.1).2.2 (by simp)
    rw [ih hfirst.2 hnone, hfirst.1, List.append_assoc]
    rfl

/-! ## The marker of the sections after the grammar -/

/-- What is left of a line stands behind a semicolon on it. -/
theorem Step.exists_semicolon {rest : Text} (hstep : s.Step raw s' (some rest)) :
    ∃ front tail, raw = front ++ semicolon :: tail ∧ rest = trim tail := by
  have hbody : ∀ {s r line header}, BodyStep s r line header s' (some rest) →
      ∃ tail, trim line = semicolon :: tail ∧ rest = trim tail := by
    intro s r line header hbody
    generalize ht : some rest = t at hbody
    cases hbody with
    | @closed tail hsemi =>
      split at ht
      · exact absurd ht (by simp)
      · exact ⟨tail, hsemi, by simpa using ht⟩
    | _ => exact absurd ht (by simp)
  obtain ⟨w, hraw, hw⟩ := exists_terminator raw
  cases hstep with
  | @headerBody name after _ _ _ hheader _ hstep =>
    obtain ⟨tail, hsemi, rfl⟩ := hbody hstep
    obtain ⟨w₁, w₂, hline, -⟩ := header?_eq hheader
    rw [← trim_append_spaces hw] at hsemi
    obtain ⟨front, tail', hafter, htrim⟩ := exists_of_trim_eq (a := []) hsemi
    refine ⟨w₁ ++ (name ++ (w₂ ++ colon :: front)), tail', ?_, htrim.symm⟩
    rw [hraw, hline]
    simp [hafter]
  | body _ _ _ _ _ _ hstep =>
    obtain ⟨tail, hsemi, rfl⟩ := hbody hstep
    rw [trim_trimTerminator] at hsemi
    obtain ⟨front, tail', hraw', htrim⟩ := exists_of_trim_eq (a := []) hsemi
    exact ⟨front, tail', hraw', htrim.symm⟩

/-- The line that is kept of `l` when the sections after the grammar begin on it: the line itself,
or, with a newline, what follows a semicolon on it. -/
inductive KeptOf (l : Text) : Text → Prop where
  /-- The whole line is kept. -/
  | whole : KeptOf l l
  /-- What follows a semicolon is kept. -/
  | behind {front tail : Text} (h : l = front ++ semicolon :: tail) :
      KeptOf l (trim tail ++ [newline])

theorem KeptOf.of_rest {front tail marker : Text} (hraw : raw = front ++ semicolon :: tail)
    (h : KeptOf (trim tail ++ [newline]) marker) : KeptOf raw marker := by
  cases h with
  | whole => exact .behind hraw
  | @behind front' tail' hcut =>
    -- The newline that was added ends what stands behind the later semicolon.
    obtain ⟨tail'', rfl⟩ : ∃ tail'', tail' = tail'' ++ [newline] := by
      have hlast : (semicolon :: tail').getLast? = some newline := by
        rw [← List.getLast?_append_cons front', ← hcut, List.getLast?_concat]
      rcases List.eq_nil_or_concat tail' with rfl | ⟨tail'', c, rfl⟩
      · exact absurd hlast (by decide)
      · refine ⟨tail'', ?_⟩
        rw [List.concat_eq_append, ← List.cons_append, List.getLast?_concat] at hlast
        rw [List.concat_eq_append, Option.some.inj hlast]
    have hcut' : trim tail = front' ++ semicolon :: tail'' := by
      rw [← List.cons_append, ← List.append_assoc] at hcut
      exact List.append_cancel_right hcut
    obtain ⟨front₂, tail₂, htail, htrim⟩ := exists_of_trim_eq hcut'
    have hmarker : trim (tail'' ++ [newline]) = trim tail₂ := by
      rw [htrim]
      exact trim_append_of_isSpaces (by decide) _
    have hcut₂ : raw = (front ++ semicolon :: front₂) ++ semicolon :: tail₂ := by
      rw [hraw, htail]
      simp
    rw [hmarker]
    exact .behind hcut₂

/-- The sections after the grammar begin with a marker that is kept. -/
theorem LineSteps.exists_marker (hsteps : LineSteps s raw s') (hmode : s.mode ≠ .footer)
    (hmode' : s'.mode = .footer) :
    ∃ marker es, s'.entries = es ++ [kept marker] ∧ isFooterMarker marker = true ∧
      KeptOf raw marker := by
  induction hsteps with
  | @last s s' raw hstep =>
    have hkeep : ∀ s : Scan, s.mode ≠ .footer → (s.keep raw).mode ≠ .footer := by
      intro s h
      unfold keep
      cases hm : s.mode <;> simp_all
    have hbody : ∀ {s r line header t}, ¬ (BodyStep s r line header s' t) := by
      intro s r line header t hbody
      cases hbody <;> simp [leave, openAction, withRule] at hmode'
    cases hstep with
    | footer h => exact absurd h hmode
    | action h hstep => cases hstep <;> simp [leave, withRule] at hmode'
    | aside => exact absurd hmode' (hkeep s hmode)
    | marker _ hline =>
      refine ⟨raw, _, entries_keep _ raw, ?_, .whole⟩
      rwa [isFooterMarker, trim_trimTerminator] at hline
    | header => simp [leave] at hmode'
    | headerComment => exact absurd hmode' (by simp [keep, leave])
    | headerBody _ _ _ hstep => exact absurd hstep hbody
    | stop => exact absurd hmode' (by simp [keep, leave])
    | outside => exact absurd hmode' (hkeep s hmode)
    | body _ _ _ _ _ _ hstep => exact absurd hstep hbody
  | more hstep _ ih =>
    obtain ⟨front, tail, hraw, rfl⟩ := hstep.exists_semicolon
    obtain ⟨marker, es, hentries, hmarker, hkept⟩ :=
      ih (by rw [hstep.mode_of_some]; simp) hmode'
    exact ⟨marker, es, hentries, hmarker, hkept.of_rest hraw⟩

end Scan

/-! ## The passes -/

/-- For each entry of a document, its line when it is no rule. -/
def Document.outline (d : Document) : List (Option Text) := d.entries.map Entry.line?

theorem Document.outline_mapRules (f : Rule → Rule) (d : Document) :
    (d.mapRules f).outline = d.outline := by
  rw [outline, mapRules, List.map_map]
  refine List.map_congr_left fun e _ => ?_
  cases e <;> rfl

theorem map_line?_alignColonsFrom (width : Text → Nat) (widest : Nat) (es : List Entry) :
    (alignColonsFrom width widest es).map Entry.line? = es.map Entry.line? := by
  induction es generalizing widest with
  | nil => rfl
  | cons e es ih =>
    cases e with
    | verbatim v => rw [alignColonsFrom, List.map_cons, ih, List.map_cons]
    | rule r =>
      rw [alignColonsFrom, List.map_cons, ih, List.map_cons]
      rfl

/-- A pass keeps every line where it is, unless it inserts empty lines. -/
theorem PassName.outline_run (style : Style) {p : PassName} (hp : p ≠ .emptyLine) (d : Document) :
    (p.run style d).outline = d.outline := by
  cases p with
  | indent => exact Document.outline_mapRules _ d
  | braceNewline => exact Document.outline_mapRules _ d
  | spacing => exact Document.outline_mapRules _ d
  | emptyLine => exact absurd rfl hp
  | alignment =>
    have hcolons : (d.alignColons Text.width).outline = d.outline :=
      map_line?_alignColonsFrom Text.width 0 d.entries
    simp only [run, Document.align]
    split <;> split
    · rw [Document.outline_mapRules, Document.outline_mapRules, hcolons]
    · rw [Document.outline_mapRules]
    · rw [Document.outline_mapRules, hcolons]
    · rfl

theorem Document.outline_runPasses (style : Style) {ps : List PassName} (hps : .emptyLine ∉ ps)
    (d : Document) : (d.runPasses style ps).outline = d.outline := by
  induction ps generalizing d with
  | nil => rfl
  | cons p ps ih =>
    rw [List.mem_cons, not_or] at hps
    rw [runPasses, List.foldl_cons, ← runPasses, ih hps.2, p.outline_run style (Ne.symm hps.1)]

/-- Laying out keeps every line; empty lines are inserted last, if at all. -/
theorem Document.layOut_outline (style : Style) (d : Document) :
    ∃ d' : Document, d'.outline = d.outline ∧
      (d.layOut style = d' ∨ d.layOut style = d'.separate style) := by
  set ps := [PassName.indent, .braceNewline, .spacing, .alignment].filter style.enabled with hps
  have hmem : PassName.emptyLine ∉ ps := by
    rw [hps, List.mem_filter]
    simp
  refine ⟨d.runPasses style ps, d.outline_runPasses style hmem, ?_⟩
  have hpasses : style.passes = ps ++ [PassName.emptyLine].filter style.enabled :=
    List.filter_append (p := style.enabled)
      [PassName.indent, .braceNewline, .spacing, .alignment] [.emptyLine]
  rw [layOut, hpasses, runPasses, List.foldl_append, ← runPasses]
  by_cases hlast : style.enabled .emptyLine = true
  · rw [List.filter_cons_of_pos hlast]
    exact Or.inr rfl
  · rw [List.filter_cons_of_neg hlast]
    exact Or.inl rfl

/-! ## Empty lines -/

namespace EmptyLineStyle

variable (style : EmptyLineStyle)

/-- Entries are separated from left to right. -/
theorem separate_append (previous : Option Entry) (seenRule : Bool) (as bs : List Entry) :
    ∃ previous' seenRule', style.separate previous seenRule (as ++ bs)
      = style.separate previous seenRule as ++ style.separate previous' seenRule' bs := by
  induction as generalizing previous seenRule with
  | nil => exact ⟨previous, seenRule, rfl⟩
  | cons a as ih =>
    obtain ⟨previous', seenRule', hrest⟩ := ih (some a) (seenRule || a.isRule)
    refine ⟨previous', seenRule', ?_⟩
    rw [List.cons_append, separate, hrest, separate]
    split <;> rfl

/-- Before the first rule no line is inserted. -/
theorem separate_of_noRules (previous : Option Entry) {es : List Entry}
    (h : ∀ e ∈ es, e.isRule = false) : style.separate previous false es = es := by
  induction es generalizing previous with
  | nil => rfl
  | cons e es ih =>
    have he := h e List.mem_cons_self
    have hwants : style.wantsBlank previous false e = false := by
      cases e with
      | verbatim v => simp [wantsBlank]
      | rule r => simp [Entry.isRule] at he
    rw [separate, hwants, he]
    simp [ih _ fun e he => h e (List.mem_cons_of_mem _ he)]

end EmptyLineStyle

/-- The lines on the right are those on the left, with empty lines before some of those that mark a
section after the grammar. -/
inductive MarkersSpaced : List Text → List Text → Prop where
  /-- No line. -/
  | nil : MarkersSpaced [] []
  /-- A line as it is. -/
  | line (l : Text) {ls ks : List Text} (h : MarkersSpaced ls ks) :
      MarkersSpaced (l :: ls) (l :: ks)
  /-- An empty line before a marker. -/
  | spaced {l : Text} (hl : isFooterMarker l = true) {ls ks : List Text}
      (h : MarkersSpaced ls ks) : MarkersSpaced (l :: ls) ([newline] :: l :: ks)

theorem MarkersSpaced.refl (ls : List Text) : MarkersSpaced ls ls := by
  induction ls with
  | nil => exact .nil
  | cons l ls ih => exact .line l ih

theorem EmptyLineStyle.separate_markersSpaced (style : EmptyLineStyle) (previous : Option Entry)
    (seenRule : Bool) {es : List Entry} {ls : List Text} (h : es.map Entry.line? = ls.map some) :
    MarkersSpaced ls ((style.separate previous seenRule es).map Entry.render) := by
  induction es generalizing previous seenRule ls with
  | nil =>
    obtain rfl : ls = [] := by simpa using h.symm
    exact .nil
  | cons e es ih =>
    cases ls with
    | nil => simp at h
    | cons l ls =>
      rw [List.map_cons, List.map_cons, List.cons.injEq] at h
      cases e with
      | rule r => simp [Entry.line?] at h
      | verbatim v =>
        obtain rfl : v.text = l := by simpa [Entry.line?] using h.1
        have hrest := ih (some (.verbatim v)) (seenRule || (Entry.verbatim v).isRule) h.2
        rw [separate]
        split
        · rename_i hwants
          refine .spaced ?_ hrest
          simp only [wantsBlank, Bool.and_eq_true] at hwants
          exact hwants.1.1.1
        · exact .line _ hrest

theorem map_render_of_map_line? {es : List Entry} {ls : List Text}
    (h : es.map Entry.line? = ls.map some) : es.map Entry.render = ls := by
  induction es generalizing ls with
  | nil => simpa using h.symm
  | cons e es ih =>
    cases ls with
    | nil => simp at h
    | cons l ls =>
      rw [List.map_cons, List.map_cons, List.cons.injEq] at h
      rw [List.map_cons, ih h.2]
      cases e with
      | verbatim v => simpa [Entry.line?, Entry.render] using h.1
      | rule r => simp [Entry.line?] at h

theorem Document.render_eq_flatten (d : Document) :
    d.render = (d.entries.map Entry.render).flatten := by
  rw [render, List.flatMap_def]

/-- The lines of a document that no pass inserted and that belong to no rule. -/
def Document.keptLines (d : Document) : List Text :=
  (d.entries.filter fun e => !e.inserted).filterMap Entry.line?

theorem filterMap_line?_of_relaid {R : Rule → Rule → Prop} {es es' : List Entry}
    (h : List.Forall₂ (Entry.Relaid R) es es') :
    es'.filterMap Entry.line? = es.filterMap Entry.line? := by
  induction h with
  | nil => rfl
  | cons he _ ih =>
    rw [List.filterMap_cons, List.filterMap_cons, ih]
    cases he <;> rfl

/-- The lines that were read outside rules stay, in their order. -/
theorem Document.keptLines_layOut (style : Style) {text : Text} {d : Document}
    (h : Document.parse text = .ok d) : (d.layOut style).keptLines = d.keptLines := by
  have hread : ∀ e ∈ d.entries, e.inserted = false := by
    intro e he
    cases e with
    | verbatim v => exact Document.parse_plain h _ he
    | rule r => rfl
  have hrelaid := (d.runPasses_relaid style style.passes).forall₂ (Q := fun _ _ => True)
    (fun _ _ => trivial) hread
  have hsame : d.entries.filter (fun e => !e.inserted) = d.entries :=
    List.filter_eq_self.2 fun e he => by simp [hread e he]
  rw [keptLines, keptLines, hsame]
  exact filterMap_line?_of_relaid hrelaid

/-! ## The text that is written -/

/-- A text in which no header is found is written as it is. -/
theorem Document.render_layOut_of_noRules (style : Style) {text : Text} {d : Document}
    (h : Document.parse text = .ok d) (hrules : d.rules = []) :
    (d.layOut style).render = text := by
  have hnone : none ∉ d.outline := by
    intro hmem
    obtain ⟨e, he, hline⟩ := List.mem_map.1 hmem
    cases e with
    | verbatim v => simp [Entry.line?] at hline
    | rule r =>
      have hr := mem_rules.2 he
      rw [hrules] at hr
      simp at hr
  obtain ⟨s, hreads, hentries, -⟩ := parse_cases h
  have hlines : d.entries = (lines text).map Scan.kept := by
    rw [hentries, hreads.entries_of_noRules rfl (by rwa [Scan.outline, ← hentries])]
    rfl
  have houtline : d.outline = (lines text).map some := by
    rw [outline, hlines, List.map_map]
    rfl
  obtain ⟨d', hd', hcases⟩ := d.layOut_outline style
  have hrender : d'.render = text := by
    rw [render_eq_flatten, map_render_of_map_line? (hd'.trans houtline), flatten_lines]
  have hsame : d'.separate style = d' := by
    have hplain : ∀ e ∈ d'.entries, e.isRule = false := by
      intro e he
      cases e with
      | verbatim v => rfl
      | rule r =>
        have hmem : none ∈ d'.outline := List.mem_map.2 ⟨_, he, rfl⟩
        rw [hd'] at hmem
        exact absurd hmem hnone
    rw [separate, style.emptyLine.separate_of_noRules none hplain]
  rcases hcases with hlaid | hlaid
  · rw [hlaid, hrender]
  · rw [hlaid, hsame, hrender]

/-- Lines that stand at the end of a document are written at the end, with empty lines before
markers only. -/
theorem Document.exists_render_layOut (style : Style) {d : Document} {es : List Entry}
    {ls : List Text} (h : d.entries = es ++ ls.map Scan.kept) :
    ∃ front rest, MarkersSpaced ls rest ∧ (d.layOut style).render = front ++ rest.flatten := by
  obtain ⟨d', hd', hcases⟩ := d.layOut_outline style
  rw [outline, outline, h, List.map_append, List.map_map] at hd'
  obtain ⟨as, bs, hentries, -, hbs⟩ := List.map_eq_append_iff.1 hd'
  have htail : bs.map Entry.line? = ls.map some := hbs
  rcases hcases with hlaid | hlaid
  · refine ⟨(as.map Entry.render).flatten, ls, .refl ls, ?_⟩
    rw [hlaid, render_eq_flatten, hentries, List.map_append, List.flatten_append,
      map_render_of_map_line? htail]
  · obtain ⟨previous, seenRule, hsplit⟩ := style.emptyLine.separate_append none false as bs
    refine ⟨((style.emptyLine.separate none false as).map Entry.render).flatten, _,
      style.emptyLine.separate_markersSpaced previous seenRule htail, ?_⟩
    rw [hlaid, render_eq_flatten, separate, hentries, hsplit, List.map_append, List.flatten_append]

theorem Scan.Reads.of_append {s mid s' : Scan} {before after : List Text}
    (h : Reads s before mid) (hall : Reads s (before ++ after) s') : Reads mid after s' := by
  induction h with
  | nil s => exact hall
  | cons hline _ ih =>
    cases hall with
    | cons hline' hrest =>
      rw [hline, Except.ok.injEq] at hline'
      rw [← hline'] at hrest
      exact ih hrest

/-- Text outside rules is opaque.  A text without rules is written as it is.  When the sections
after the grammar begin on a line `l`, the marker that is kept of it and all lines below are written
at the end, with empty lines before markers only.  In every document the lines that were kept stay
in their order. -/
theorem format_opaque (style : Style) {text : Text} {d : Document}
    (h : Document.parse text = .ok d) :
    format style text = .ok (d.layOut style).render ∧
    (d.rules = [] → (d.layOut style).render = text) ∧
    (∀ (before after : List Text) (l : Text) (s s' : Scan), lines text = before ++ l :: after →
      Scan.Reads Scan.start before s → s.line l = .ok s' → s.mode ≠ .footer → s'.mode = .footer →
      ∃ marker es front rest, s'.entries = es ++ [Scan.kept marker] ∧
        isFooterMarker marker = true ∧ Scan.KeptOf l marker ∧
        MarkersSpaced (marker :: after) rest ∧
        (d.layOut style).render = front ++ rest.flatten) ∧
    (d.layOut style).keptLines = d.keptLines := by
  refine ⟨by rw [format, h]; rfl, Document.render_layOut_of_noRules style h, ?_,
    Document.keptLines_layOut style h⟩
  intro before after l s s' hlines hbefore hline hmode hmode'
  obtain ⟨last, hreads, hentries, -⟩ := Document.parse_cases h
  rw [hlines] at hreads
  obtain ⟨marker, es, hmarked, hmarker, hkept⟩ :=
    (Scan.line_lineSteps hline).exists_marker (s := { s with lines := s.lines + 1 }) hmode hmode'
  have hrest : Scan.Reads s' after last := by
    cases hbefore.of_append hreads with
    | cons hline' hrest =>
      rw [hline, Except.ok.injEq] at hline'
      rwa [← hline'] at hrest
  have htail : d.entries = es ++ (marker :: after).map Scan.kept := by
    rw [hentries, hrest.entries_of_footer hmode', hmarked, List.append_assoc]
    rfl
  obtain ⟨front, rest, hspaced, hrender⟩ := Document.exists_render_layOut style htail
  exact ⟨marker, es, front, rest, hmarked, hmarker, hkept, hspaced, hrender⟩

/-- The sections begin behind a semicolon; a line in them that looks like a header stays, and the
second marker may get an empty line. -/
theorem format_opaque_behind_semicolon :
    ∃ d s s', Document.parse (bytes "a: b\n; ---- inner\nx: y\n---- footer\n") = .ok d ∧
      Scan.start.line (bytes "a: b\n") = .ok s ∧
      s.line (bytes "; ---- inner\n") = .ok s' ∧ s.mode ≠ .footer ∧ s'.mode = .footer ∧
      ∃ marker es front rest, s'.entries = es ++ [Scan.kept marker] ∧
        isFooterMarker marker = true ∧ Scan.KeptOf (bytes "; ---- inner\n") marker ∧
        MarkersSpaced [marker, bytes "x: y\n", bytes "---- footer\n"] rest ∧
        (d.layOut {}).render = front ++ rest.flatten := by
  have hfirst : Scan.start.line (bytes "a: b\n")
      = .ok ⟨[], .body ⟨{ name := bytes "a", line := 1, productions := [bytes "b"] }, []⟩, 1⟩ := by
    decide +kernel
  have hsecond : Scan.line
      ⟨[], .body ⟨{ name := bytes "a", line := 1, productions := [bytes "b"] }, []⟩, 1⟩
      (bytes "; ---- inner\n")
      = .ok ⟨[.rule { name := bytes "a", line := 1, productions := [bytes "b"] },
          .verbatim ⟨bytes "---- inner\n", false⟩], .footer, 2⟩ := by
    decide +kernel
  have hparse : Document.parse (bytes "a: b\n; ---- inner\nx: y\n---- footer\n")
      = .ok ⟨[.rule { name := bytes "a", line := 1, productions := [bytes "b"] },
          .verbatim ⟨bytes "---- inner\n", false⟩, .verbatim ⟨bytes "x: y\n", false⟩,
          .verbatim ⟨bytes "---- footer\n", false⟩]⟩ := by
    decide +kernel
  obtain ⟨-, -, hfooter, -⟩ := format_opaque {} hparse
  refine ⟨_, _, _, hparse, hfirst, hsecond, by simp, rfl, ?_⟩
  exact hfooter [bytes "a: b\n"] [bytes "x: y\n", bytes "---- footer\n"] (bytes "; ---- inner\n")
    _ _ (by decide +kernel) (.cons hfirst (.nil _)) hsecond (by simp) rfl

end GrammarLayout
