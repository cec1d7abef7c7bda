import GrammarLayout.Proofs.Pass.Alphabet
import GrammarLayout.Proofs.Pass.Opaque
import GrammarLayout.Proofs.Source.Newline

/-!
# How a formatted text starts

A document starts with the first line of its text when this line is kept, and
with the name of a rule when it is a header.  A byte order mark is no character
of names, so that a formatted text starts with one only when its text did.

What is proved here:

* `Scan.Reads.outline_first` — the first line is kept or opens a rule;
* `startsWith_byteOrderMark_format` — formatting brings no byte order mark in;
* `newline_mem_format` — a text with lines is formatted to a text with lines.
-/

namespace GrammarLayout

open Ascii Text

/-! ## The first entry -/

namespace Scan

variable {s s' : Scan} {raw : Text} {t : Option Text}

/-- Outside every rule, a step keeps its line or opens a rule. -/
theorem Step.outline_first (hopen : s.openRule? = none) (hstep : s.Step raw s' t) :
    ∃ first later, s'.outline = s.outline ++ first :: later ∧
      (first = some raw ∨ first = none) := by
  cases hstep with
  | footer => exact ⟨_, [], outline_keep s raw, Or.inl rfl⟩
  | action hmode => simp [openRule?, hmode] at hopen
  | aside => exact ⟨_, [], outline_keep s raw, Or.inl rfl⟩
  | marker => exact ⟨_, [], by rw [outline_keep, outline_leave_footer], Or.inl rfl⟩
  | header => exact ⟨_, [], outline_leave_newRule s _, Or.inr rfl⟩
  | @headerComment _ rest =>
    refine ⟨none, [some (trim rest ++ [newline])], ?_, Or.inr rfl⟩
    rw [outline_keep, outline_leave_newRule, List.append_assoc]
    rfl
  | headerBody _ _ _ hstep =>
    exact ⟨none, [], by rw [hstep.outline_eq rfl, outline_leave_newRule], Or.inr rfl⟩
  | stop hmode => simp [openRule?, hmode] at hopen
  | outside => exact ⟨_, [], outline_keep s raw, Or.inl rfl⟩
  | body hmode => simp [openRule?, hmode] at hopen

theorem LineSteps.outline_first (hopen : s.openRule? = none) (hsteps : LineSteps s raw s') :
    ∃ first later, s'.outline = s.outline ++ first :: later ∧
      (first = some raw ∨ first = none) := by
  cases hsteps with
  | last hstep => exact hstep.outline_first hopen
  | more hstep hrest =>
    obtain ⟨first, later, houtline, hfirst⟩ := hstep.outline_first hopen
    obtain ⟨added, hadded⟩ := hrest.outline_eq
    refine ⟨first, later ++ added, ?_, hfirst⟩
    rw [hadded, houtline, List.append_assoc, List.cons_append]

/-- The first line of a text is kept or opens a rule. -/
theorem Reads.outline_first {l : Text} {ls : List Text} (hreads : Reads start (l :: ls) s') :
    ∃ first later, s'.outline = first :: later ∧ (first = some l ∨ first = none) := by
  cases hreads with
  | cons hline hrest =>
    obtain ⟨first, later, houtline, hfirst⟩ :=
      (line_lineSteps hline).outline_first (s := { start with lines := start.lines + 1 }) rfl
    obtain ⟨added, hadded⟩ := hrest.outline_eq
    refine ⟨first, later ++ added, ?_, hfirst⟩
    rw [hadded, houtline]
    rfl

end Scan

/-! ## Byte order marks -/

/-- A text that stands at the start of `a` and more stands at the start of `a` when it lacks the
byte behind `a`. -/
theorem prefix_of_notMem {p a b : Text} {c : UInt8} (h : p <+: a ++ c :: b) (hc : c ∉ p) :
    p <+: a := by
  have hcons : a ++ [c] <+: a ++ c :: b := ⟨b, by simp⟩
  rcases List.prefix_or_prefix_of_prefix h hcons with hp | hp
  · rcases List.prefix_concat_iff.1 hp with rfl | hp
    · exact absurd (by simp) hc
    · exact hp
  · exact absurd (hp.subset (by simp)) hc

theorem startsWith_byteOrderMark_append_cons {a b : Text} {c : UInt8} (hc : c ∉ byteOrderMark)
    (h : startsWith byteOrderMark (a ++ c :: b) = true) (b' : Text) :
    startsWith byteOrderMark (a ++ b') = true := by
  rw [startsWith, List.isPrefixOf_iff_prefix] at h ⊢
  exact (prefix_of_notMem h hc).trans (List.prefix_append a b')

/-- Behind the name of a rule stands a space or the colon. -/
theorem Rule.exists_behind_name (r : Rule) :
    ∃ c after, r.header = r.name ++ c :: after ∧ c ∉ byteOrderMark := by
  rw [header, List.append_assoc]
  cases r.namePadding with
  | succ n => exact ⟨space, _, rfl, by decide⟩
  | zero =>
    split
    · exact ⟨space, _, rfl, by decide⟩
    · exact ⟨colon, _, rfl, by decide⟩

/-- No rule starts with a byte order mark. -/
theorem Rule.startsWith_byteOrderMark_render {r : Rule}
    (hword : ∀ p ∈ pieces r.name, p.isWord = true) (rest : Text) :
    startsWith byteOrderMark (r.render ++ rest) = false := by
  rw [← Bool.not_eq_true]
  intro h
  obtain ⟨c, after, hheader, hc⟩ := r.exists_behind_name
  rw [render, hheader] at h
  simp only [List.append_assoc, List.cons_append] at h
  have hname := startsWith_byteOrderMark_append_cons hc h []
  rw [List.append_nil] at hname
  obtain ⟨t, ht⟩ := startsWith_byteOrderMark_iff.1 hname
  -- The mark would be the first character of the name.
  have hmark : (⟨some 0xFEFF, byteOrderMark⟩ : Piece) ∈ pieces r.name := by
    rw [ht, pieces_of_ne_nil (by simp)]
    exact List.mem_cons_self
  exact absurd (hword _ hmark) (by decide +kernel)

/-- Of laid out entries that start with a byte order mark the first one is a kept line. -/
theorem Relaid.exists_verbatim {R : Rule → Rule → Prop} {es es' : List Entry}
    (h : Relaid R es es') (hword : ∀ r, .rule r ∈ es' → ∀ p ∈ pieces r.name, p.isWord = true)
    (hbom : startsWith byteOrderMark (es'.flatMap Entry.render) = true) :
    ∃ v later later', es = .verbatim v :: later ∧ es' = .verbatim v :: later' := by
  cases h with
  | nil => exact absurd hbom (by decide)
  | blank =>
    obtain ⟨t, ht⟩ := startsWith_byteOrderMark_iff.1 hbom
    exact absurd (List.cons.inj ht).1 (by decide)
  | @cons e e' later later' he =>
    cases he with
    | verbatim v => exact ⟨v, later, later', rfl, rfl⟩
    | @rule r r' =>
      have hno := Rule.startsWith_byteOrderMark_render (hword r' List.mem_cons_self)
        (later'.flatMap Entry.render)
      rw [List.flatMap_cons, Entry.render, hno] at hbom
      exact absurd hbom (by decide)

/-- A document with a rule that starts with a kept line starts with the first line of its text, and
this line has its newline. -/
theorem Document.exists_first_line {text : Text} {d : Document} {v : Verbatim}
    {later : List Entry} (h : Document.parse text = .ok d) (hrules : d.rules ≠ [])
    (hentries : d.entries = .verbatim v :: later) :
    ∃ a rest, v.text = a ++ [newline] ∧ text = a ++ newline :: rest := by
  obtain ⟨s, hreads, hs, -⟩ := parse_cases h
  have houtline : s.outline = some v.text :: later.map Entry.line? := by
    rw [Scan.outline, ← hs, hentries]
    rfl
  -- The rule stands behind the line, so the line is not the last entry.
  have hended : Ended v.text := by
    have hlater : later ≠ [] := by
      rintro rfl
      exact hrules (by rw [rules, hentries]; rfl)
    have hall := parse_endedEntries h
    rw [hentries] at hall
    obtain ⟨e, es, rfl⟩ := List.exists_cons_of_ne_nil hlater
    cases hall with
    | cons hfirst => exact hfirst
  obtain ⟨a, ha⟩ := hended
  cases hlines : lines text with
  | nil =>
    rw [hlines] at hreads
    cases hreads
    exact absurd houtline (by simp [Scan.outline, Scan.entries, Scan.start, Scan.openRule?])
  | cons l ls =>
    rw [hlines] at hreads
    obtain ⟨first, added, hfirst, hcases⟩ := hreads.outline_first
    rw [houtline, List.cons.injEq] at hfirst
    rcases hcases with rfl | rfl
    · refine ⟨a, ls.flatten, ha, ?_⟩
      rw [← flatten_lines text, hlines, List.flatten_cons, ← Option.some.inj hfirst.1, ha]
      simp
    · exact absurd hfirst.1 (by simp)

/-- Formatting brings no byte order mark in: a formatted text starts with one only when its text
did. -/
theorem startsWith_byteOrderMark_format (style : Style) {text out : Text}
    (h : format style text = .ok out) (hbom : startsWith byteOrderMark out = true) :
    startsWith byteOrderMark text = true := by
  obtain ⟨d, hd, hout⟩ := exists_of_bind_eq_ok h
  obtain rfl : (d.layOut style).render = out := Except.ok.inj hout
  by_cases hrules : d.rules = []
  · rwa [Document.render_layOut_of_noRules style hd hrules] at hbom
  · have hover := Document.layOut_over style (S := fun _ => True)
      ⟨⟨trivial, trivial, trivial, trivial⟩, trivial, trivial, trivial, trivial⟩
      (fun _ _ => trivial) hd
    obtain ⟨v, later, later', hentries, hlaid⟩ :=
      (d.runPasses_relaid style style.passes).exists_verbatim (fun r hr => (hover _ hr).word) hbom
    obtain ⟨a, rest, ha, rfl⟩ := Document.exists_first_line hd hrules hentries
    have hrender : (d.layOut style).render = a ++ newline :: later'.flatMap Entry.render := by
      rw [Document.render, Document.layOut, hlaid, List.flatMap_cons, Entry.render, ha]
      simp
    rw [hrender] at hbom
    exact startsWith_byteOrderMark_append_cons (by decide) hbom _

/-! ## Lines -/

/-- A text with a newline is formatted to a text with a newline. -/
theorem newline_mem_format (style : Style) {text out : Text} (h : format style text = .ok out)
    (hnewline : newline ∈ text) : newline ∈ out := by
  obtain ⟨d, hd, hout⟩ := exists_of_bind_eq_ok h
  obtain rfl : (d.layOut style).render = out := Except.ok.inj hout
  by_cases hrules : d.rules = []
  · rwa [Document.render_layOut_of_noRules style hd hrules]
  · obtain ⟨r, hr⟩ := List.exists_mem_of_ne_nil _ hrules
    obtain ⟨r', hr', -⟩ := (d.runPasses_relaid style style.passes).exists_rule
      (Document.mem_rules.1 hr)
    obtain ⟨front, hfront⟩ := r'.ended_render
    refine List.mem_flatMap.2 ⟨_, hr', ?_⟩
    rw [Entry.render, hfront]
    simp

end GrammarLayout
