import GrammarLayout.Pass.EmptyLine
import GrammarLayout.Proofs.Text.Ink

/-!
# Which empty lines are inserted

Before each entry the empty-line pass looks at the entry before it and at
whether a rule came earlier, and inserts a blank line where one is missing.
What it has written is settled: looked at once more, no entry wants a blank
line.  The decision is the same one both times, so what the pass guarantees of
its result and the places where it inserts anything are two readings of it.

What is proved here:

* `EmptyLineStyle.settled_separate` — in the result nothing is missing;
* `EmptyLineStyle.inserted_of_separateMarked` — a blank line is inserted only
  where it was missing;
* `EmptyLineStyle.separate_ne_rules`, `EmptyLineStyle.blank_before_first_rule`,
  `EmptyLineStyle.blank_before_footer` — what each setting asks for;
* `separate_inserts_missing` — all of it for the whole pass.
-/

namespace GrammarLayout

open Text

theorem isBlank_of_isFooterMarker {v : Verbatim} (h : isFooterMarker v.text = true) :
    v.isBlank = false := by
  rw [Verbatim.isBlank, ← Bool.not_eq_true, ← trim_eq_nil_iff]
  intro hnil
  rw [isFooterMarker, hnil] at h
  exact absurd h (by decide)

namespace EmptyLineStyle

variable {style : EmptyLineStyle} {previous : Option Entry} {seenRule : Bool}

/-! ## The decision -/

/-- Why a blank line is missing between two entries.  The flag tells whether a rule stands before the
second one. -/
inductive Missing (style : EmptyLineStyle) : Bool → Entry → Entry → Prop where
  /-- The first rule follows a line of the header. -/
  | afterHeader (h : style.afterHeader = true) {previous : Entry}
      (hprevious : previous.isBlank = false) (r : Rule) : Missing style false previous (.rule r)
  /-- A rule follows a rule. -/
  | betweenRules (h : style.betweenRules = true) (r r' : Rule) :
      Missing style true (.rule r) (.rule r')
  /-- A section after the grammar follows a rule or a line. -/
  | beforeFooter (h : style.beforeFooter = true) {previous : Entry}
      (hprevious : previous.isBlank = false) {v : Verbatim} (hv : isFooterMarker v.text = true) :
      Missing style true previous (.verbatim v)

theorem Missing.notBlank {e e' : Entry} (h : style.Missing seenRule e e') :
    e.isBlank = false ∧ e'.isBlank = false := by
  cases h with
  | afterHeader _ hprevious r => exact ⟨hprevious, rfl⟩
  | betweenRules _ r r' => exact ⟨rfl, rfl⟩
  | beforeFooter _ hprevious hv => exact ⟨hprevious, isBlank_of_isFooterMarker hv⟩

/-- A blank line is wanted exactly where one is missing. -/
theorem wantsBlank_iff {e e' : Entry} :
    style.wantsBlank (some e) seenRule e' = true ↔ style.Missing seenRule e e' := by
  constructor
  · intro h
    cases e' with
    | rule r =>
      cases seenRule with
      | true =>
        cases e with
        | rule r' => exact .betweenRules (by simpa [wantsBlank, Entry.isRule] using h) r' r
        | verbatim v => simp [wantsBlank, Entry.isRule] at h
      | false =>
        have hboth : style.afterHeader = true ∧ e.isBlank = false := by simpa [wantsBlank] using h
        exact .afterHeader hboth.1 hboth.2 r
    | verbatim v =>
      have hall : ((isFooterMarker v.text = true ∧ seenRule = true) ∧ style.beforeFooter = true) ∧
          e.isBlank = false := by
        simpa [wantsBlank] using h
      obtain ⟨⟨⟨hv, rfl⟩, hstyle⟩, hblank⟩ := hall
      exact .beforeFooter hstyle hblank hv
  · rintro (⟨h, hprevious, r⟩ | ⟨h, r, r'⟩ | ⟨h, hprevious, hv⟩)
    · simp [wantsBlank, h, hprevious]
    · simp [wantsBlank, h, Entry.isRule]
    · simp [wantsBlank, h, hprevious, hv]

/-- At the start of a document no blank line is missing. -/
theorem wantsBlank_none (e : Entry) : style.wantsBlank none seenRule e = false := by
  cases e <;> simp [wantsBlank]

theorem wantsBlank_blank : style.wantsBlank previous seenRule (.verbatim .blank) = false := by
  have hmarker : isFooterMarker Verbatim.blank.text = false := by decide
  simp [wantsBlank, hmarker]

theorem wantsBlank_behind_blank (e : Entry) :
    style.wantsBlank (some (.verbatim .blank)) seenRule e = false := by
  rw [← Bool.not_eq_true, wantsBlank_iff]
  intro h
  exact absurd h.notBlank.1 (by decide)

/-! ## Nothing is missing in the result -/

/-- No entry wants a blank line before it. -/
def Settled (style : EmptyLineStyle) (previous : Option Entry) (seenRule : Bool) :
    List Entry → Prop
  | [] => True
  | e :: es =>
      style.wantsBlank previous seenRule e = false ∧
        Settled style (some e) (seenRule || e.isRule) es

theorem settled_separate (es : List Entry) :
    style.Settled previous seenRule (style.separate previous seenRule es) := by
  induction es generalizing previous seenRule with
  | nil => trivial
  | cons e es ih =>
    rw [separate]
    split
    · refine ⟨wantsBlank_blank, wantsBlank_behind_blank e, ?_⟩
      rw [Entry.isRule, Bool.or_false]
      exact ih
    · rename_i hwants
      exact ⟨by simpa using hwants, ih⟩

theorem Settled.separate_eq {es : List Entry} (h : style.Settled previous seenRule es) :
    style.separate previous seenRule es = es := by
  induction es generalizing previous seenRule with
  | nil => rfl
  | cons e es ih => rw [separate, h.1, ih h.2, if_neg Bool.false_ne_true]

/-- What is settled, is so at every entry. -/
theorem Settled.wantsBlank_eq {before after : List Entry} {e : Entry}
    (h : style.Settled previous seenRule (before ++ e :: after)) :
    style.wantsBlank (before.getLast?.or previous) (seenRule || before.any Entry.isRule) e
      = false := by
  induction before generalizing previous seenRule with
  | nil => simpa using h.1
  | cons b before ih =>
    have hrest := ih h.2
    rw [List.getLast?_cons, List.any_cons, ← Bool.or_assoc]
    rw [← hrest]
    cases before.getLast? <;> rfl

/-! ## What is inserted was missing -/

/-- The entries with the missing blank lines inserted, each with whether it was inserted. -/
def separateMarked (style : EmptyLineStyle) (previous : Option Entry) (seenRule : Bool) :
    List Entry → List (Entry × Bool)
  | [] => []
  | e :: es =>
      let rest := (e, false) :: separateMarked style (some e) (seenRule || e.isRule) es
      if style.wantsBlank previous seenRule e then (.verbatim .blank, true) :: rest else rest

theorem map_fst_separateMarked (es : List Entry) :
    (style.separateMarked previous seenRule es).map Prod.fst
      = style.separate previous seenRule es := by
  induction es generalizing previous seenRule with
  | nil => rfl
  | cons e es ih =>
    rw [separateMarked, separate, ← ih]
    split <;> rfl

theorem filter_separateMarked (es : List Entry) :
    ((style.separateMarked previous seenRule es).filter fun e => !e.2).map Prod.fst = es := by
  induction es generalizing previous seenRule with
  | nil => rfl
  | cons e es ih =>
    rw [separateMarked]
    split <;> simp [ih]

/-- In front of an inserted entry stands every entry of the input before it. -/
theorem exists_of_cons_eq_append {e e' : Entry} {before rest after : List (Entry × Bool)}
    (h : (e, false) :: rest = before ++ (e', true) :: after) :
    ∃ before', before = (e, false) :: before' ∧ rest = before' ++ (e', true) :: after := by
  cases before with
  | nil => simp at h
  | cons b before' =>
    rw [List.cons_append, List.cons.injEq] at h
    exact ⟨before', by rw [h.1], h.2⟩

/-- What is inserted is a blank line, and the entry behind it wants one. -/
theorem inserted_of_separateMarked {es : List Entry} {e : Entry} {before after : List (Entry × Bool)}
    (h : style.separateMarked previous seenRule es = before ++ (e, true) :: after) :
    e = .verbatim .blank ∧ ∃ next, after.head? = some (next, false) ∧
      style.wantsBlank ((before.getLast?.map Prod.fst).or previous)
        (seenRule || before.any fun e => e.1.isRule) next = true := by
  induction es generalizing previous seenRule before with
  | nil => simp [separateMarked] at h
  | cons first es ih =>
    have hrest : ∀ before', style.separateMarked (some first) (seenRule || first.isRule) es
        = before' ++ (e, true) :: after →
        e = .verbatim .blank ∧ ∃ next, after.head? = some (next, false) ∧
          style.wantsBlank ((((first, false) :: before').getLast?.map Prod.fst).or previous)
            (seenRule || ((first, false) :: before').any fun e => e.1.isRule) next = true := by
      intro before' hbefore
      obtain ⟨hblank, next, hnext, hwants⟩ := ih hbefore
      refine ⟨hblank, next, hnext, ?_⟩
      rw [List.getLast?_cons, List.any_cons, ← Bool.or_assoc, ← hwants]
      cases before'.getLast? <;> rfl
    rw [separateMarked] at h
    split at h
    · rename_i hwants
      cases before with
      | nil =>
        obtain ⟨hfirst, rfl⟩ : _ ∧ _ := by simpa using h
        exact ⟨hfirst.symm, first, rfl, by simpa using hwants⟩
      | cons b before =>
        rw [List.cons_append, List.cons.injEq] at h
        obtain ⟨before', rfl, hbefore⟩ := exists_of_cons_eq_append h.2
        -- The blank line in front of `first` is neither the last entry nor a rule.
        obtain ⟨hblank, next, hnext, hwants⟩ := hrest before' hbefore
        refine ⟨hblank, next, hnext, ?_⟩
        rw [← h.1, List.getLast?_cons_cons, List.any_cons]
        exact hwants
    · obtain ⟨before', rfl, hbefore⟩ := exists_of_cons_eq_append h
      exact hrest before' hbefore

/-! ## Whole documents -/

/-- An inserted entry is a blank line between two entries between which one is missing. -/
theorem missing_of_separateMarked {es : List Entry} {e : Entry} {before after : List (Entry × Bool)}
    (h : style.separateMarked none false es = before ++ (e, true) :: after) :
    e = .verbatim .blank ∧ ∃ previous next,
      before.getLast?.map Prod.fst = some previous ∧ after.head? = some (next, false) ∧
      previous.isBlank = false ∧ next.isBlank = false ∧
      style.Missing (before.any fun e => e.1.isRule) previous next := by
  obtain ⟨hblank, next, hnext, hwants⟩ := inserted_of_separateMarked h
  rw [Option.or_none, Bool.false_or] at hwants
  cases hlast : before.getLast?.map Prod.fst with
  | none =>
    rw [hlast, wantsBlank_none] at hwants
    exact absurd hwants Bool.false_ne_true
  | some previous =>
    rw [hlast, wantsBlank_iff] at hwants
    exact ⟨hblank, previous, next, rfl, hnext, hwants.notBlank.1, hwants.notBlank.2, hwants⟩

section Result

variable {es before after : List Entry}

/-- No entry of the result wants a blank line. -/
theorem wantsBlank_of_separate {e : Entry}
    (h : style.separate none false es = before ++ e :: after) :
    style.wantsBlank before.getLast? (before.any Entry.isRule) e = false := by
  have hsettled : style.Settled none false (style.separate none false es) := settled_separate es
  rw [h] at hsettled
  simpa using hsettled.wantsBlank_eq

theorem separate_ne_rules (hstyle : style.betweenRules = true) (r r' : Rule) :
    style.separate none false es ≠ before ++ .rule r :: .rule r' :: after := by
  intro h
  have hsplit : style.separate none false es = (before ++ [.rule r]) ++ .rule r' :: after := by
    simp [h]
  have hnot := wantsBlank_of_separate hsplit
  simp [wantsBlank, hstyle, Entry.isRule] at hnot

theorem blank_before_first_rule (hstyle : style.afterHeader = true) {r : Rule}
    (h : style.separate none false es = before ++ .rule r :: after)
    (hfirst : before.any Entry.isRule = false) : before.getLast?.all Entry.isBlank = true := by
  have hnot := wantsBlank_of_separate h
  simpa [wantsBlank, hstyle, hfirst] using hnot

theorem blank_before_footer (hstyle : style.beforeFooter = true) {v : Verbatim}
    (h : style.separate none false es = before ++ .verbatim v :: after)
    (hv : isFooterMarker v.text = true) (hearlier : before.any Entry.isRule = true) :
    before.getLast?.any Entry.isBlank = true := by
  have hnot := wantsBlank_of_separate h
  have hall : before.getLast?.all Entry.isBlank = true := by
    simpa [wantsBlank, hstyle, hv, hearlier] using hnot
  cases hlast : before.getLast? with
  | none =>
    rw [List.getLast?_eq_none_iff.1 hlast] at hearlier
    exact absurd hearlier (by simp)
  | some e => simpa [hlast] using hall

end Result

end EmptyLineStyle

/-! ## The pass -/

/-- The empty-line pass inserts what is missing and nothing else.  Without the inserted entries its
result is the document; each inserted entry is a blank line between two entries that are not blank,
where the style asks for one.  In the result no rule follows a rule, the first rule is the first
entry or behind a blank one, and each section after a rule is behind a blank entry, as far as the
style asks for it.  So running the pass again changes nothing. -/
theorem separate_inserts_missing (style : Style) (d : Document) :
    (∃ marked : List (Entry × Bool),
      marked.map Prod.fst = (d.separate style).entries ∧
      (marked.filter fun e => !e.2).map Prod.fst = d.entries ∧
      ∀ before e after, marked = before ++ (e, true) :: after →
        e = .verbatim .blank ∧ ∃ previous next,
          before.getLast?.map Prod.fst = some previous ∧ after.head? = some (next, false) ∧
          previous.isBlank = false ∧ next.isBlank = false ∧
          style.emptyLine.Missing (before.any fun e => e.1.isRule) previous next) ∧
    (style.emptyLine.betweenRules = true → ∀ before r r' after,
      (d.separate style).entries ≠ before ++ .rule r :: .rule r' :: after) ∧
    (style.emptyLine.afterHeader = true → ∀ before r after,
      (d.separate style).entries = before ++ .rule r :: after →
      before.any Entry.isRule = false → before.getLast?.all Entry.isBlank = true) ∧
    (style.emptyLine.beforeFooter = true → ∀ before v after,
      (d.separate style).entries = before ++ .verbatim v :: after →
      isFooterMarker v.text = true → before.any Entry.isRule = true →
      before.getLast?.any Entry.isBlank = true) ∧
    (d.separate style).separate style = d.separate style := by
  refine ⟨⟨style.emptyLine.separateMarked none false d.entries,
    EmptyLineStyle.map_fst_separateMarked d.entries, EmptyLineStyle.filter_separateMarked d.entries,
    fun _ _ _ => EmptyLineStyle.missing_of_separateMarked⟩, ?_, ?_, ?_,
    congrArg Document.mk (EmptyLineStyle.settled_separate d.entries).separate_eq⟩
  · intro hstyle before r r' after
    exact EmptyLineStyle.separate_ne_rules hstyle r r'
  · intro hstyle before r after h hfirst
    exact EmptyLineStyle.blank_before_first_rule hstyle h hfirst
  · intro hstyle before v after h hv hearlier
    exact EmptyLineStyle.blank_before_footer hstyle h hv hearlier

end GrammarLayout
