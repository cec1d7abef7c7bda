import GrammarLayout.Proofs.Idempotent.Layout
import GrammarLayout.Proofs.Pass.Opaque

/-!
# Colons of neighbouring rules

A run of neighbouring rules has one column for its colons, which is that of its
widest name, whatever is taken for the width of a name.  The runs of a document
do not see each other, and the lines that the empty-line pass inserts lie inside
runs, where they are passed over.

Since lining up colons twice is lining them up once, a result is its own
result.  Whatever is said of the runs of a result is therefore shown of a list
of entries that the pass leaves alone.

What is proved here:

* `width_of_alignColonsFrom` — the column of a run;
* `alignColonsFrom_append` — runs are lined up one by one;
* `Document.separate_mapRules`, `Document.separate_alignColons` — lining up and
  separating commute;
* `same_column_of_linedUp`, `WholeRun.exists_unpadded`, `Document.align_wholeRun` —
  one run of a result;
* `colons_line_up` — all of it for the whole pass.
-/

namespace GrammarLayout

open Ascii Text

/-! ## Runs -/

/-- Does a run of neighbouring rules go on over the entry? -/
def Entry.continuesRun (e : Entry) : Bool := e.isRule || e.isBlank

/-- The entries `run` between two others are a whole run of neighbours. -/
structure WholeRun (before run after : List Entry) : Prop where
  /-- There are rules and blank lines only. -/
  joined : ∀ e ∈ run, e.continuesRun = true
  /-- The run starts behind another line, or at the start of the document. -/
  start : ∀ e ∈ before.getLast?, e.continuesRun = false
  /-- The run stops in front of another line, or at the end of the document. -/
  stop : ∀ e ∈ after.head?, e.continuesRun = false

theorem exists_of_continuesRun_eq_false {e : Entry} (h : e.continuesRun = false) :
    ∃ v, e = .verbatim v ∧ v.isBlank = false := by
  cases e with
  | rule r => simp [Entry.continuesRun, Entry.isRule] at h
  | verbatim v => exact ⟨v, rfl, h⟩

theorem continuesRun_mapRule (f : Rule → Rule) (e : Entry) :
    (e.mapRule f).continuesRun = e.continuesRun := by
  cases e <;> rfl

theorem WholeRun.map {f : Rule → Rule} {before run after : List Entry}
    (h : WholeRun before run after) : WholeRun (before.map (Entry.mapRule f))
      (run.map (Entry.mapRule f)) (after.map (Entry.mapRule f)) := by
  refine ⟨?_, ?_, ?_⟩
  · simpa [continuesRun_mapRule] using h.joined
  · simpa [continuesRun_mapRule, List.getLast?_map] using h.start
  · simpa [continuesRun_mapRule, List.head?_map] using h.stop

variable {width : Text → Nat}

/-! ## The column of a run -/

/-- The widest name of the rest of a run is that of one of its rules, if it has any. -/
theorem exists_widestAfter (width : Text → Nat) (es : List Entry) :
    widestAfter width es = 0 ∨ ∃ r, .rule r ∈ es ∧ width r.name = widestAfter width es := by
  induction es with
  | nil => exact Or.inl rfl
  | cons e es ih =>
    have hrest : ∀ n, widestAfter width es = n →
        n = 0 ∨ ∃ r, .rule r ∈ e :: es ∧ width r.name = n := by
      rintro n rfl
      exact ih.imp_right fun ⟨r, hr, hwidth⟩ => ⟨r, List.mem_cons_of_mem e hr, hwidth⟩
    cases e with
    | verbatim v =>
      rw [widestAfter]
      split
      · exact hrest _ rfl
      · exact Or.inl rfl
    | rule r =>
      rw [widestAfter]
      rcases Nat.le_total (widestAfter width es) (width r.name) with h | h
      · rw [Nat.max_eq_left h]
        exact Or.inr ⟨r, List.mem_cons_self, rfl⟩
      · rw [Nat.max_eq_right h]
        exact hrest _ rfl

/-- The colons of all rules that a run reaches stand in one column. -/
theorem width_of_alignColonsFrom {widest : Nat} {es between after : List Entry} {r : Rule}
    (h : alignColonsFrom width widest es = between ++ .rule r :: after)
    (hbetween : ∀ e ∈ between, e.continuesRun = true) :
    width r.name + r.namePadding = max widest (widestAfter width es) := by
  induction es generalizing widest between with
  | nil => simp [alignColonsFrom] at h
  | cons e es ih =>
    cases e with
    | rule first =>
      rw [alignColonsFrom] at h
      rw [widestAfter, ← max_assoc]
      cases between with
      | nil =>
        obtain ⟨rfl, -⟩ : _ ∧ _ := by simpa using h
        simp only
        omega
      | cons b between =>
        exact ih (List.cons.inj h).2 fun e he => hbetween e (List.mem_cons_of_mem b he)
    | verbatim v =>
      rw [alignColonsFrom] at h
      cases between with
      | nil => simp at h
      | cons b between =>
        obtain ⟨rfl, hrest⟩ := List.cons.inj h
        have hblank : v.isBlank = true := hbetween _ List.mem_cons_self
        rw [if_pos hblank] at hrest
        rw [widestAfter, if_pos hblank]
        exact ih hrest fun e he => hbetween e (List.mem_cons_of_mem _ he)

/-! ## Runs one by one -/

theorem length_alignColonsFrom (widest : Nat) (es : List Entry) :
    (alignColonsFrom width widest es).length = es.length := by
  induction es generalizing widest with
  | nil => rfl
  | cons e es ih => cases e <;> simp [alignColonsFrom, ih]

/-- The entries behind others are lined up with what these have of their run. -/
theorem exists_alignColonsFrom_append (width : Text → Nat) (widest : Nat) (as bs : List Entry) :
    ∃ cs widest', cs.length = as.length ∧
      alignColonsFrom width widest (as ++ bs) = cs ++ alignColonsFrom width widest' bs := by
  induction as generalizing widest with
  | nil => exact ⟨[], widest, rfl, rfl⟩
  | cons a as ih =>
    have hcons : ∀ e widest₁, alignColonsFrom width widest (a :: (as ++ bs))
        = e :: alignColonsFrom width widest₁ (as ++ bs) →
        ∃ cs widest', cs.length = (a :: as).length ∧
          alignColonsFrom width widest (a :: as ++ bs) = cs ++ alignColonsFrom width widest' bs := by
      intro e widest₁ he
      obtain ⟨cs, widest', hlen, hrest⟩ := ih widest₁
      refine ⟨e :: cs, widest', by simp [hlen], ?_⟩
      rw [List.cons_append, he, hrest, List.cons_append]
    cases a with
    | rule r => exact hcons _ _ rfl
    | verbatim v => exact hcons _ _ rfl

/-- What stands behind the end of a run plays no part in it. -/
theorem widestAfter_append {as bs : List Entry} (h : ∀ e ∈ bs.head?, e.continuesRun = false) :
    widestAfter width (as ++ bs) = widestAfter width as := by
  induction as with
  | nil =>
    cases bs with
    | nil => rfl
    | cons b bs =>
      obtain ⟨v, rfl, hblank⟩ := exists_of_continuesRun_eq_false (h b rfl)
      simp [widestAfter, hblank]
  | cons a as ih => cases a <;> simp [widestAfter, ih]

theorem alignColonsFrom_append_of_stop (widest : Nat) {as bs : List Entry}
    (h : ∀ e ∈ bs.head?, e.continuesRun = false) :
    alignColonsFrom width widest (as ++ bs)
      = alignColonsFrom width widest as ++ alignColonsFrom width 0 bs := by
  induction as generalizing widest with
  | nil =>
    cases bs with
    | nil => rfl
    | cons b bs =>
      obtain ⟨v, rfl, hblank⟩ := exists_of_continuesRun_eq_false (h b rfl)
      simp [alignColonsFrom, hblank]
  | cons a as ih => cases a <;> simp [alignColonsFrom, widestAfter_append h, ih]

theorem alignColonsFrom_append_of_start (widest : Nat) {as : List Entry} {a : Entry}
    (h : a.continuesRun = false) (bs : List Entry) :
    alignColonsFrom width widest (as ++ [a] ++ bs)
      = alignColonsFrom width widest (as ++ [a]) ++ alignColonsFrom width 0 bs := by
  have hhead : ∀ cs : List Entry, ∀ e ∈ (a :: cs).head?, e.continuesRun = false := by
    intro cs e he
    rwa [← Option.some.inj he]
  -- The entry that ends the run is a line, and none of the run is left behind it.
  have ha : alignColonsFrom width 0 (a :: bs)
      = alignColonsFrom width 0 [a] ++ alignColonsFrom width 0 bs := by
    obtain ⟨v, rfl, -⟩ := exists_of_continuesRun_eq_false h
    simp [alignColonsFrom]
  rw [List.append_assoc, List.singleton_append, alignColonsFrom_append_of_stop widest (hhead bs), ha,
    alignColonsFrom_append_of_stop widest (hhead []), List.append_assoc]

/-- Entries with no run in common are lined up apart. -/
theorem alignColonsFrom_append {as bs : List Entry}
    (h : (∀ e ∈ as.getLast?, e.continuesRun = false) ∨ ∀ e ∈ bs.head?, e.continuesRun = false) :
    alignColonsFrom width 0 (as ++ bs) = alignColonsFrom width 0 as ++ alignColonsFrom width 0 bs := by
  rcases h with hlast | hhead
  · rcases List.eq_nil_or_concat as with rfl | ⟨front, a, rfl⟩
    · rfl
    · rw [List.concat_eq_append] at hlast ⊢
      exact alignColonsFrom_append_of_start 0 (hlast a (by simp)) bs
  · exact alignColonsFrom_append_of_stop 0 hhead

theorem WholeRun.alignColonsFrom_eq {before run after : List Entry}
    (h : WholeRun before run after) : alignColonsFrom width 0 (before ++ run ++ after)
      = alignColonsFrom width 0 before ++ alignColonsFrom width 0 run
        ++ alignColonsFrom width 0 after := by
  rw [alignColonsFrom_append (Or.inr h.stop), alignColonsFrom_append (Or.inl h.start)]

/-! ## Colons that are lined up -/

section LinedUp

variable {es before run after : List Entry}
  (h : alignColonsFrom width 0 es = es)
include h

/-- Two rules with nothing between them that ends their run have their colons in one column. -/
theorem same_column_of_linedUp {between : List Entry} {r r' : Rule}
    (hes : es = before ++ (.rule r :: between ++ .rule r' :: after))
    (hbetween : ∀ e ∈ between, e.continuesRun = true) :
    width r.name + r.namePadding = width r'.name + r'.namePadding := by
  obtain ⟨cs, widest, hlen, hrest⟩ := exists_alignColonsFrom_append width 0 before
    (.rule r :: between ++ .rule r' :: after)
  rw [hes, hrest] at h
  have hleft := List.append_inj_right h hlen
  have hfirst := width_of_alignColonsFrom (show _ = [] ++ _ from hleft) (List.forall_mem_nil _)
  have hsecond := width_of_alignColonsFrom hleft (List.forall_mem_cons.2 ⟨rfl, hbetween⟩)
  rw [hfirst, hsecond]

/-- The widest name of a whole run is not padded. -/
theorem WholeRun.exists_unpadded (hrun : WholeRun before run after)
    (hes : es = before ++ run ++ after) (hrule : ∃ r, .rule r ∈ run) :
    ∃ r, .rule r ∈ run ∧ r.namePadding = 0 := by
  rw [hes, hrun.alignColonsFrom_eq] at h
  have hleft := List.append_inj_left' h (length_alignColonsFrom 0 after)
  have halone : alignColonsFrom width 0 run = run :=
    List.append_inj_right hleft (length_alignColonsFrom 0 before)
  have hcolumn : ∀ r, .rule r ∈ run → width r.name + r.namePadding = widestAfter width run := by
    intro r hr
    obtain ⟨between, rest, hsplit⟩ := List.append_of_mem hr
    have hbetween : ∀ e ∈ between, e.continuesRun = true := fun e he =>
      hrun.joined e (by rw [hsplit]; exact List.mem_append_left _ he)
    rw [width_of_alignColonsFrom (halone.trans hsplit) hbetween, Nat.zero_max]
  obtain ⟨r, hr⟩ := hrule
  rcases exists_widestAfter width run with hzero | ⟨widest, hmem, hwidth⟩
  · have hr0 := hcolumn r hr
    exact ⟨r, hr, by omega⟩
  · have hwidest := hcolumn widest hmem
    exact ⟨widest, hmem, by omega⟩

end LinedUp

/-! ## Separating and lining up -/

/-- Whether a blank line is wanted depends on lines and on where rules stand. -/
theorem EmptyLineStyle.wantsBlank_congr (style : EmptyLineStyle) (seenRule : Bool)
    {p p' : Option Entry} (hp : p.map Entry.line? = p'.map Entry.line?) {e e' : Entry}
    (he : e.line? = e'.line?) : style.wantsBlank p seenRule e = style.wantsBlank p' seenRule e' := by
  have hsame : ∀ {a b : Entry}, a.line? = b.line? → a.isRule = b.isRule ∧ a.isBlank = b.isBlank := by
    intro a b hab
    cases a <;> cases b <;>
      simp_all [Entry.line?, Entry.isRule, Entry.isBlank, Verbatim.isBlank]
  have hprevious : p.any Entry.isRule = p'.any Entry.isRule ∧
      p.all Entry.isBlank = p'.all Entry.isBlank := by
    cases p with
    | none =>
      cases p' with
      | none => exact ⟨rfl, rfl⟩
      | some b => simp at hp
    | some a =>
      cases p' with
      | none => simp at hp
      | some b => exact hsame (Option.some.inj hp)
  cases e with
  | rule r =>
    cases e' with
    | rule r' => simp only [wantsBlank, hprevious.1, hprevious.2]
    | verbatim v => simp [Entry.line?] at he
  | verbatim v =>
    cases e' with
    | rule r' => simp [Entry.line?] at he
    | verbatim v' =>
      have htext : v.text = v'.text := Option.some.inj he
      simp only [wantsBlank, hprevious.2, htext]

/-- Separating rules commutes with changing them. -/
theorem EmptyLineStyle.separate_map (style : EmptyLineStyle) (f : Rule → Rule) (seenRule : Bool)
    {p p' : Option Entry} (hp : p.map Entry.line? = p'.map Entry.line?) (es : List Entry) :
    style.separate p seenRule (es.map (Entry.mapRule f))
      = (style.separate p' seenRule es).map (Entry.mapRule f) := by
  induction es generalizing p p' seenRule with
  | nil => rfl
  | cons e es ih =>
    have hline : (e.mapRule f).line? = e.line? := by cases e <;> rfl
    have hrule : (e.mapRule f).isRule = e.isRule := by cases e <;> rfl
    rw [List.map_cons, separate, separate, style.wantsBlank_congr seenRule hp hline, hrule,
      ih (seenRule || e.isRule) (show (some (e.mapRule f)).map _ = (some e).map _ by simp [hline])]
    split <;> rfl

theorem widestAfter_separate (style : EmptyLineStyle) (p : Option Entry) (seenRule : Bool)
    (es : List Entry) : widestAfter width (style.separate p seenRule es) = widestAfter width es := by
  induction es generalizing p seenRule with
  | nil => rfl
  | cons e es ih =>
    have hblank : Verbatim.blank.isBlank = true := by decide
    have hcons : widestAfter width (e :: style.separate (some e) (seenRule || e.isRule) es)
        = widestAfter width (e :: es) := by
      cases e <;> simp [widestAfter, ih]
    rw [EmptyLineStyle.separate]
    split
    · rw [widestAfter, if_pos hblank, hcons]
    · exact hcons

/-- Separating rules commutes with lining up their colons. -/
theorem EmptyLineStyle.separate_alignColonsFrom (style : EmptyLineStyle) (seenRule : Bool)
    {p p' : Option Entry} (hp : p.map Entry.line? = p'.map Entry.line?) (widest : Nat)
    (es : List Entry) : style.separate p seenRule (alignColonsFrom width widest es)
      = alignColonsFrom width widest (style.separate p' seenRule es) := by
  induction es generalizing p p' seenRule widest with
  | nil => rfl
  | cons e es ih =>
    have hblank : Verbatim.blank.isBlank = true := by decide
    cases e with
    | rule r =>
      set padded : Rule := { r with
        namePadding := max (max widest (width r.name)) (widestAfter width es)
          - width r.name } with hpadded
      have hline : (Entry.rule padded).line? = (Entry.rule r).line? := rfl
      have hlines : (some (Entry.rule padded)).map Entry.line?
          = (some (Entry.rule r)).map Entry.line? := rfl
      have hrest := ih (seenRule || true) hlines (max widest (width r.name))
      have hcolons : alignColonsFrom width widest (.rule r :: es)
          = .rule padded :: alignColonsFrom width (max widest (width r.name)) es := rfl
      rw [hcolons, separate, separate, style.wantsBlank_congr seenRule hp hline]
      split
      · simp only [alignColonsFrom, hblank, if_true, widestAfter_separate, ← hpadded, Entry.isRule,
          hrest]
      · simp only [alignColonsFrom, widestAfter_separate, ← hpadded, Entry.isRule, hrest]
    | verbatim v =>
      have hline := Eq.refl ((some (Entry.verbatim v)).map Entry.line?)
      have hwants := style.wantsBlank_congr seenRule hp (Eq.refl (Entry.verbatim v).line?)
      rw [alignColonsFrom, separate, separate, hwants]
      split
      · simp only [alignColonsFrom, hblank, if_true, ih _ hline]
      · simp only [alignColonsFrom, ih _ hline]

namespace Document

theorem separate_mapRules (style : Style) (f : Rule → Rule) (d : Document) :
    (d.mapRules f).separate style = (d.separate style).mapRules f :=
  congrArg mk (style.emptyLine.separate_map f false rfl d.entries)

theorem separate_alignColons (width : Text → Nat) (style : Style) (d : Document) :
    (d.alignColons width).separate style = (d.separate style).alignColons width :=
  congrArg mk (style.emptyLine.separate_alignColonsFrom false rfl 0 d.entries)

/-- The empty-line pass commutes with the alignment pass. -/
theorem align_separate (width : Text → Nat) (style : Style) (d : Document) :
    (d.separate style).align width style = (d.align width style).separate style := by
  unfold align
  split <;> split <;> simp only [separate_mapRules, separate_alignColons]

/-! ## The pass -/

/-- The alignment pass is a change of each rule by itself, and then of the colons. -/
theorem exists_align_eq (width : Text → Nat) {style : Style} (h : style.alignment.alignRules = true) :
    ∃ f : Rule → Rule, ∀ d : Document, d.align width style = (d.mapRules f).alignColons width := by
  cases hactions : style.alignment.alignActions with
  | true =>
    refine ⟨Rule.alignActions style.indent.unit ∘ Rule.alignPipes, fun d => ?_⟩
    rw [align, if_pos h, if_pos hactions, mapRules_comp, ← alignColons_mapRules]
    · exact fun r => r.name_alignPipes
    · intro r n
      rw [Function.comp_apply, Rule.alignPipes_namePadding]
      rfl
  | false =>
    refine ⟨Rule.alignPipes, fun d => ?_⟩
    rw [align, if_pos h, hactions, if_neg Bool.false_ne_true, ← alignColons_mapRules]
    · exact Rule.name_alignPipes
    · exact Rule.alignPipes_namePadding

/-- Lining up its colons once more leaves the result of the pass alone. -/
theorem alignColonsFrom_align (width : Text → Nat) {style : Style}
    (h : style.alignment.alignRules = true) (d : Document) :
    alignColonsFrom width 0 (d.align width style).entries = (d.align width style).entries := by
  obtain ⟨f, hf⟩ := exists_align_eq width h
  rw [hf]
  exact alignColonsFrom_alignColonsFrom width 0 _

/-- A whole run of a document is aligned as if it stood alone. -/
theorem align_wholeRun {style : Style} (h : style.alignment.alignRules = true) {d : Document}
    {before run after : List Entry} (hrun : WholeRun before run after)
    (hentries : d.entries = before ++ run ++ after) :
    (d.align width style).entries = (align width style ⟨before⟩).entries
      ++ (align width style ⟨run⟩).entries ++ (align width style ⟨after⟩).entries := by
  obtain ⟨f, hf⟩ := exists_align_eq width h
  have hlined : ∀ es : List Entry, (align width style ⟨es⟩).entries
      = alignColonsFrom width 0 (es.map (Entry.mapRule f)) := fun es => by rw [hf]; rfl
  have hd : (d.align width style).entries
      = alignColonsFrom width 0 (d.entries.map (Entry.mapRule f)) := hlined d.entries
  rw [hd, hlined, hlined, hlined, hentries, List.map_append, List.map_append,
    hrun.map.alignColonsFrom_eq]

end Document

/-- Whatever the width of a name is: with rules lined up, two rules that have only rules and blank
lines between them have their colons in one column; in each whole run of neighbours some name is not
padded; and each run is lined up as if it stood alone.  The pass commutes with the empty-line
pass. -/
theorem colons_line_up (width : Text → Nat) {style : Style} (h : style.alignment.alignRules = true)
    (d : Document) :
    (∀ before r between r' after,
      (d.align width style).entries = before ++ (.rule r :: between ++ .rule r' :: after) →
      (∀ e ∈ between, e.continuesRun = true) →
      width r.name + r.namePadding = width r'.name + r'.namePadding) ∧
    (∀ before run after, (d.align width style).entries = before ++ run ++ after →
      WholeRun before run after → (∃ r, .rule r ∈ run) →
      ∃ r, .rule r ∈ run ∧ r.namePadding = 0) ∧
    (∀ before run after, d.entries = before ++ run ++ after → WholeRun before run after →
      (d.align width style).entries = (Document.align width style ⟨before⟩).entries
        ++ (Document.align width style ⟨run⟩).entries
        ++ (Document.align width style ⟨after⟩).entries) ∧
    (d.separate style).align width style = (d.align width style).separate style := by
  have hlined := d.alignColonsFrom_align width h
  refine ⟨?_, ?_, ?_, d.align_separate width style⟩
  · intro before r between r' after hentries hbetween
    exact same_column_of_linedUp hlined hentries hbetween
  · intro before run after hentries hrun hrule
    exact hrun.exists_unpadded hlined hentries hrule
  · intro before run after hentries hrun
    exact Document.align_wholeRun h hrun hentries

/-- Two rules with a blank line between them, and a third behind a comment. -/
theorem colons_line_up_two_runs :
    ∃ d, Document.parse (bytes "a: x\n\nlonger: y\n# c\nbb: z\n") = .ok d ∧
      ({} : Style).alignment.alignRules = true ∧
      (d.align Text.width {}).rules.map Rule.namePadding = [5, 0, 0] ∧
      (d.align Text.width {}).entries = (Document.align Text.width {} ⟨[]⟩).entries
        ++ (Document.align Text.width {} ⟨d.entries.take 3⟩).entries
        ++ (Document.align Text.width {} ⟨d.entries.drop 3⟩).entries ∧
      (d.separate {}).align Text.width {} = (d.align Text.width {}).separate {} := by
  have h : Document.parse (bytes "a: x\n\nlonger: y\n# c\nbb: z\n") = .ok
      ⟨[.rule { name := bytes "a", line := 1, productions := [bytes "x"] },
        .verbatim ⟨bytes "\n", false⟩,
        .rule { name := bytes "longer", line := 3, productions := [bytes "y"] },
        .verbatim ⟨bytes "# c\n", false⟩,
        .rule { name := bytes "bb", line := 5, productions := [bytes "z"] }]⟩ := by decide +kernel
  obtain ⟨-, -, halone, hcommute⟩ := @colons_line_up Text.width {} rfl _
  refine ⟨_, h, rfl, by decide +kernel, halone _ _ _ rfl ⟨?_, ?_, ?_⟩, hcommute⟩
  all_goals decide +kernel

end GrammarLayout
