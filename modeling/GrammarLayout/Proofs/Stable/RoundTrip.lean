import GrammarLayout.Proofs.Stable.Laid

/-!
# Formatting is stable

Formatted text that is formatted again does not change, as long as every line of
it is read as what it was written for.  A text fails the check for no other
reasons than white space in its rules that the passes do not cut off, lines that
are taken for something else, and two blocks behind one production.

What is proved here:

* `Document.legible_layOut` — a document that is laid out can be read;
* `checkRoundTrip_stable` — a text whose rules are plainly spaced and cannot be
  mistaken passes the check.
-/

namespace GrammarLayout

open Ascii Text

/-! ## Carriage returns -/

/-- The piece of a byte of its own. -/
theorem Text.piece_mem_pieces {c : UInt8} (hc : c < 0x80) {s : Text} (h : c ∈ s) :
    ⟨some c.toNat, [c]⟩ ∈ pieces s := by
  obtain ⟨a, b, rfl⟩ := List.append_of_mem h
  rw [seam_ascii_cons hc, pieces_ascii_cons hc]
  exact List.mem_append_right _ List.mem_cons_self

theorem Text.PlainSpaces.carriageReturn_notMem {s : Text} (h : PlainSpaces s) : carriageReturn ∉ s := by
  intro hmem
  rcases h _ (piece_mem_pieces (by decide) hmem) (by decide) carriageReturn (List.mem_singleton.2 rfl)
    with h | h | h <;> exact absurd h (by decide)

theorem signs_ne_carriageReturn : Signs (· ≠ Ascii.carriageReturn) :=
  ⟨⟨by decide, by decide, by decide, by decide⟩, by decide, by decide, by decide, by decide⟩

/-- A rule that was read with plain white space holds no carriage return. -/
theorem Rule.ReadSource.over {r : Rule} (h : r.ReadSource) (hplain : r.PlainlySpaced) :
    r.Over (· ≠ carriageReturn) where
  word := h.name
  name := over_ne.2 fun hmem =>
    absurd (h.name _ (piece_mem_pieces (by decide) hmem)) (by decide)
  productions p hp := over_ne.2 (hplain.productions p hp).carriageReturn_notMem
  actions a ha := over_ne.2 (hplain.actions a ha).carriageReturn_notMem
  productionIndent := by
    rw [h.settings]
    exact over_ne.2 (show carriageReturn ∉ [space, space] by decide)
  terminatorIndent := by
    rw [h.settings]
    exact over_ne.2 (show carriageReturn ∉ [space, space] by decide)

/-! ## Entries after all passes -/

theorem Rule.Rewrite.name_eq {style : Style} {r r' : Rule} (h : r.Rewrite style r') : r'.name = r.name := by
  cases h with
  | pipesAligned => exact r.name_alignPipes
  | _ => rfl

/-- Rules keep their names and their order. -/
theorem Relaid.map_name {style : Style} {es es' : List Entry} (h : Relaid (Rule.Rewrites style) es es') :
    (es'.filterMap Entry.rule?).map Rule.name = (es.filterMap Entry.rule?).map Rule.name := by
  induction h with
  | nil => rfl
  | blank _ ih => exact ih
  | cons he _ ih =>
    cases he with
    | verbatim v => exact ih
    | @rule r r' hr =>
      have hname : r'.name = r.name := by
        induction hr with
        | refl => rfl
        | tail _ hlast ih => exact hlast.name_eq.trans ih
      exact List.cons_eq_cons.2 ⟨hname, ih⟩

/-- Every entry but perhaps the last ends with a newline when that was so before. -/
theorem EndedEntries.of_relaid {R : Rule → Rule → Prop} {es es' : List Entry}
    (h : List.Forall₂ (Entry.Relaid R) es es') (hended : EndedEntries es) : EndedEntries es' := by
  induction h with
  | nil => exact .nil
  | @cons e e' es es' he hs ih =>
    cases hs with
    | nil => exact .last _
    | cons he₂ hs =>
      refine .cons ?_ (ih hended.tail)
      cases he with
      | verbatim v =>
        cases hended with
        | cons hv _ => exact hv
      | rule => exact Rule.ended_render _

/-- Among lines nothing but blank lines is inserted. -/
theorem Relaid.exists_verbatims {R : Rule → Rule → Prop} {vs : List Verbatim} {es : List Entry}
    (h : Relaid R (vs.map Entry.verbatim) es) : ∃ ws : List Verbatim, es = ws.map Entry.verbatim := by
  have hlines : ∀ e ∈ es, ∃ v, e = .verbatim v := by
    refine h.forall_entries (P := fun e => ∃ v, e = .verbatim v) ?_ ⟨_, rfl⟩ ?_
    · rintro r r' - ⟨v, hv⟩
      exact absurd hv (by simp)
    · intro e he
      obtain ⟨v, -, rfl⟩ := List.mem_map.1 he
      exact ⟨v, rfl⟩
  clear h
  induction es with
  | nil => exact ⟨[], rfl⟩
  | cons e es ih =>
    obtain ⟨⟨v, rfl⟩, hrest⟩ := List.forall_mem_cons.1 hlines
    obtain ⟨ws, rfl⟩ := ih hrest
    exact ⟨v :: ws, rfl⟩

/-- The sections after the grammar stay behind it. -/
theorem Relaid.exists_divided {R : Rule → Rule → Prop} {front : List Entry} {back : List Verbatim}
    {es : List Entry} (h : Relaid R (front ++ back.map Entry.verbatim) es)
    (hfront : ∀ v, .verbatim v ∈ front → v.Legible)
    (hback : ∀ v ∈ back.head?, isFooterMarker v.text = true) :
    ∃ (front' : List Entry) (back' : List Verbatim), es = front' ++ back'.map Entry.verbatim ∧
      (∀ v, .verbatim v ∈ front' → v.Legible) ∧ ∀ v ∈ back'.head?, isFooterMarker v.text = true := by
  generalize hall : front ++ back.map Entry.verbatim = all at h
  induction h generalizing front with
  | nil => exact ⟨[], [], rfl, by simp, by simp⟩
  | blank _ ih =>
    obtain ⟨front', back', rfl, hfront', hback'⟩ := ih hfront hall
    refine ⟨.verbatim .blank :: front', back', rfl, fun v hv => ?_, hback'⟩
    rcases List.mem_cons.1 hv with hv | hv
    · obtain rfl := Entry.verbatim.inj hv
      exact Or.inl (by decide)
    · exact hfront' v hv
  | @cons e e' es es' he hs ih =>
    cases front with
    | nil =>
      -- The line that begins the sections; only lines follow.
      obtain ⟨v, vs, rfl⟩ := List.exists_cons_of_ne_nil (l := back) (by rintro rfl; simp at hall)
      obtain ⟨rfl, rfl⟩ := List.cons.inj hall
      obtain ⟨ws, rfl⟩ := hs.exists_verbatims
      cases he
      exact ⟨[], v :: ws, rfl, by simp, hback⟩
    | cons f front =>
      obtain ⟨rfl, hrest⟩ := List.cons.inj hall
      obtain ⟨front', back', rfl, hfront', hback'⟩ :=
        ih (fun v hv => hfront v (List.mem_cons_of_mem f hv)) hrest
      refine ⟨e' :: front', back', rfl, fun v hv => ?_, hback'⟩
      rcases List.mem_cons.1 hv with rfl | hv
      · cases he
        exact hfront v List.mem_cons_self
      · exact hfront' v hv

namespace Document

variable {text : Text} {d : Document} (style : Style)

/-- Every rule of a document that is laid out is a rule that is laid out, with its name padded. -/
theorem exists_of_rule_mem_layOut {r' : Rule} (h : .rule r' ∈ (d.layOut style).entries) :
    ∃ r n, .rule r ∈ d.entries ∧ r' = { r.layOut style with namePadding := n } ∧
      (style.alignsPipes = false → n = r.namePadding) := by
  have hlaid : ∀ r', .rule r' ∈ ((d.mapRules (Rule.layOut style)).separated style).entries →
      ∃ r, .rule r ∈ d.entries ∧ r' = r.layOut style := by
    intro r' hr'
    refine rule_mem_mapRules ?_
    unfold separated at hr'
    split_ifs at hr'
    exacts [EmptyLineStyle.mem_of_rule_mem_separate hr', hr']
  rw [layOut_eq_separated] at h
  split_ifs at h with hpipes
  · have hpadded := forall_alignColons
      (P := fun r' => ∃ r n, .rule r ∈ d.entries ∧ r' = { r.layOut style with namePadding := n })
      (fun r' n => by rintro ⟨r, -, hr, rfl⟩; exact ⟨r, n, hr, rfl⟩)
      (fun r' hr' => by
        obtain ⟨r, hr, rfl⟩ := hlaid r' hr'
        exact ⟨r, (r.layOut style).namePadding, hr, rfl⟩) r' h
    obtain ⟨r, n, hr, hpadded⟩ := hpadded
    exact ⟨r, n, hr, hpadded, fun hfalse => absurd hpipes (by rw [hfalse]; decide)⟩
  · obtain ⟨r, hr, rfl⟩ := hlaid r' h
    refine ⟨r, r.namePadding, hr, ?_, fun _ => rfl⟩
    rw [Rule.layOut_eq]

theorem ruleNames_layOut : (d.layOut style).ruleNames = d.ruleNames :=
  (runPasses_relaid style style.passes d).map_name

/-- Laying out keeps the lines apart. -/
theorem endedEntries_layOut (h : EndedEntries d.entries) : EndedEntries (d.layOut style).entries := by
  have hmapped := h.map_mapRule (Rule.layOut style)
  have hseparated : EndedEntries ((d.mapRules (Rule.layOut style)).separated style).entries := by
    unfold separated
    split_ifs
    · exact (separate_kept style (P := fun _ => True) (by simp) hmapped).2.1
    · exact hmapped
  rw [layOut_eq_separated]
  split_ifs
  · exact .of_relaid (alignColonsFrom_forall₂ (R := fun _ _ => True) (by simp) Text.width 0 _) hseparated
  · exact hseparated

section Parsed

variable (h : Document.parse text = .ok d) (hplain : ∀ r ∈ d.rules, r.PlainlySpaced)
include h hplain

/-- The rules of a document that is laid out are laid out. -/
theorem laidOut_of_parse : ∀ r', .rule r' ∈ (d.layOut style).entries → r'.LaidOut style := by
  intro r' hr'
  obtain ⟨r, n, hr, rfl, hn⟩ := exists_of_rule_mem_layOut style hr'
  have hsource : r.ReadSource := parse_readSource h (.rule r) hr
  have hread : r.Plain := parse_plain h (.rule r) hr
  refine (parse_regular h hplain r hr).laidOut style hread.oneLine hsource.settings fun hpipes => ?_
  rw [hn hpipes, hsource.settings]

/-- A document that is laid out can be read when its rules cannot be mistaken. -/
theorem legible_layOut (hlaid : ∀ r ∈ (d.layOut style).rules, r.Unmistakable) :
    (d.layOut style).Legible := by
  have hrelaid := runPasses_relaid style style.passes d
  have hover := hrelaid.forall_rules (fun hrewrites hr => hr.rewrites signs_ne_carriageReturn hrewrites)
    fun r hr => (parse_readSource h (.rule r) hr).over (hplain r (mem_rules.2 hr))
  have hlines : ∀ v, .verbatim v ∈ (d.layOut style).entries → lines v.text = [v.text] := by
    have hsingle := hrelaid.forall_entries (P := fun e => ∀ v, e = .verbatim v → lines v.text = [v.text])
      (fun _ _ v hv => absurd hv (by simp)) (by rintro v ⟨⟩; exact lines_concat_newline (a := []) (by simp))
      (by rintro e he v rfl; exact parse_readSource h (.verbatim v) he)
    exact fun v hv => hsingle _ hv v rfl
  have hrules : ∀ r', .rule r' ∈ (d.layOut style).entries → r'.Legible := by
    intro r' hr'
    obtain ⟨r, n, hr, rfl, -⟩ := exists_of_rule_mem_layOut style hr'
    have hsource : r.ReadSource := parse_readSource h (.rule r) hr
    have hunmistakable := hlaid _ (mem_rules.2 hr')
    have hshaped := hrelaid.forall_rules (P := Rule.Shaped) (fun hrewrites hr => (hr.rewrites hrewrites).1)
      (fun r hr => ⟨parse_ordered h r hr, parse_plain h _ hr⟩) _ hr'
    refine hunmistakable.legible (laidOut_of_parse style h hplain _ hr').regular hshaped (hover _ hr') ?_
      fun b hb => ?_
    · rw [Rule.name_layOut]
      exact hsource.named
    · exact (parse_regular h hplain r hr).closes_layOut (parse_plain h _ hr).oneLine hsource.closes b hb
        (hunmistakable.unended b hb)
  obtain ⟨front, back, hentries, hfront, hback⟩ := parse_divided h
  rw [hentries] at hrelaid
  obtain ⟨front', back', hlaidEntries, hfront', hback'⟩ := hrelaid.exists_divided hfront hback
  refine ⟨endedEntries_layOut style (parse_endedEntries h), hlines, front', back', hlaidEntries, ?_, hback'⟩
  intro e he
  cases e with
  | verbatim v => exact hfront' v he
  | rule r =>
    refine hrules r ?_
    rw [layOut, hlaidEntries]
    exact List.mem_append_left _ he

end Parsed

end Document

/-! ## The check -/

/-- A text passes the check when the white space of its rules is plain, none of the productions and
blocks, as they are laid out, can be taken for anything else, and no two blocks follow the same
production. -/
theorem checkRoundTrip_stable {style : Style} {text : Text} {d : Document}
    (h : Document.parse text = .ok d) (hplain : ∀ r ∈ d.rules, r.PlainlySpaced)
    (hlaid : ∀ r ∈ (d.layOut style).rules, r.Unmistakable) : checkRoundTrip style text = .stable := by
  obtain ⟨again, hagain, hback⟩ :=
    Document.parse_render_of_legible (Document.legible_layOut style h hplain hlaid)
  refine (checkRoundTrip_eq_stable_iff h).2 ⟨again, hagain, ?_, ?_⟩
  · rw [← hback.ruleNames, Document.ruleNames_layOut]
  · exact Document.render_layOut_of_readBack hback (Document.laidOut_of_parse style h hplain)
      (Document.layOut_layOut_of_parse h hplain style)

/-- A comment with a form feed, a literal with a pipe, a block on one line, a block on several lines
that end with carriage returns, and a section after the grammar. -/
theorem checkRoundTrip_stable_two_blocks :
    ∃ d, Document.parse
        (bytes "# list\x0c\nitem: 'a|b' \x7bx=1\x7d\r\n  | c \x7b\r\n     y\r\n  \x7d\n;\n---- code\n")
        = .ok d ∧
      (∀ r ∈ d.rules, r.PlainlySpaced) ∧ (∀ r ∈ (d.layOut {}).rules, r.Unmistakable) ∧
      checkRoundTrip {}
        (bytes "# list\x0c\nitem: 'a|b' \x7bx=1\x7d\r\n  | c \x7b\r\n     y\r\n  \x7d\n;\n---- code\n")
        = .stable := by
  have h : Document.parse
      (bytes "# list\x0c\nitem: 'a|b' \x7bx=1\x7d\r\n  | c \x7b\r\n     y\r\n  \x7d\n;\n---- code\n")
      = .ok ⟨[.verbatim ⟨bytes "# list\x0c\n", false⟩,
        .rule
          { name := bytes "item", line := 2
            productions := [bytes "'a|b' \x7bx=1\x7d", bytes "  | c"]
            actions := [⟨bytes " \x7b\n     y\n  \x7d", 1, 3⟩] },
        .verbatim ⟨bytes "---- code\n", false⟩]⟩ := by decide +kernel
  refine ⟨_, h, ?_, ?_, checkRoundTrip_stable h ?_ ?_⟩ <;> decide +kernel

end GrammarLayout
