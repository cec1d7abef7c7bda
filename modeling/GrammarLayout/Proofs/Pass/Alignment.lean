import GrammarLayout.Pass.Alignment
import GrammarLayout.Proofs.Pass.Spacing

/-!
# Lining things up

The alignment pass pads the names of rules, moves pipes and re-indents the
lines of blocks.  It respaces a rule that is laid out and leaves it laid out.

What is proved here:

* `Document.Laid.alignColons` — padding the names of neighbouring rules;
* `Rule.Laid.alignPipes`, `Rule.Laid.alignActions` — moving the pipes of a rule
  and the lines of its blocks.
-/

namespace GrammarLayout

open Ascii Text

/-! ## Colons -/

theorem Rule.Ordered.respaced_namePadding {r : Rule} (h : r.Ordered) (n : Nat) :
    r.Respaced { r with namePadding := n } :=
  ⟨rfl, rfl, rfl, h.productionIndent, h.terminatorIndent⟩

theorem Rule.Laid.namePadding {r : Rule} (h : r.Laid) (n : Nat) :
    r.Respaced { r with namePadding := n } ∧ Laid { r with namePadding := n } :=
  have hrespaced := h.toOrdered.respaced_namePadding n
  ⟨hrespaced, hrespaced.ordered h.toOrdered, h.pipes⟩

theorem EndedEntries.tail {e : Entry} {es : List Entry} (h : EndedEntries (e :: es)) :
    EndedEntries es := by
  unfold EndedEntries at h ⊢
  rw [List.map_cons] at h
  generalize es.map Entry.render = ls at h ⊢
  cases h with
  | last => exact .nil
  | cons _ h => exact h

/-- Padding names changes white space only, and keeps what is kept when one name is padded. -/
theorem alignColonsFrom_kept {P : Rule → Prop} (hordered : ∀ r, P r → r.Ordered)
    (hpadded : ∀ (r : Rule) (n : Nat), P r → P { r with namePadding := n }) (width : Text → Nat)
    (widest : Nat) {es : List Entry} (hrules : ∀ r, .rule r ∈ es → P r)
    (hended : EndedEntries es) :
    (∀ r, .rule r ∈ alignColonsFrom width widest es → P r) ∧
      EndedEntries (alignColonsFrom width widest es) ∧
      entriesInk (alignColonsFrom width widest es) = entriesInk es := by
  induction es generalizing widest with
  | nil => exact ⟨by simp [alignColonsFrom], .nil, rfl⟩
  | cons e es ih =>
    have hrest : ∀ r, .rule r ∈ es → P r := fun r hr => hrules r (List.mem_cons_of_mem e hr)
    cases e with
    | rule r =>
      have hr : P r := hrules r List.mem_cons_self
      obtain ⟨hkept, hend, hink⟩ := ih (max widest (width r.name)) hrest hended.tail
      rw [alignColonsFrom]
      refine ⟨?_, .cons (Rule.ended_render _) hend, ?_⟩
      · intro r' hr'
        rcases List.mem_cons.1 hr' with hr' | hr'
        · cases hr'
          exact hpadded r _ hr
        · exact hkept r' hr'
      · rw [entriesInk_cons, entriesInk_cons, hink]
        congr 1
        exact ((hordered r hr).respaced_namePadding _).ink_render (hordered r hr)
    | verbatim v =>
      obtain ⟨hkept, hend, hink⟩ := ih (if v.isBlank then widest else 0) hrest hended.tail
      rw [alignColonsFrom]
      refine ⟨?_, ?_, by rw [entriesInk_cons, entriesInk_cons, hink]⟩
      · intro r' hr'
        rcases List.mem_cons.1 hr' with hr' | hr'
        · cases hr'
        · exact hkept r' hr'
      · cases es with
        | nil => exact .last _
        | cons e es =>
          cases hended with
          | cons hv _ => exact .cons hv hend

theorem Document.alignColons_kept {P : Rule → Prop} (hordered : ∀ r, P r → r.Ordered)
    (hpadded : ∀ (r : Rule) (n : Nat), P r → P { r with namePadding := n }) (width : Text → Nat)
    {d : Document} (hrules : ∀ r, .rule r ∈ d.entries → P r) (hended : EndedEntries d.entries) :
    (∀ r, .rule r ∈ (d.alignColons width).entries → P r) ∧
      EndedEntries (d.alignColons width).entries ∧
      ink (d.alignColons width).render = ink d.render := by
  obtain ⟨hkept, hend, hink⟩ := alignColonsFrom_kept hordered hpadded width 0 hrules hended
  refine ⟨hkept, hend, ?_⟩
  rw [ink_render hended, ink_render (d := d.alignColons width) hend]
  exact hink

theorem Document.Laid.alignColons {d : Document} (h : d.Laid) (width : Text → Nat) :
    (d.alignColons width).Laid ∧ ink (d.alignColons width).render = ink d.render := by
  obtain ⟨hrules, hended, hink⟩ := alignColons_kept (fun _ => Rule.Laid.toOrdered)
    (fun r n hr => (hr.namePadding n).2) width h.rules h.ended
  exact ⟨⟨hrules, hended⟩, hink⟩

/-! ## Pipes -/

/-- Aligned, every later production stands behind the indentation of the rule. -/
theorem Rule.alignPipes_cases {r : Rule} (h : r.Ordered) : r.alignPipes = r ∨
    ∃ first later, r.productions = first :: later ∧ (∀ p ∈ later, hasPipe p = true) ∧
      r.alignPipes = { r with
        productions := first :: later.map fun p => r.productionIndent ++ trim p } := by
  unfold Rule.alignPipes
  split
  · exact Or.inl rfl
  · rename_i first later hps
    split
    · exact Or.inl rfl
    · have hlater : ∀ p ∈ later, hasPipe p = true := fun p hp => h.piped p (by rwa [hps])
      refine Or.inr ⟨first, later, hps, hlater, ?_⟩
      rw [List.map_congr_left fun p hp => if_pos (hlater p hp)]

theorem Rule.respaced_alignPipes {r : Rule} (h : r.Ordered) : r.Respaced r.alignPipes := by
  rcases alignPipes_cases h with hsame | ⟨first, later, hps, -, heq⟩
  · rw [hsame]
    exact ⟨rfl, rfl, rfl, h.productionIndent, h.terminatorIndent⟩
  · have hink : ∀ p, ink (r.productionIndent ++ trim p) = ink p := by
      intro p
      rw [ink_blanks_append h.productionIndent, ink_trim]
    rw [heq]
    refine ⟨rfl, ?_, rfl, h.productionIndent, h.terminatorIndent⟩
    simp [hps, hink]

theorem Rule.Laid.alignPipes {r : Rule} (h : r.Laid) :
    r.Respaced r.alignPipes ∧ r.alignPipes.Laid := by
  have hrespaced := respaced_alignPipes h.toOrdered
  refine ⟨hrespaced, hrespaced.ordered h.toOrdered, fun q hq => ?_⟩
  rcases alignPipes_cases h.toOrdered with hsame | ⟨first, later, -, hlater, heq⟩
  · rw [hsame] at hq
    exact h.pipes q hq
  · rw [heq] at hq
    obtain ⟨p, hp, rfl⟩ := List.mem_map.1 hq
    obtain ⟨t, ht⟩ := List.head?_eq_some_iff.1 (startsWith_singleton_iff.1 (hlater p hp))
    rw [firstSign_blanks_append h.productionIndent, ht, firstSign_cons (by decide)]

/-! ## Blocks -/

theorem ink_alignInline (p : Text) : ink (alignInline p) = ink p := by
  unfold alignInline
  split
  · rename_i before inner hsplit
    rw [ink_leadingBlanks_append, ink_joinInline, ink_trim, ink_trim, ink_of_splitInline? hsplit]
  · rfl

theorem firstSign_alignInline {p : Text} (h : firstSign p = some pipe) :
    firstSign (alignInline p) = some pipe := by
  unfold alignInline
  split
  · rename_i before inner hsplit
    have hblanks : ∀ c ∈ leadingBlanks p, isBlank c = true := fun c hc => List.mem_takeWhile_imp hc
    obtain ⟨w, rest, hbefore, hw, -⟩ := firstSign_eq_some (firstSign_of_splitInline? hsplit h)
    have hhead : (trim before).head? = some pipe := by
      rw [head?_trim, hbefore, ink_blanks_append hw, ink_pipe]
      rfl
    obtain ⟨t, ht⟩ := List.head?_eq_some_iff.1 hhead
    rw [firstSign_blanks_append hblanks, ht]
    exact firstSign_joinInline (firstSign_cons (by decide) t) _
  · exact h

theorem isSpaces_append {s t : Text} (hs : isSpaces s = true) (ht : isSpaces t = true) :
    isSpaces (s ++ t) = true := by
  rw [← ink_eq_nil_iff, ink_isSpaces_append hs, ink_of_isSpaces ht]

/-- The text after the last newline stands at the end. -/
theorem exists_of_afterLastNewline? {s indent : Text} (h : afterLastNewline? s = some indent) :
    ∃ front, s = front ++ newline :: indent ∧ newline ∉ indent := by
  unfold afterLastNewline? at h
  split_ifs at h with hmem
  obtain ⟨a, b, hs, ha⟩ :=
    List.eq_append_cons_of_mem (List.mem_reverse.2 (List.contains_iff_mem.1 hmem))
  have hne : ∀ c ∈ a, (c != newline) = true := by
    intro c hc
    rw [bne_iff_ne]
    rintro rfl
    exact ha hc
  have hlast : indent = a.reverse := by
    rw [← Option.some.inj h, hs, List.takeWhile_append_of_pos hne]
    simp
  refine ⟨b.reverse, ?_, by rwa [hlast, List.mem_reverse]⟩
  rw [hlast, ← List.reverse_reverse s, hs]
  simp

/-- The indentation of an opening brace's line is that of the layout in front of the brace, or of a
line that is written with the rule. -/
theorem Rule.braceIndent_cases (r : Rule) (a : Action) :
    afterLastNewline? a.lead = some (r.braceIndent a) ∨ r.braceIndent a = r.productionIndent ∨
      r.braceIndent a = [] ∨ ∃ p ∈ r.productions, r.braceIndent a = leadingBlanks p := by
  unfold braceIndent
  split
  · rename_i indent hlast
    exact Or.inl hlast
  · split
    · exact Or.inr (Or.inl rfl)
    · unfold lineIndent
      split
      · exact Or.inr (Or.inr (Or.inl rfl))
      · split
        · exact Or.inr (Or.inr (Or.inl rfl))
        · rename_i p hp
          split
          · exact Or.inr (Or.inl rfl)
          · exact Or.inr (Or.inr (Or.inr ⟨p, List.mem_of_getElem? hp, rfl⟩))

theorem Rule.isSpaces_braceIndent {r : Rule} (h : r.Ordered) {a : Action} (ha : a.Framed) :
    isSpaces (r.braceIndent a) = true := by
  rcases r.braceIndent_cases a with hlast | hindent | hnil | ⟨p, -, hp⟩
  · obtain ⟨front, hlead, -⟩ := exists_of_afterLastNewline? hlast
    have hink := ink_of_isSpaces ha.isSpaces_lead
    rw [hlead, ink_append_newline, List.append_eq_nil_iff] at hink
    exact ink_eq_nil_iff.1 hink.2
  · rw [hindent]
    exact isSpaces_of_blanks h.productionIndent
  · rw [hnil]
    rfl
  · rw [hp]
    exact isSpaces_of_blanks fun c hc => List.mem_takeWhile_imp hc

theorem ink_alignContent {base step : Text} (h : isSpaces (base ++ step) = true)
    (content : List Text) : (alignContent base step content).flatMap ink = content.flatMap ink := by
  have hline : ∀ l, ink (if isSpaces l then l
      else rebaseLine (base ++ step) (leastIndent content) l) = ink l := by
    intro l
    split
    · rfl
    · exact ink_rebaseLine h _ l
  rw [alignContent, List.flatMap_map]
  simp only [hline]

/-- The lines below an opening brace, by the last of them. -/
theorem alignBelow_concat (base step : Text) (content : List Text) (last : Text) :
    alignBelow base step (content ++ [last]) =
      if startsWith [closeBrace] (trim last) then alignContent base step content ++ [base ++ trim last]
      else alignContent base step (content ++ [last]) := by
  rw [alignBelow, List.getLast?_concat, List.dropLast_concat]

/-- The bytes of lined up lines are those of the indentation and of the lines. -/
theorem mem_alignBelow {base step : Text} {below : List Text} {l : Text} {c : UInt8}
    (hl : l ∈ alignBelow base step below) (hc : c ∈ l) :
    c ∈ base ++ step ∨ ∃ k ∈ below, c ∈ k := by
  have hcontent : ∀ content : List Text, l ∈ alignContent base step content →
      c ∈ base ++ step ∨ ∃ k ∈ content, c ∈ k := by
    intro content hl
    obtain ⟨k, hk, rfl⟩ := List.mem_map.1 hl
    split_ifs at hc
    · exact Or.inr ⟨k, hk, hc⟩
    · exact (mem_rebaseLine hc).imp_right fun hc => ⟨k, hk, hc⟩
  rcases List.eq_nil_or_concat below with rfl | ⟨content, last, rfl⟩
  · exact absurd hl (by simp [alignBelow])
  rw [List.concat_eq_append] at hl ⊢
  rw [alignBelow_concat] at hl
  split_ifs at hl
  · rcases List.mem_append.1 hl with hl | hl
    · obtain hc | ⟨k, hk, hc⟩ := hcontent content hl
      · exact Or.inl hc
      · exact Or.inr ⟨k, List.mem_append_left _ hk, hc⟩
    · rw [List.mem_singleton.1 hl, List.mem_append] at hc
      rcases hc with hc | hc
      · exact Or.inl (List.mem_append_left step hc)
      · exact Or.inr ⟨last, by simp, mem_of_mem_trim hc⟩
  · exact hcontent _ hl

theorem ink_alignBelow {base step : Text} (hbase : isSpaces base = true)
    (hstep : isSpaces step = true) (below : List Text) :
    (alignBelow base step below).flatMap ink = below.flatMap ink := by
  have hboth := isSpaces_append hbase hstep
  rcases List.eq_nil_or_concat below with rfl | ⟨content, last, rfl⟩
  · rfl
  rw [List.concat_eq_append, alignBelow_concat]
  split_ifs
  · rw [List.flatMap_append, List.flatMap_append, ink_alignContent hboth]
    simp [ink_isSpaces_append hbase]
  · exact ink_alignContent hboth _

theorem Rule.imprint_alignBlock {step : Text} (hstep : isSpaces step = true) {r : Rule}
    (h : r.Ordered) {a : Action} (ha : a.Framed) : (r.alignBlock step a).imprint = a.imprint := by
  unfold alignBlock
  split
  · split
    · rfl
    · rename_i first below hlines
      refine a.imprint_setText ?_
      rw [ink_isSpaces_append ha.isSpaces_lead, ink_joinLines, List.flatMap_cons,
        ink_alignBelow (r.isSpaces_braceIndent h ha) hstep, ← List.flatMap_cons, ← hlines,
        ink_splitLines, ha.ink_body]
  · rfl

theorem Rule.respaced_alignActions {step : Text} (hstep : isSpaces step = true) {r : Rule}
    (h : r.Ordered) : r.Respaced (r.alignActions step) := by
  have hinline : (r.productions.map alignInline).map ink = r.productions.map ink := by
    rw [List.map_map]
    exact List.map_congr_left fun p _ => ink_alignInline p
  have hinlined : Respaced r { r with productions := r.productions.map alignInline } :=
    ⟨rfl, hinline, rfl, h.productionIndent, h.terminatorIndent⟩
  have hordered := hinlined.ordered h
  refine ⟨rfl, hinline, ?_, h.productionIndent, h.terminatorIndent⟩
  exact Rule.map_imprint fun a ha => Rule.imprint_alignBlock hstep hordered (h.framed a ha)

theorem Rule.Laid.alignActions {step : Text} (hstep : isSpaces step = true) {r : Rule}
    (h : r.Laid) : r.Respaced (r.alignActions step) ∧ (r.alignActions step).Laid := by
  have hrespaced := respaced_alignActions hstep h.toOrdered
  refine ⟨hrespaced, hrespaced.ordered h.toOrdered, fun q hq => ?_⟩
  rw [Rule.alignActions, ← List.map_tail] at hq
  obtain ⟨p, hp, rfl⟩ := List.mem_map.1 hq
  exact firstSign_alignInline (h.pipes p hp)

end GrammarLayout
