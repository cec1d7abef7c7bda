import GrammarLayout.Proofs.Grammar.Kept
import GrammarLayout.Proofs.Grammar.Reading

/-!
# Growing a rule

While a rule is read, its lines are cut into alternatives and blocks, which are
added to it one by one.  Each of them comes after everything read before, with
one exception: text that continues the last production is written before the
blocks that follow this production already.

What is proved here:

* `readyAlternatives_ink` — cutting a line into alternatives loses nothing;
* `Rule.readProductions_grown` — the productions of a line are added to the
  ink of the rule, and in order unless the line continues a production that
  ends in a block;
* `Action.framed_ofText` — a block that was read starts with its brace.
-/

namespace GrammarLayout

open Ascii Text

/-! ## Productions -/

theorem ink_flatMap_pipe (first : Text) (rest : List Text) :
    ink (first ++ rest.flatMap (pipe :: ·)) = ink first ++ rest.flatMap fun s => pipe :: ink s := by
  rw [ink_append_flatMap fun s _ => ⟨pipe, s, by decide, rfl⟩]
  simp only [ink_pipe]

theorem ink_later (indent : Text) (hindent : ∀ c ∈ indent, isAsciiSpace c = true) (alt : Text) :
    ink (trimEndWhile (· == space) (indent ++ bytes "| " ++ trim alt)) = pipe :: ink alt := by
  rw [ink_trimSpacesEnd, show bytes "| " = [pipe, space] from rfl, List.append_assoc,
    ink_spaces_append hindent]
  simp

/-- The alternatives of a line as they are added hold the ink of the line.  Those after the first
start with a pipe, and the first one starts with the first visible byte of the line. -/
theorem readyAlternatives_ink (text : Text) (header : Bool) :
    ∃ first others, readyAlternatives text header = first :: others ∧
      ink text = ink first ++ others.flatMap ink ∧ (∀ p ∈ others, hasPipe p = true) ∧
      (ink first).head? = (ink text).head? := by
  set indent := if header then [] else leadingBlanks text with hindent
  have hspaces : ∀ c ∈ indent, isAsciiSpace c = true := by
    rw [hindent]
    split
    · simp
    · exact isAsciiSpace_of_mem_leadingBlanks text
  set later := fun alt => trimEndWhile (· == space) (indent ++ bytes "| " ++ trim alt) with hlater
  have hink : ∀ alt, ink (later alt) = pipe :: ink alt := ink_later indent hspaces
  have hpiped : ∀ alts : List Text, ∀ p ∈ alts.map later, hasPipe p = true := by
    intro alts p hp
    obtain ⟨alt, -, rfl⟩ := List.mem_map.1 hp
    rw [Rule.hasPipe_iff, hink]
    rfl
  have hmap : ∀ alts : List Text,
      (alts.map later).flatMap ink = alts.flatMap fun s => pipe :: ink s := by
    intro alts
    rw [List.flatMap_map]
    simp only [hink]
  obtain ⟨first, rest, halts⟩ : ∃ first rest, alternatives text = (first, rest) := ⟨_, _, rfl⟩
  have htext : text = first ++ rest.flatMap (pipe :: ·) := by
    have := alternatives_eq text
    rwa [halts] at this
  have htextInk : ink text = ink first ++ rest.flatMap fun s => pipe :: ink s := by
    rw [htext, ink_flatMap_pipe]
  rw [readyAlternatives, halts]
  cases rest with
  | nil =>
    refine ⟨first, [], rfl, by simpa using htextInk, by simp, ?_⟩
    rw [htextInk, List.flatMap_nil, List.append_nil]
  | cons second others =>
    by_cases hblank : isSpaces first = true
    · refine ⟨first ++ pipe :: second, others.map later, by simp [hblank, ← hindent, hlater],
        ?_, hpiped others, ?_⟩
      · rw [htextInk, ink_append_pipe, hmap, List.flatMap_cons, List.append_assoc]
      · rw [htextInk, ink_append_pipe, ink_of_isSpaces hblank]
        rfl
    · refine ⟨first, (second :: others).map later, by simp [hblank, ← hindent, hlater],
        ?_, hpiped _, ?_⟩
      · rw [htextInk, hmap]
      · rw [← ink_eq_nil_iff] at hblank
        obtain ⟨c, t, ht⟩ := List.exists_cons_of_ne_nil hblank
        rw [htextInk, ht]
        rfl

namespace Rule

/-- Does a block follow the last production? -/
def endsInBlock (r : Rule) : Bool :=
  !r.productions.isEmpty && !(r.blocks ((r.productions.length : Int) - 1)).isEmpty

/-- The rule `r'` is `r` with the text `added` read behind it. -/
structure Grown (inOrder : Bool) (r r' : Rule) (added : Text) : Prop where
  /-- The blocks stay in the order of their productions. -/
  ordered : r'.Ordered
  /-- The name stays. -/
  name : r'.name = r.name
  /-- The body holds the new text too. -/
  kept : Kept inOrder r'.bodyInk (r.bodyInk ++ ink added)

theorem Grown.refl {o : Bool} {r : Rule} (h : r.Ordered) : Grown o r r [] :=
  ⟨h, rfl, Kept.of_eq (by simp)⟩

theorem readAlternative_grown {o : Bool} {r r' : Rule} {text : Text} {header : Bool}
    (h : r.Ordered) (hr : r.readAlternative text header = .ok r')
    (ho : o = true → r.endsInBlock = true → isSpaces text = true ∨ hasPipe text = true) :
    Grown o r r' text := by
  rcases readAlternative_cases hr with ⟨hblank, rfl⟩ | ⟨-, hstart, p, hp, rfl⟩ |
    ⟨hink, hne, hpipe, rfl⟩
  · refine ⟨h, rfl, ?_⟩
    rw [ink_of_isSpaces hblank, List.append_nil]
    exact Kept.refl _
  · have hink : ink p = ink text := by
      rcases hp with rfl | rfl
      · exact ink_trim text
      · exact ink_trimBlanksEnd text
    refine ⟨h.addProduction (hstart.imp_right fun hs => ?_), rfl, ?_⟩
    · rwa [hasPipe_iff, hink, ← hasPipe_iff]
    · rw [bodyInk_addProduction h, hink]
      exact Kept.refl _
  · obtain ⟨ps, p, hps, -⟩ := exists_concat hne
    refine ⟨h.extendProduction hps _, by simp [extendProduction, hps, -ink_append_space], ?_⟩
    rw [bodyInk_extendProduction hne, bodyInk_eq_firmInk, ink_trim, List.append_assoc]
    refine Kept.append_left _ (Kept.swap _ _ fun hot => Or.inr ?_)
    by_contra hblocks
    have hlast : r.endsInBlock = true := by
      have hsome : r.blocks ((r.productions.length : Int) - 1) ≠ [] :=
        fun hnil => hblocks (by rw [hnil, blocksInk_nil])
      simp [endsInBlock, hne, hsome]
    rcases ho hot hlast with hblank | hpiped
    · simp [hblank] at hink
    · simp [hpiped] at hpipe

/-- Alternatives that start with a pipe are read in order, whatever stands before them. -/
theorem foldlM_readAlternative_grown {o : Bool} {header : Bool} {alts : List Text} {r r' : Rule}
    (h : r.Ordered) (hpiped : ∀ p ∈ alts, hasPipe p = true)
    (hr : alts.foldlM (fun r alt => r.readAlternative alt header) r = .ok r') :
    r'.Ordered ∧ r'.name = r.name ∧ Kept o r'.bodyInk (r.bodyInk ++ alts.flatMap ink) := by
  induction alts generalizing r with
  | nil =>
    obtain rfl : r = r' := by simpa [pure, Except.pure] using hr
    exact ⟨h, rfl, Kept.of_eq (by simp)⟩
  | cons p alts ih =>
    rw [List.foldlM_cons] at hr
    obtain ⟨next, hp, hnext⟩ := exists_of_bind_eq_ok hr
    have hfirst : Grown o r next p :=
      readAlternative_grown h hp fun _ _ => Or.inr (hpiped p List.mem_cons_self)
    obtain ⟨hordered, hname, hkept⟩ :=
      ih hfirst.ordered (fun q hq => hpiped q (List.mem_cons_of_mem p hq)) hnext
    refine ⟨hordered, hname.trans hfirst.name, hkept.trans ?_⟩
    rw [List.flatMap_cons, ← List.append_assoc]
    exact hfirst.kept.append_right _

/-- The productions of a line come after what was read before, unless the line continues a
production that a block already follows. -/
theorem readProductions_grown {o : Bool} {r r' : Rule} {text : Text} {header : Bool}
    (h : r.Ordered) (hr : r.readProductions text header = .ok r')
    (ho : o = true → r.endsInBlock = true → isSpaces text = true ∨ hasPipe text = true) :
    Grown o r r' text := by
  obtain ⟨first, others, hready, hink, hothers, hfirst⟩ := readyAlternatives_ink text header
  rw [readProductions, hready, List.foldlM_cons] at hr
  obtain ⟨next, hp, hnext⟩ := exists_of_bind_eq_ok hr
  have hgrown : Grown o r next first := by
    refine readAlternative_grown h hp fun hot hblock => ?_
    have hstart := ho hot hblock
    rwa [← ink_eq_nil_iff, ← List.head?_eq_none_iff, hasPipe_iff, ← hfirst,
      List.head?_eq_none_iff, ink_eq_nil_iff, ← hasPipe_iff] at hstart
  obtain ⟨hordered, hname, hkept⟩ :=
    foldlM_readAlternative_grown (o := o) hgrown.ordered hothers hnext
  refine ⟨hordered, hname.trans hgrown.name, hkept.trans ?_⟩
  rw [hink, ← List.append_assoc]
  exact hgrown.kept.append_right _

end Rule

/-! ## Blocks -/

/-- A block read from white space and an opening brace on has only white space before its brace. -/
theorem Action.framed_ofText {w rest : Text} (hw : isSpaces w = true) (owner line : Int) :
    (Action.ofText (w ++ openBrace :: rest) owner line).Framed := by
  rw [Action.Framed, Action.ofText, ink_trimLayoutEnd, ink_append_openBrace, ink_of_isSpaces hw]
  rfl

end GrammarLayout
