import GrammarLayout.Proofs.Grammar.Depth

/-!
# A block at the end of a production

A production that ends in a one-line block is split into the text in front of
the block and the text inside it.  The opening brace is found outside literals
and the closing one by counting, so the two parts can be told by themselves:
which texts they are does not depend on how the production was written between
them.  A part in front that was split off is joined again with any balanced
text, and is split off as it was.

What is proved here:

* `splitInline?_eq_some_iff` — what a production is split into;
* `splitInline?_eq_none_iff` — which productions are not split;
* `inline_block_split_join` — splitting and joining are inverse.
-/

namespace GrammarLayout

open Ascii Text

/-- The production ends in a block around `inner`, and `before` is what stands in front of it. -/
structure EndsInBlock (production before inner : Text) : Prop where
  /-- Blanks stand in front of the block, and white space behind it. -/
  parts : ∃ blanks rest, production = before ++ (blanks ++ (openBrace :: inner ++ closeBrace :: rest)) ∧
    (∀ c ∈ blanks, isBlank c = true) ∧ isSpaces rest = true
  /-- The block is closed at its end and not before. -/
  balanced : Balanced inner
  /-- No block opens before it. -/
  unopened : ∀ i, ¬OpensAt before i
  /-- It does not open in a literal. -/
  outside : Outside before
  /-- The blanks in front of the block are not part of what stands there. -/
  trimmed : trimBlanksEnd before = before

theorem EndsInBlock.clear {p before inner : Text} (h : EndsInBlock p before inner) : Clear before :=
  clear_iff.2 ⟨h.unopened, h.outside⟩

/-- What a production with a block at its end is split into. -/
theorem splitInline?_eq_some_iff {p before inner : Text} :
    splitInline? p = some (before, inner) ↔ EndsInBlock p before inner := by
  constructor
  · intro h
    obtain ⟨b, rest, hblock, hrest, rfl, rfl⟩ := splitInline?_eq h
    obtain ⟨hp, hclear, hclosed⟩ := firstBlock?_eq_some_iff.1 hblock
    obtain ⟨blanks, hbefore, hblanks⟩ := exists_trimEndWhile isBlank b.before
    obtain ⟨hunopened, houtside⟩ := clear_iff.1 hclear.trimBlanksEnd
    refine ⟨⟨blanks, rest, ?_, hblanks, hrest⟩, closed_iff_balanced.1 hclosed, hunopened, houtside,
      trimBlanksEnd_trimBlanksEnd b.before⟩
    rw [← List.append_assoc, trimBlanksEnd, ← hbefore]
    exact hp
  · intro h
    obtain ⟨blanks, rest, hp, hblanks, hrest⟩ := h.parts
    have hclear : Clear (before ++ blanks) :=
      (Clear.append_iff h.clear).2 (.of_isSpaces (isSpaces_of_blanks hblanks))
    have hblock : firstBlock? p = some (⟨before ++ blanks, inner⟩, rest) :=
      firstBlock?_eq_some_iff.2
        ⟨by rw [hp, List.append_assoc], hclear, closed_iff_balanced.2 h.balanced⟩
    rw [splitInline?_of_firstBlock? hblock, if_pos hrest, trimBlanksEnd,
      trimEndWhile_append_of_forall hblanks]
    exact congrArg (fun text => some (text, inner)) h.trimmed

/-- Why a production does not end in a block. -/
inductive NoInlineBlock (production : Text) : Prop where
  /-- No brace opens outside literals. -/
  | unopened (h : ∀ i, ¬OpensAt production i)
  /-- The first brace that opens is not closed. -/
  | unclosed {i : Nat} (hopen : OpensFirst production i) (h : ∀ j, ¬ClosesAt production i j)
  /-- Something other than white space stands behind the brace that closes it. -/
  | followed {i j : Nat} (hopen : OpensFirst production i) (hclose : ClosesAt production i j)
      (h : isSpaces (production.drop (j + 1)) = false)

/-- Which productions are not split. -/
theorem splitInline?_eq_none_iff {p : Text} : splitInline? p = none ↔ NoInlineBlock p := by
  have hmatch : ∀ {i}, OpensFirst p i → ∀ j, matchingBrace? p i = some j ↔ ClosesAt p i j :=
    fun hopen j => matchingBrace?_eq_some_iff hopen.opens.1
  constructor
  · intro h
    cases hopening : openingBrace? p with
    | none => exact .unopened (openingBrace?_eq_none_iff.1 hopening)
    | some i =>
      have hopen := openingBrace?_eq_some_iff.1 hopening
      cases hclosing : matchingBrace? p i with
      | none =>
        refine .unclosed hopen fun j hclose => ?_
        rw [(hmatch hopen j).2 hclose] at hclosing
        exact absurd hclosing (by simp)
      | some j =>
        refine .followed hopen ((hmatch hopen j).1 hclosing) ?_
        simpa [splitInline?, firstBlock?, hopening, hclosing] using h
  · intro h
    cases h with
    | unopened h => simp [splitInline?, firstBlock?, openingBrace?_eq_none_iff.2 h]
    | @unclosed i hopen h =>
      have hclosing : matchingBrace? p i = none :=
        Option.eq_none_iff_forall_ne_some.2 fun j hj => h j ((hmatch hopen j).1 hj)
      simp [splitInline?, firstBlock?, openingBrace?_eq_some_iff.2 hopen, hclosing]
    | @followed i j hopen hclose h =>
      simp [splitInline?, firstBlock?, openingBrace?_eq_some_iff.2 hopen,
        (hmatch hopen j).2 hclose, h]

theorem padded_of_ne_nil {inner : Text} (h : inner ≠ []) :
    padded inner = space :: inner ++ [space] := by
  rw [padded, if_neg (by simpa using h)]

/-- Splitting a production at the block at its end and joining the parts are inverse: what is split off
are the parts of the production, and the part in front is split off again when it is joined with any
balanced text.  A production is not split when no brace opens in it, when the first one is not
closed, or when something follows its block. -/
theorem inline_block_split_join (p before inner : Text) :
    (splitInline? p = some (before, inner) ↔ EndsInBlock p before inner) ∧
      (splitInline? p = some (before, inner) →
        (∀ w, Balanced w → w ≠ [] →
          splitInline? (joinInline before w) = some (before, space :: w ++ [space])) ∧
        splitInline? (joinInline before []) = some (before, [space])) ∧
      (splitInline? p = none ↔ NoInlineBlock p) := by
  refine ⟨splitInline?_eq_some_iff, fun h => ?_, splitInline?_eq_none_iff⟩
  have hends := splitInline?_eq_some_iff.1 h
  have hjoin : ∀ w, Balanced w → splitInline? (joinInline before w) = some (before, padded w) := by
    intro w hw
    rw [splitInline?_joinInline hends.clear (closed_iff_balanced.2 hw), hends.trimmed]
  refine ⟨fun w hw hne => ?_, hjoin [] ⟨rfl, fun t ht => ?_⟩⟩
  · rw [hjoin w hw, padded_of_ne_nil hne]
  · rw [List.prefix_nil.1 ht]
    rfl

/-- Escaped quotes and quoted braces in front of the block; the text joined next has braces in quotes,
which count inside a block. -/
theorem inline_block_split_join_quoted :
    splitInline? (bytes "| '\x7b' \"\\\"\x7b\"\t \x7b x \x7b y \x7d \x7d ")
        = some (bytes "| '\x7b' \"\\\"\x7b\"", bytes " x \x7b y \x7d ") ∧
      Balanced (bytes "'\x7b' \x7d") ∧ bytes "'\x7b' \x7d" ≠ [] ∧
      splitInline? (joinInline (bytes "| '\x7b' \"\\\"\x7b\"") (bytes "'\x7b' \x7d"))
        = some (bytes "| '\x7b' \"\\\"\x7b\"", bytes " '\x7b' \x7d ") := by
  have hsplit : splitInline? (bytes "| '\x7b' \"\\\"\x7b\"\t \x7b x \x7b y \x7d \x7d ")
      = some (bytes "| '\x7b' \"\\\"\x7b\"", bytes " x \x7b y \x7d ") := by decide
  have hbalanced : Balanced (bytes "'\x7b' \x7d") := by decide
  obtain ⟨-, hjoin, -⟩ := inline_block_split_join _ _ _
  exact ⟨hsplit, hbalanced, by decide, (hjoin hsplit).1 _ hbalanced (by decide)⟩

end GrammarLayout
