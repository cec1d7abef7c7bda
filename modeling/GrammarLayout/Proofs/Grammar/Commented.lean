import GrammarLayout.Proofs.Grammar.Alternatives
import Mathlib.Data.List.Induction

/-!
# Braces behind a comment's hash

Cutting a line into alternatives stops at the hash that starts a comment.  The
search for blocks knows no comments: it goes through the line by itself, with
its own account of literals and of open braces, and a brace it meets behind the
hash is a brace of the grammar to it.

What is proved here:

* `alternatives_of_startsComment` — a comment is the end of the last alternative;
* `BlockSearch.after_eq` — on braces that stand outside literals the search
  follows the depth;
* `idle_iff` — the comment is behind all complete blocks, and it has no unclosed
  brace, exactly when the search that has reached it finds nothing in it;
* `comment_respected_iff` — what this means for cutting off a block and for
  changing the blocks of a line.
-/

namespace GrammarLayout

open Ascii Text

/-! ## The start of a comment -/

/-- On a text that is read from state `q` at depth `depth`, position `h` holds a hash outside
literals at a place where no brace is open. -/
def HashAt (q : Quoting) (depth : Int) (s : Text) (h : Nat) : Prop :=
  s[h]? = some hash ∧ q.after (s.take h) = .code ∧
    depth + braceBalance (unquotedFrom q (s.take h)) ≤ 0

instance (q : Quoting) (depth : Int) (s : Text) (h : Nat) : Decidable (HashAt q depth s h) :=
  inferInstanceAs (Decidable (_ ∧ _ ∧ _))

/-- Position `h` holds the hash that starts the comment of a line. -/
structure StartsComment (s : Text) (h : Nat) : Prop where
  /-- A comment may start there. -/
  hash : HashAt .code 0 s h
  /-- None starts before. -/
  first : ∀ k < h, ¬HashAt .code 0 s k

theorem hashAt_iff {q : Quoting} {d : Int} {s : Text} {h : Nat} :
    HashAt q d s h ↔ SignAt hash q d s h := Iff.rfl

/-- The alternatives `first` and `later` with a text behind the last of them. -/
def glue (t first : Text) : List Text → Text × List Text
  | [] => (first ++ t, [])
  | next :: later =>
      let rest := glue t next later
      (first, rest.1 :: rest.2)

theorem glue_cons (t : Text) (c : UInt8) (first : Text) (later : List Text) :
    glue t (c :: first) later = (c :: (glue t first later).1, (glue t first later).2) := by
  cases later <;> rfl

/-- Up to the first hash that may start a comment the alternatives are cut, and the comment follows
the last of them. -/
theorem alternativesFrom_eq_glue {q : Quoting} {d : Int} {s : Text} {h : Nat}
    (hhash : HashAt q d s h) (hfirst : ∀ k < h, ¬HashAt q d s k) :
    alternativesFrom q d s = glue (s.drop h) (alternativesFrom q d (s.take h)).1
      (alternativesFrom q d (s.take h)).2 := by
  induction s generalizing q d h with
  | nil => simp [HashAt] at hhash
  | cons c s ih =>
    cases h with
    | zero =>
      rw [alternativesFrom_cons, if_pos (signAt_zero.1 (hashAt_iff.1 hhash))]
      rfl
    | succ h =>
      have hnot : ¬(q = .code ∧ c = hash ∧ d ≤ 0) := fun hc =>
        hfirst 0 (Nat.succ_pos h) (hashAt_iff.2 (signAt_zero.2 hc))
      have hrest := ih (signAt_succ.1 (hashAt_iff.1 hhash)) fun k hk hat =>
        hfirst (k + 1) (Nat.succ_lt_succ hk) (hashAt_iff.2 (signAt_succ.2 hat))
      rw [List.take_succ_cons, List.drop_succ_cons, alternativesFrom_cons, alternativesFrom_cons,
        if_neg hnot, if_neg hnot, hrest]
      split_ifs
      · rfl
      · rw [glue_cons]

/-- A comment is the end of the last alternative. -/
theorem alternatives_of_startsComment {s : Text} {h : Nat} (hs : StartsComment s h) :
    alternatives s
      = glue (s.drop h) (alternatives (s.take h)).1 (alternatives (s.take h)).2 :=
  alternativesFrom_eq_glue hs.hash hs.first

/-! ## The search for blocks -/

/-- Where the search for blocks stands on a line. -/
inductive BlockSearch where
  /-- It looks for an opening brace and follows the literals. -/
  | outside (q : Quoting)
  /-- It looks for the brace that closes the block; every brace counts. -/
  | inside (depth : Int)
  deriving Repr, DecidableEq

namespace BlockSearch

/-- The search after one more byte. -/
def next : BlockSearch → UInt8 → BlockSearch
  | outside q, c => if q = .code ∧ c = openBrace then inside 1 else outside (q.next c)
  | inside depth, c =>
      if c = openBrace then inside (depth + 1)
      else if c = closeBrace then if depth = 1 then outside .code else inside (depth - 1)
      else inside depth

/-- The search after a text. -/
def after (b : BlockSearch) (s : Text) : BlockSearch := s.foldl next b

/-- The search at the start of a line. -/
def start : BlockSearch := outside .code

/-- The search finds no brace that it looks for. -/
def Idle : BlockSearch → Text → Prop
  | outside q, s => openingBraceFrom q s = none
  | inside depth, s => closingBraceFrom depth s = none

instance (b : BlockSearch) (s : Text) : Decidable (b.Idle s) :=
  match b with
  | outside q => inferInstanceAs (Decidable (openingBraceFrom q s = none))
  | inside depth => inferInstanceAs (Decidable (closingBraceFrom depth s = none))

@[simp] theorem after_nil (b : BlockSearch) : b.after [] = b := rfl

@[simp] theorem after_cons (b : BlockSearch) (c : UInt8) (s : Text) :
    b.after (c :: s) = (b.next c).after s := rfl

@[simp] theorem after_append (b : BlockSearch) (s t : Text) :
    b.after (s ++ t) = (b.after s).after t := List.foldl_append

/-- Where no block opens the search follows the literals. -/
theorem after_outside {q : Quoting} {s : Text} (h : openingBraceFrom q s = none) :
    (outside q).after s = outside (q.after s) := by
  induction s generalizing q with
  | nil => rfl
  | cons c s ih =>
    rw [openingBraceFrom] at h
    split_ifs at h with hopen
    rw [after_cons, next, if_neg hopen, ih (Option.map_eq_none_iff.1 h), Quoting.after_cons]

/-- Where the block does not close the search follows the depth. -/
theorem after_inside {d : Int} {s : Text} (h : closingBraceFrom d s = none) :
    (inside d).after s = inside (d + braceBalance s) := by
  induction s generalizing d with
  | nil => rw [after_nil, braceBalance_nil, Int.add_zero]
  | cons c s ih =>
    rw [closingBraceFrom] at h
    rw [after_cons, next]
    by_cases hopen : c = openBrace
    · rw [if_pos hopen, Option.map_eq_none_iff] at h
      rw [if_pos hopen, ih h, hopen, braceBalance_openBrace]
      congr 1
      omega
    rw [if_neg hopen] at h ⊢
    by_cases hclose : c = closeBrace
    · rw [if_pos hclose] at h ⊢
      split_ifs at h with hd
      rw [if_neg hd, ih (Option.map_eq_none_iff.1 h), hclose, braceBalance_closeBrace]
      congr 1
      omega
    · rw [if_neg hclose, Option.map_eq_none_iff] at h
      rw [if_neg hclose, ih h, braceBalance_cons hopen hclose]

/-- Behind a complete block the search starts anew. -/
theorem after_block {before inner : Text} (hbefore : Clear before) (hinner : Closed inner)
    (rest : Text) :
    start.after (before ++ (openBrace :: inner ++ closeBrace :: rest)) = start.after rest := by
  rw [start, after_append, after_outside hbefore.brace, hbefore.code, List.cons_append, after_cons,
    next, if_pos ⟨rfl, rfl⟩, after_append, after_inside hinner.inside, hinner.balance, after_cons,
    next, if_neg (by decide), if_pos rfl, if_pos (by rfl)]

/-- Braces of a text stand outside its literals. -/
def BracesInCode (s : Text) : Prop :=
  ∀ u c v, s = u ++ c :: v → isBrace c = true → Quoting.code.after u = .code

/-- On braces outside literals, none of them stray, the search follows the depth. -/
theorem after_eq {s : Text} (hcode : BracesInCode s) (hstray : ¬HasStrayBrace s) :
    0 ≤ braceBalance (unquoted s) ∧
      start.after s = if 0 < braceBalance (unquoted s) then inside (braceBalance (unquoted s))
        else outside (Quoting.code.after s) := by
  have hdepth : 0 ≤ braceBalance (unquoted s) := by
    by_contra hlt
    exact hstray ⟨s, List.prefix_rfl, by omega⟩
  refine ⟨hdepth, ?_⟩
  induction s using List.reverseRecOn with
  | nil => rfl
  | append_singleton s c ih =>
    have hstart : s <+: s ++ [c] := List.prefix_append s [c]
    have hs : 0 ≤ braceBalance (unquoted s) := by
      by_contra hlt
      exact hstray ⟨s, hstart, by omega⟩
    have hbefore := ih
      (fun u b v hu hb => hcode u b (v ++ [c]) (by rw [hu]; simp) hb)
      (fun h => hstray (h.mono hstart)) hs
    have hall : braceBalance (unquoted (s ++ [c]))
        = braceBalance (unquoted s) + byteDepth (Quoting.code.after s) c := by
      rw [unquoted, unquotedFrom_append, braceBalance_append, braceBalance_unquotedFrom_cons]
      simp [unquoted]
    have hbrace : isBrace c = true → Quoting.code.after s = .code := hcode s c [] rfl
    rw [hall] at hdepth ⊢
    rw [after_append, after_cons, after_nil, hbefore, Quoting.after_append, Quoting.after_cons,
      Quoting.after_nil]
    by_cases hopen : c = openBrace
    · -- A brace opens at any depth.
      subst hopen
      have hcode' := hbrace rfl
      have hbyte : byteDepth (Quoting.code.after s) openBrace = 1 := by
        rw [hcode']
        rfl
      rw [hbyte, if_pos (show 0 < braceBalance (unquoted s) + 1 by omega)]
      split_ifs with hpos
      · rfl
      · rw [next, if_pos ⟨hcode', rfl⟩]
        congr 1
        omega
    by_cases hclose : c = closeBrace
    · -- A brace that is not stray closes one that is open.
      subst hclose
      have hcode' := hbrace rfl
      have hbyte : byteDepth (Quoting.code.after s) closeBrace = -1 := by
        rw [hcode']
        rfl
      rw [hbyte] at hdepth ⊢
      rw [if_pos (show 0 < braceBalance (unquoted s) by omega), next, if_neg hopen, if_pos rfl]
      by_cases hone : braceBalance (unquoted s) = 1
      · rw [if_pos hone, if_neg (by omega), hcode']
        rfl
      · rw [if_neg hone, if_pos (by omega)]
        rfl
    · have hbyte : byteDepth (Quoting.code.after s) c = 0 := by
        rw [byteDepth, braceBalance_cons hopen hclose, braceBalance_nil, ite_self]
      rw [hbyte, Int.add_zero]
      split_ifs with hpos
      · rw [next, if_neg hopen, if_neg hclose]
      · rw [next, if_neg fun h => hopen h.2]

end BlockSearch

/-! ## Blocks of a text in two halves -/

/-- A block that the first half does not complete ends in the second half. -/
theorem length_lt_of_firstBlock?_append {s t rest : Text} {b : Block} (hs : firstBlock? s = none)
    (h : firstBlock? (s ++ t) = some (b, rest)) : rest.length < t.length := by
  obtain ⟨hst, hclear, hclosed⟩ := firstBlock?_eq_some_iff.1 h
  by_contra hle
  have hrest : rest <:+ s ++ t := by
    rw [hst]
    exact ⟨b.before ++ (openBrace :: b.inner ++ [closeBrace]), by simp⟩
  obtain ⟨u, rfl⟩ := List.suffix_of_suffix_length_le (List.suffix_append s t) hrest (by omega)
  have hfront : s ++ t = b.before ++ (openBrace :: b.inner ++ closeBrace :: u) ++ t := by
    rw [hst]
    simp
  rw [firstBlock?_eq_some_iff.2 ⟨List.append_cancel_right hfront, hclear, hclosed⟩] at hs
  exact absurd hs (by simp)

/-- A line with a brace has no complete block when that brace stays open. -/
theorem firstBlock?_eq_none_iff {before t : Text} (h : Clear before) :
    firstBlock? (before ++ openBrace :: t) = none ↔ closingBraceFrom 1 t = none := by
  have hopen : openingBrace? (before ++ openBrace :: t) = some before.length := by
    rw [h.openingBrace?_append]
    simp [openingBrace?, openingBraceFrom]
  have hclose : closingBraceFrom 0 (openBrace :: t) = (closingBraceFrom 1 t).map (· + 1) := rfl
  rw [firstBlock?, hopen, Option.bind_eq_bind, Option.bind_some, matchingBrace?, List.drop_left,
    hclose]
  cases closingBraceFrom 1 t <;> simp

/-! ## Braces of a comment -/

namespace BlockSearch

/-- Behind a text without a complete block the search is idle when no block of the line ends, or
opens, in what follows. -/
theorem idle_after_iff {s t : Text} (h : firstBlock? s = none) : (start.after s).Idle t ↔
    firstBlock? (s ++ t) = none ∧ ∀ i, openingBrace? (s ++ t) = some i → i < s.length := by
  cases hopen : openingBrace? s with
  | none =>
    have hboth : openingBrace? (s ++ t)
        = (openingBraceFrom (Quoting.code.after s) t).map (· + s.length) := by
      rw [openingBrace?, openingBraceFrom_append, show openingBraceFrom .code s = none from hopen]
    rw [start, after_outside hopen, Idle]
    constructor
    · intro hnone
      rw [hnone] at hboth
      refine ⟨firstBlock?_of_openingBrace? hboth, fun i hi => ?_⟩
      rw [hboth] at hi
      exact absurd hi (by simp)
    · rintro ⟨-, hbefore⟩
      cases hnext : openingBraceFrom (Quoting.code.after s) t with
      | none => rfl
      | some i =>
        rw [hnext, Option.map_some] at hboth
        have := hbefore _ hboth
        omega
  | some i =>
    obtain ⟨u, hs, hlt⟩ := openingBraceFrom_eq hopen
    have hi : (s.take i).length = i := by
      rw [List.length_take]
      omega
    have hclear : Clear (s.take i) :=
      clear_of_openingBraceFrom (t := u) (by rw [← hs, hi]; exact hopen)
    have hclose : closingBraceFrom 1 u = none := (firstBlock?_eq_none_iff hclear).1 (hs ▸ h)
    have hafter : start.after s = inside (1 + braceBalance u) := by
      rw [hs, start, after_append, after_outside hclear.brace, hclear.code, after_cons, next,
        if_pos ⟨rfl, rfl⟩, after_inside hclose]
    have hblock : firstBlock? (s ++ t) = none ↔ closingBraceFrom (1 + braceBalance u) t = none := by
      conv_lhs => rw [hs]
      rw [List.append_assoc, List.cons_append, firstBlock?_eq_none_iff hclear,
        closingBraceFrom_append, hclose, Option.map_eq_none_iff]
    have hbrace : openingBrace? (s ++ t) = some i := by
      rw [openingBrace?, openingBraceFrom_append, show openingBraceFrom .code s = some i from hopen]
    rw [hafter, Idle, ← hblock, hbrace]
    constructor
    · intro hnone
      exact ⟨hnone, fun j hj => by rw [← Option.some.inj hj]; exact hlt⟩
    · exact And.left

/-- The search that has reached the comment of a line finds nothing in it when the comment is behind
all complete blocks and has no unclosed brace. -/
theorem idle_iff (code comment : Text) : (start.after code).Idle comment ↔
    comment <:+ (blockLine (code ++ comment)).tail ∧
      ∀ i, unclosedBrace? (code ++ comment) = some i → i < code.length := by
  induction code using firstBlock?_induction with
  | block code b rest hblock ih =>
    have hlen := firstBlock?_length hblock
    obtain ⟨hcode, hclear, hclosed⟩ := firstBlock?_eq_some_iff.1 hblock
    have hafter : start.after code = start.after rest := by rw [hcode, after_block hclear hclosed]
    have hall := firstBlock?_append hblock comment
    have hshift : (code ++ comment).length - (rest ++ comment).length
        = code.length - rest.length := by
      rw [List.length_append, List.length_append]
      omega
    rw [hafter, ih, blockLine_of_firstBlock? hall, unclosedBrace?_of_block hall, hshift]
    apply and_congr_right
    intro _
    constructor
    · intro hbefore i hi
      obtain ⟨j, hj, rfl⟩ := Option.map_eq_some_iff.1 hi
      have := hbefore j hj
      omega
    · intro hbefore j hj
      have := hbefore _ (Option.map_eq_some_iff.2 ⟨j, hj, rfl⟩)
      omega
  | tail code hblock =>
    rw [idle_after_iff hblock]
    cases hall : firstBlock? (code ++ comment) with
    | none =>
      rw [blockLine_of_firstBlock?_eq_none hall, unclosedBrace?_of_firstBlock? hall]
      simp [List.suffix_append]
    | some found =>
      -- The block that the code does not complete ends in the comment.
      obtain ⟨b, rest⟩ := found
      have hlt := length_lt_of_firstBlock?_append hblock hall
      have htail := length_tail_le rest
      rw [blockLine_of_firstBlock? hall]
      constructor
      · rintro ⟨h, -⟩
        exact absurd h (by simp)
      · rintro ⟨hsuffix, -⟩
        have hle : comment.length ≤ (blockLine rest).tail.length := hsuffix.length_le
        omega

end BlockSearch

/-- No brace of the comment at position `h` is a brace of the grammar. -/
structure CommentRespected (s : Text) (h : Nat) : Prop where
  /-- An unclosed brace stands before the comment. -/
  unclosed : ∀ i, unclosedBrace? s = some i → i < h
  /-- A block that is cut off at the end of the line opens before the comment. -/
  inline : ∀ cut, splitInline? s = some cut → ∃ i, openingBrace? s = some i ∧ i < h
  /-- Changing the blocks of the line does not change the comment. -/
  kept : ∀ f, s.drop h <:+ mapBlocks f s

/-- When a block ends in the comment, changing the blocks changes the comment. -/
theorem exists_not_suffix_mapBlocks {s comment : Text} {c : UInt8} (hc : c ≠ closeBrace)
    (hs : c :: comment <:+ s) (h : ¬c :: comment <:+ (blockLine s).tail) :
    ∃ f, ¬c :: comment <:+ mapBlocks f s := by
  have hline := blockLine_eq s
  rcases List.eq_nil_or_concat (blockLine s).blocks with hblocks | ⟨bs, b, hblocks⟩
  · rw [hblocks, List.flatMap_nil, List.nil_append] at hline
    exact absurd (hline ▸ hs) h
  -- The tail and the brace in front of it are behind the start of the comment.
  have hbrace : closeBrace :: (blockLine s).tail <:+ s := by
    refine ⟨bs.flatMap (Block.text id) ++ (b.before ++ openBrace :: b.inner), ?_⟩
    conv_rhs => rw [hline, hblocks]
    simp [Block.text]
  have htail : ¬(c :: comment).length ≤ (blockLine s).tail.length := fun hle =>
    h (List.suffix_of_suffix_length_le hs ((List.suffix_cons _ _).trans hbrace) hle)
  have hlen : (closeBrace :: (blockLine s).tail).length ≤ (c :: comment).length := by
    rw [List.length_cons]
    omega
  obtain ⟨y, hy⟩ := List.suffix_of_suffix_length_le hbrace hs hlen
  rcases List.eq_nil_or_concat y with rfl | ⟨y, z, rfl⟩
  · exact absurd (List.cons.inj hy).1.symm hc
  obtain ⟨x, hx⟩ : ∃ x, x ≠ z := ⟨z + 1, by simp⟩
  refine ⟨fun _ => [x], ?_⟩
  rintro ⟨u, hu⟩
  rw [mapBlocks_eq, hblocks, ← hy] at hu
  have hcut : (u ++ y) ++ z :: closeBrace :: (blockLine s).tail
      = (bs.flatMap (Block.text fun _ => [x]) ++ (b.before ++ [openBrace]))
        ++ x :: closeBrace :: (blockLine s).tail := by
    simpa [Block.text] using hu
  have hsame := (List.append_inj' hcut rfl).2
  exact hx (List.cons.inj hsame).1.symm

theorem commentRespected_iff {s : Text} {h : Nat} (hhash : s[h]? = some hash) :
    CommentRespected s h ↔ (BlockSearch.start.after (s.take h)).Idle (s.drop h) := by
  have hlt : h < s.length := (List.getElem?_eq_some_iff.1 hhash).1
  have hlen : (s.take h).length = h := by
    rw [List.length_take]
    omega
  rw [BlockSearch.idle_iff, List.take_append_drop, hlen]
  constructor
  · intro hs
    refine ⟨by_contra fun htail => ?_, hs.unclosed⟩
    have hcomment : s.drop h = hash :: s.drop (h + 1) := by
      rw [List.drop_eq_getElem_cons hlt, (List.getElem?_eq_some_iff.1 hhash).2]
    have hsuffix := List.drop_suffix h s
    rw [hcomment] at htail hsuffix
    obtain ⟨f, hf⟩ := exists_not_suffix_mapBlocks (by decide) hsuffix htail
    exact hf (hcomment ▸ hs.kept f)
  · rintro ⟨htail, hunclosed⟩
    refine ⟨hunclosed, fun cut hcut => ?_, fun f => ?_⟩
    · obtain ⟨b, rest, hblock, -⟩ := splitInline?_eq hcut
      obtain ⟨hparts, hclear, -⟩ := firstBlock?_eq_some_iff.1 hblock
      refine ⟨b.before.length, (positions_of_firstBlock? hblock).1, ?_⟩
      have hrest := length_tail_le rest
      rw [blockLine_of_firstBlock? hblock] at htail
      have hle : (s.drop h).length ≤ (blockLine rest).tail.length := htail.length_le
      have hall := congrArg List.length hparts
      simp only [List.length_append, List.length_cons, List.length_drop] at hall hle
      omega
    · rw [mapBlocks_eq]
      exact htail.trans (List.suffix_append _ _)

/-- A comment is the end of the last alternative.  Its braces are left alone exactly when the search
for blocks, which goes through the line by its own account of literals and open braces, finds
nothing in it; on a line whose braces before the comment stand outside literals, none of them stray,
this is when the comment has no opening brace outside literals of its own. -/
theorem comment_respected_iff {s : Text} {h : Nat} (hs : StartsComment s h) :
    alternatives s = glue (s.drop h) (alternatives (s.take h)).1 (alternatives (s.take h)).2 ∧
      (CommentRespected s h ↔ (BlockSearch.start.after (s.take h)).Idle (s.drop h)) ∧
      (BlockSearch.BracesInCode (s.take h) → ¬HasStrayBrace (s.take h) →
        (CommentRespected s h ↔ openingBrace? (s.drop h) = none)) := by
  refine ⟨alternatives_of_startsComment hs, commentRespected_iff hs.hash.1, fun hcode hstray => ?_⟩
  obtain ⟨hdepth, hafter⟩ := BlockSearch.after_eq hcode hstray
  have hclosed : ¬0 < braceBalance (unquoted (s.take h)) := by
    have := hs.hash.2.2
    rw [unquoted]
    omega
  rw [commentRespected_iff hs.hash.1, hafter, if_neg hclosed, hs.hash.2.1]
  rfl

/-- A block behind the hash is changed with the blocks of the line. -/
theorem comment_respected_iff_block : StartsComment (bytes "b # \x7bx=1\x7d") 2 ∧
    alternatives (bytes "b # \x7bx=1\x7d") = (bytes "b # \x7bx=1\x7d", []) ∧
    ¬CommentRespected (bytes "b # \x7bx=1\x7d") 2 := by
  have hs : StartsComment (bytes "b # \x7bx=1\x7d") 2 := ⟨by decide, by decide⟩
  obtain ⟨halternatives, hrespected, -⟩ := comment_respected_iff hs
  refine ⟨hs, halternatives, ?_⟩
  rw [hrespected]
  decide

end GrammarLayout
