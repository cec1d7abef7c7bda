import GrammarLayout.Pass.Operators
import GrammarLayout.Proofs.Text.Lines

/-!
# Operators and what stands around them

Whether an operator is found at a byte depends on the text in front of it and
on the text behind it.

What is proved here:

* `operatorAt?_eq_some_iff` — the operators, by their bytes and what may stand
  on both sides of them;
* `Alike.of_same_end` — what stands in front matters by its last byte, unless
  that is a blank, and by its last byte that is no blank;
* `IsOperator.eq_shift` — only `<<` is found behind a sign that ends no target,
  so no operator but `<<` is found behind an operator.
-/

namespace GrammarLayout

open Ascii Text

/-! ## Recognising operators -/

/-- The bytes `op` are an operator between the text `seen`, in reverse, and the text `rest`. -/
inductive IsOperator (seen : Text) : Text → Text → Prop where
  /-- `||=` or `&&=`. -/
  | logical {op rest : Text} (hop : op = bytes "||=" ∨ op = bytes "&&=")
      (htarget : assignable seen = true) (hrest : headIn [equals] rest = false) :
      IsOperator seen op rest
  /-- `<<`, if it is not part of a longer sign and opens no text that runs over lines. -/
  | shift {rest : Text} (hseen : headIn (bytes "<") seen = false)
      (hrest : headIn (bytes "<=~-\"'") rest = false) (hname : rest.head?.any isUpper = false) :
      IsOperator seen (bytes "<<") rest
  /-- `+=` and its like. -/
  | compound {c : UInt8} {rest : Text} (hc : c ∈ bytes "+-*/") (hseen : headIn [c] seen = false)
      (htarget : assignable seen = true) (hrest : headIn [equals] rest = false) :
      IsOperator seen [c, equals] rest
  /-- `=`, if it is not part of a longer sign. -/
  | plain {rest : Text} (hseen : headIn (bytes "=!<>+-*/|&%^~") seen = false)
      (hrest : headIn (bytes "=~>") rest = false) (htarget : assignable seen = true) :
      IsOperator seen [equals] rest

theorem exists_of_startsWith {p s : Text} (h : startsWith p s = true) : ∃ rest, s = p ++ rest := by
  obtain ⟨rest, hrest⟩ := List.isPrefixOf_iff_prefix.1 h
  exact ⟨rest, hrest.symm⟩

theorem exists_of_headIn {set s : Text} (h : headIn set s = true) : ∃ c ∈ set, ∃ t, s = c :: t := by
  cases s with
  | nil => simp [headIn] at h
  | cons c t => exact ⟨c, by simpa [headIn] using h, t, rfl⟩

theorem exists_of_operatorAt? {seen s op : Text} (h : operatorAt? seen s = some op) :
    ∃ rest, s = op ++ rest ∧ IsOperator seen op rest := by
  unfold operatorAt? at h
  split at h
  · rename_i hlogical
    split at h
    · rename_i hsides
      rw [Bool.and_eq_true, Bool.not_eq_true'] at hsides
      rcases Bool.or_eq_true_iff.1 hlogical with hp | hp
      all_goals
        obtain ⟨rest, rfl⟩ := exists_of_startsWith hp
        rw [← Option.some.inj h]
      · exact ⟨rest, rfl, .logical (Or.inl rfl) hsides.1 hsides.2⟩
      · exact ⟨rest, rfl, .logical (Or.inr rfl) hsides.1 hsides.2⟩
    · exact absurd h (by simp)
  · split at h
    · rename_i hshift
      obtain ⟨rest, rfl⟩ := exists_of_startsWith hshift
      split at h
      · exact absurd h (by simp)
      · rename_i hsides
        rw [Bool.not_eq_true, Bool.or_eq_false_iff, Bool.or_eq_false_iff] at hsides
        rw [← Option.some.inj h]
        exact ⟨rest, rfl, .shift hsides.1.1 hsides.1.2 hsides.2⟩
    · split at h
      · rename_i hcompound
        rw [Bool.and_eq_true] at hcompound
        obtain ⟨c, hc, t, rfl⟩ := exists_of_headIn hcompound.1
        obtain ⟨e, he, rest, rfl⟩ := exists_of_headIn (s := t) hcompound.2
        obtain rfl : e = equals := List.mem_singleton.1 he
        split at h
        · exact absurd h (by simp)
        · rename_i hseen
          split at h
          · rename_i hsides
            rw [Bool.and_eq_true, Bool.not_eq_true'] at hsides
            rw [← Option.some.inj h]
            exact ⟨rest, rfl, .compound hc (by simpa using hseen) hsides.1 hsides.2⟩
          · exact absurd h (by simp)
      · split at h
        · rename_i hequals
          obtain ⟨rest, rfl⟩ := exists_of_startsWith hequals
          split at h
          · exact absurd h (by simp)
          · rename_i hsides
            rw [Bool.not_eq_true, Bool.or_eq_false_iff] at hsides
            split at h
            · rename_i htarget
              rw [← Option.some.inj h]
              exact ⟨rest, rfl, .plain hsides.1 hsides.2 htarget⟩
            · exact absurd h (by simp)
        · exact absurd h (by simp)

/-- An operator is found where it stands. -/
theorem IsOperator.operatorAt?_append {seen op rest : Text} (h : IsOperator seen op rest) :
    operatorAt? seen (op ++ rest) = some op := by
  cases h with
  | logical hop htarget hrest =>
    have hsides : (assignable seen && !headIn [equals] rest) = true := by
      rw [htarget, hrest]
      rfl
    rcases hop with rfl | rfl
    · exact (if_pos rfl).trans (if_pos hsides)
    · exact (if_pos rfl).trans (if_pos hsides)
  | shift hseen hrest hname =>
    have hsides : ¬(headIn (bytes "<") seen || headIn (bytes "<=~-\"'") rest
        || rest.head?.any isUpper) = true := by
      rw [hseen, hrest, hname]
      decide
    exact (if_neg Bool.false_ne_true).trans ((if_pos rfl).trans (if_neg hsides))
  | @compound c _ hc hseen htarget hrest =>
    have hsides : (assignable seen && !headIn [equals] rest) = true := by
      rw [htarget, hrest]
      rfl
    have hfree : ¬headIn [c] seen = true := by
      rw [hseen]
      exact Bool.false_ne_true
    rw [show bytes "+-*/" = [0x2B, 0x2D, 0x2A, 0x2F] from rfl] at hc
    have hsigns : c = 0x2B ∨ c = 0x2D ∨ c = 0x2A ∨ c = 0x2F := by simpa using hc
    rcases hsigns with rfl | rfl | rfl | rfl
    all_goals
      exact (if_neg Bool.false_ne_true).trans ((if_neg Bool.false_ne_true).trans
        ((if_pos rfl).trans ((if_neg hfree).trans (if_pos hsides))))
  | plain hseen hrest htarget =>
    have hsides : ¬(headIn (bytes "=!<>+-*/|&%^~") seen || headIn (bytes "=~>") rest) = true := by
      rw [hseen, hrest]
      decide
    exact (if_neg Bool.false_ne_true).trans ((if_neg Bool.false_ne_true).trans
      ((if_neg Bool.false_ne_true).trans ((if_pos rfl).trans
        ((if_neg hsides).trans (if_pos htarget)))))

/-- The operators that are found are those described by `IsOperator`. -/
theorem operatorAt?_eq_some_iff {seen s op : Text} :
    operatorAt? seen s = some op ↔ ∃ rest, s = op ++ rest ∧ IsOperator seen op rest := by
  refine ⟨exists_of_operatorAt?, ?_⟩
  rintro ⟨rest, rfl, hop⟩
  exact hop.operatorAt?_append

/-! ## The bytes of operators -/

/-- A byte that operators are made of. -/
def isOperatorByte (c : UInt8) : Bool := (bytes "|&=<+-*/").contains c

theorem isOperatorByte_spec {c : UInt8} (h : isOperatorByte c = true) :
    c < 0x80 ∧ isBlank c = false ∧ isQuote c = false ∧ c ≠ hash ∧ isTargetEnd c = false := by
  have hall : ∀ c ∈ [0x7C, 0x26, 0x3D, 0x3C, 0x2B, 0x2D, 0x2A, 0x2F], (c : UInt8) < 0x80 ∧
      isBlank c = false ∧ isQuote c = false ∧ c ≠ hash ∧ isTargetEnd c = false := by decide +kernel
  exact hall c (List.contains_iff_mem.1 h)

/-- An operator ends with an equals sign, or it is `<<`. -/
theorem IsOperator.eq_concat {seen op rest : Text} (h : IsOperator seen op rest) :
    (∃ init, op = init ++ [equals] ∧ headIn [equals] rest = false) ∨
      (op = bytes "<<" ∧ headIn (bytes "<=~-\"'") rest = false) := by
  cases h with
  | logical hop _ hrest =>
    rcases hop with rfl | rfl
    · exact Or.inl ⟨bytes "||", rfl, hrest⟩
    · exact Or.inl ⟨bytes "&&", rfl, hrest⟩
  | shift _ hrest _ => exact Or.inr ⟨rfl, hrest⟩
  | @compound c _ _ _ _ hrest => exact Or.inl ⟨[c], rfl, hrest⟩
  | plain _ hrest _ =>
    refine Or.inl ⟨[], rfl, ?_⟩
    cases rest with
    | nil => rfl
    | cons c rest =>
      rw [headIn, List.head?_cons, Option.any_some, Bool.eq_false_iff] at hrest ⊢
      intro hc
      rw [List.contains_iff_mem, List.mem_singleton] at hc
      exact hrest (hc ▸ rfl)

theorem IsOperator.made_of {seen op rest : Text} (h : IsOperator seen op rest) :
    op ≠ [] ∧ ∀ c ∈ op, isOperatorByte c = true := by
  cases h with
  | logical hop => rcases hop with rfl | rfl <;> exact ⟨by decide, by decide +kernel⟩
  | shift => exact ⟨by decide, by decide +kernel⟩
  | @compound c _ hc =>
    refine ⟨by simp, fun b hb => ?_⟩
    have hsigns : ∀ c ∈ bytes "+-*/", isOperatorByte c = true := by decide +kernel
    rcases List.mem_cons.1 hb with rfl | hb
    · exact hsigns b hc
    · rw [List.mem_singleton.1 hb]
      decide
  | plain => exact ⟨by decide, by decide +kernel⟩

theorem isOperatorByte_of_operatorAt? {seen s op : Text} (h : operatorAt? seen s = some op) :
    op ≠ [] ∧ ∀ c ∈ op, isOperatorByte c = true := by
  obtain ⟨rest, -, hop⟩ := exists_of_operatorAt? h
  exact hop.made_of

/-- No operator starts with another byte. -/
theorem operatorAt?_eq_none {c : UInt8} (hc : isOperatorByte c = false) (seen s : Text) :
    operatorAt? seen (c :: s) = none := by
  cases h : operatorAt? seen (c :: s) with
  | none => rfl
  | some op =>
    obtain ⟨hne, hop⟩ := isOperatorByte_of_operatorAt? h
    obtain ⟨rest, hs, -⟩ := exists_of_operatorAt? h
    obtain ⟨b, t, rfl⟩ := List.exists_cons_of_ne_nil hne
    rw [List.cons_append, List.cons.injEq] at hs
    have := hop b List.mem_cons_self
    rw [← hs.1, hc] at this
    exact absurd this (by simp)

/-! ## What stands before an operator -/

/-- The last byte that is no blank, of a text in reverse. -/
def lastInk (seen : Text) : Option UInt8 := (seen.dropWhile isBlank).head?

theorem lastInk_cons {c : UInt8} (hc : isBlank c = false) (seen : Text) :
    lastInk (c :: seen) = some c := by
  simp [lastInk, hc]

@[simp] theorem lastInk_blank {c : UInt8} (hc : isBlank c = true) (seen : Text) :
    lastInk (c :: seen) = lastInk seen := by
  simp [lastInk, hc]

theorem headIn_blank {c : UInt8} (hc : isBlank c = true) {set : Text}
    (hset : ∀ b ∈ set, isBlank b = false) (s : Text) : headIn set (c :: s) = false := by
  have hnot : c ∉ set := fun hmem => by simp [hset c hmem] at hc
  simp [headIn, hnot]

/-- What stands before an operator matters by its last byte, unless that is a blank, and by its last
byte that is no blank. -/
theorem IsOperator.of_same_end {seen seen' op rest : Text} (hink : lastInk seen = lastInk seen')
    (hlast : seen.head?.filter (!isBlank ·) = seen'.head?.filter (!isBlank ·))
    (hop : IsOperator seen op rest) : IsOperator seen' op rest := by
  have hassign : assignable seen = assignable seen' := congrArg (·.any isTargetEnd) hink
  have hhead : ∀ set : Text, (∀ c ∈ set, isBlank c = false) →
      headIn set seen = headIn set seen' := by
    intro set hset
    have hvisible : ∀ s : Text, headIn set s = (s.head?.filter (!isBlank ·)).any set.contains := by
      intro s
      cases s with
      | nil => rfl
      | cons c s =>
        by_cases hc : isBlank c = true
        · simp [headIn_blank hc hset, Option.filter, hc]
        · simp [headIn, hc]
    rw [hvisible, hvisible, hlast]
  cases hop with
  | logical hop htarget hrest => exact .logical hop (hassign ▸ htarget) hrest
  | shift hseen hrest hname =>
    have hset : ∀ b ∈ bytes "<", isBlank b = false := List.forall_mem_singleton.2 rfl
    exact .shift (hhead _ hset ▸ hseen) hrest hname
  | @compound c _ hc hseen htarget hrest =>
    have hvisible : ∀ c ∈ bytes "+-*/", isBlank c = false := by decide +kernel
    have hset : ∀ b ∈ [c], isBlank b = false := by simpa using hvisible c hc
    exact .compound hc (hhead _ hset ▸ hseen) (hassign ▸ htarget) hrest
  | plain hseen hrest htarget =>
    have hset : ∀ b ∈ bytes "=!<>+-*/|&%^~", isBlank b = false := by decide +kernel
    exact .plain (hhead _ hset ▸ hseen) hrest (hassign ▸ htarget)

/-- Nothing that follows tells the two texts, in reverse, apart. -/
structure Alike (seen seen' : Text) : Prop where
  /-- The last byte that is no blank is the same. -/
  lastInk : lastInk seen = lastInk seen'
  /-- The same operators are found behind them. -/
  operatorAt? (s : Text) : operatorAt? seen s = operatorAt? seen' s

namespace Alike

variable {seen seen' : Text}

theorem of_same_end (hink : GrammarLayout.lastInk seen = GrammarLayout.lastInk seen')
    (hlast : seen.head?.filter (!isBlank ·) = seen'.head?.filter (!isBlank ·)) :
    Alike seen seen' := by
  refine ⟨hink, fun s => Option.ext fun op => ?_⟩
  rw [operatorAt?_eq_some_iff, operatorAt?_eq_some_iff]
  exact ⟨fun ⟨rest, hs, hop⟩ => ⟨rest, hs, hop.of_same_end hink hlast⟩,
    fun ⟨rest, hs, hop⟩ => ⟨rest, hs, hop.of_same_end hink.symm hlast.symm⟩⟩

theorem symm (h : Alike seen seen') : Alike seen' seen :=
  ⟨h.lastInk.symm, fun s => (h.operatorAt? s).symm⟩

theorem trans {seen'' : Text} (h : Alike seen seen') (h' : Alike seen' seen'') :
    Alike seen seen'' :=
  ⟨h.lastInk.trans h'.lastInk, fun s => (h.operatorAt? s).trans (h'.operatorAt? s)⟩

theorem cons {c : UInt8} (hc : isBlank c = false) (seen seen' : Text) :
    Alike (c :: seen) (c :: seen') :=
  of_same_end (by rw [lastInk_cons hc, lastInk_cons hc]) rfl

theorem blank {b c : UInt8} (hb : isBlank b = true) (hc : isBlank c = true)
    (h : GrammarLayout.lastInk seen = GrammarLayout.lastInk seen') :
    Alike (b :: seen) (c :: seen') :=
  of_same_end (by rw [lastInk_blank hb, lastInk_blank hc, h]) (by simp [Option.filter, hb, hc])

/-- Blanks behind blanks alone. -/
theorem blank_of_lastInk_eq_none {c : UInt8} (hc : isBlank c = true)
    (h : GrammarLayout.lastInk seen = none) : Alike seen (c :: seen) := by
  refine of_same_end (lastInk_blank hc seen).symm ?_
  cases seen with
  | nil => simp [Option.filter, hc]
  | cons b seen =>
    cases hb : isBlank b with
    | true => simp [Option.filter, hb, hc]
    | false => rw [lastInk_cons hb] at h; exact absurd h (by simp)

theorem isOperator (h : Alike seen seen') {op rest : Text} (hop : IsOperator seen op rest) :
    IsOperator seen' op rest := by
  obtain ⟨rest', hrest, hop'⟩ := exists_of_operatorAt?
    ((h.operatorAt? _).symm.trans hop.operatorAt?_append)
  exact List.append_cancel_left hrest ▸ hop'

end Alike

/-- Behind a sign that ends no target only `<<` can follow. -/
theorem IsOperator.eq_shift {seen op rest : Text} (h : IsOperator seen op rest)
    (hseen : assignable seen = false) : op = bytes "<<" ∧ headIn (bytes "<") seen = false ∧
      ∀ seen', headIn (bytes "<") seen' = false → IsOperator seen' op rest := by
  cases h with
  | logical _ htarget _ => rw [hseen] at htarget; exact absurd htarget (by simp)
  | shift hbefore hrest hname => exact ⟨rfl, hbefore, fun _ hbefore' => .shift hbefore' hrest hname⟩
  | compound _ _ htarget _ => rw [hseen] at htarget; exact absurd htarget (by simp)
  | plain _ _ htarget => rw [hseen] at htarget; exact absurd htarget (by simp)

/-- A space in front of an operator changes nothing. -/
theorem IsOperator.space_before {seen op rest : Text} (h : IsOperator seen op rest) :
    IsOperator (space :: seen) op rest := by
  cases h with
  | logical hop htarget hrest => exact .logical hop htarget hrest
  | shift _ hrest hname => exact .shift rfl hrest hname
  | @compound c _ hc _ htarget hrest =>
    have hvisible : ∀ c ∈ bytes "+-*/", isBlank c = false := by decide +kernel
    have hset : ∀ b ∈ [c], isBlank b = false := by simpa using hvisible c hc
    exact .compound hc (headIn_blank rfl hset seen) htarget hrest
  | plain _ hrest htarget => exact .plain rfl hrest htarget

/-- What stands behind an operator matters by its first byte, unless that is layout. -/
theorem IsOperator.of_rest {seen op rest rest' : Text} (h : IsOperator seen op rest)
    (hrest : ∀ p : UInt8 → Bool, (∀ c, isLayout c = true → p c = false) →
      rest.head?.any p = false → rest'.head?.any p = false) : IsOperator seen op rest' := by
  have hset : ∀ set : Text, (∀ c ∈ set, isLayout c = false) →
      headIn set rest = false → headIn set rest' = false := by
    intro set hset
    refine hrest _ fun c hc => ?_
    rw [← Bool.not_eq_true, List.contains_iff_mem]
    exact fun hmem => absurd hc (by simp [hset c hmem])
  have hupper : ∀ c, isLayout c = true → isUpper c = false := by
    intro c hc
    have hsigns : ((c = space ∨ c = tab) ∨ c = carriageReturn) ∨ c = newline := by
      simpa [isLayout, isBlank] using hc
    rcases hsigns with ((rfl | rfl) | rfl) | rfl <;> rfl
  cases h with
  | logical hop htarget hfollow =>
    exact .logical hop htarget (hset _ (by decide +kernel) hfollow)
  | shift hseen hfollow hname =>
    exact .shift hseen (hset _ (by decide +kernel) hfollow) (hrest _ hupper hname)
  | compound hc hseen htarget hfollow =>
    exact .compound hc hseen htarget (hset _ (by decide +kernel) hfollow)
  | plain hseen hfollow htarget => exact .plain hseen (hset _ (by decide +kernel) hfollow) htarget

/-- The last byte of an operator is visible and ends no target. -/
theorem IsOperator.exists_last {seen op rest : Text} (h : IsOperator seen op rest) :
    ∃ c t, op.reverse = c :: t ∧ isBlank c = false ∧ isTargetEnd c = false := by
  obtain ⟨hne, hbytes⟩ := h.made_of
  obtain ⟨c, t, hct⟩ := List.exists_cons_of_ne_nil (List.reverse_ne_nil_iff.2 hne)
  obtain ⟨-, hblank, -, -, hend⟩ :=
    isOperatorByte_spec (hbytes c (List.mem_reverse.1 (hct ▸ List.mem_cons_self)))
  exact ⟨c, t, hct, hblank, hend⟩

theorem IsOperator.lastInk {seen op rest : Text} (h : IsOperator seen op rest) (seen' : Text) :
    lastInk (op.reverse ++ seen') = op.reverse.head? := by
  obtain ⟨c, t, hct, hblank, -⟩ := h.exists_last
  rw [hct, List.cons_append, lastInk_cons hblank, List.head?_cons]

theorem IsOperator.isSome_lastInk {seen op rest : Text} (h : IsOperator seen op rest)
    (seen' : Text) : (GrammarLayout.lastInk (op.reverse ++ seen')).isSome = true := by
  obtain ⟨c, t, hct, -⟩ := h.exists_last
  rw [h.lastInk, hct]
  rfl

/-- Nothing can be assigned to behind an operator. -/
theorem IsOperator.not_assignable {seen op rest : Text} (h : IsOperator seen op rest) :
    assignable (op.reverse ++ seen) = false := by
  obtain ⟨c, t, hct, hblank, hend⟩ := h.exists_last
  simp [assignable, hct, hblank, hend]

/-- A space written behind an operator changes nothing for what follows it. -/
theorem IsOperator.operatorAt?_behind {seen op rest : Text} (h : IsOperator seen op rest) :
    operatorAt? (op.reverse ++ seen) rest = operatorAt? (space :: (op.reverse ++ seen)) rest := by
  refine Option.ext fun op' => ?_
  rw [operatorAt?_eq_some_iff, operatorAt?_eq_some_iff]
  constructor
  · rintro ⟨after, hrest, hop'⟩
    exact ⟨after, hrest, hop'.space_before⟩
  · rintro ⟨after, rfl, hop'⟩
    refine ⟨after, rfl, ?_⟩
    obtain ⟨-, -, hshift⟩ := hop'.eq_shift h.not_assignable
    refine hshift _ ?_
    rcases h.eq_concat with ⟨init, rfl, -⟩ | ⟨rfl, hfollow⟩
    · rw [List.reverse_append]
      rfl
    · obtain ⟨rfl, -⟩ := hop'.eq_shift h.not_assignable
      exact Bool.noConfusion (show true = false from hfollow)

end GrammarLayout
