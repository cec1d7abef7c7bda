import Mathlib.Data.List.Forall2

/-!
# Computations that may fail

Reading a grammar and reading a style go on step after step until one fails.
This file holds what is used of such computations: what a success says of the
steps, and when two computations agree.

What is proved here:

* `exists_of_bind_eq_ok`, `map_eq_ok_iff` — the steps of a computation that
  succeeds;
* `exists_mapM_eq_ok`, `exists_of_mapM_eq_ok` — computations that all succeed;
* `exists_of_foldlM_eq_error` — the step at which a computation fails;
* `mapError_bind`, `mapError_foldlM` — steps whose errors are told otherwise;
* `Agree.bind`, `Agree.foldlM` — computations made of steps that agree.
-/

namespace GrammarLayout

/-! ## Success -/

theorem exists_of_bind_eq_ok {ε α β : Type} {x : Except ε α} {f : α → Except ε β} {b : β}
    (h : x >>= f = .ok b) : ∃ a, x = .ok a ∧ f a = .ok b := by
  cases x with
  | error e => simp [bind, Except.bind] at h
  | ok a => exact ⟨a, rfl, h⟩

theorem map_eq_ok_iff {ε α β : Type} {f : α → β} {x : Except ε α} {b : β} :
    x.map f = .ok b ↔ ∃ a, x = .ok a ∧ f a = b := by
  cases x <;> simp [Except.map]

theorem map_inj {ε α β : Type} {f : α → β} (hf : Function.Injective f) {x y : Except ε α} :
    x.map f = y.map f ↔ x = y := by
  cases x <;> cases y <;> simp [Except.map, hf.eq_iff]

/-- Where each of the computations succeeds they succeed together, and what they find together is
what one of them finds. -/
theorem exists_mapM_eq_ok {ε α β : Type} {f : α → Except ε (List β)} {R : α → β → Prop}
    {as : List α} (h : ∀ a ∈ as, ∃ bs, f a = .ok bs ∧ ∀ b, b ∈ bs ↔ R a b) :
    ∃ bss, as.mapM f = .ok bss ∧ ∀ b, b ∈ bss.flatten ↔ ∃ a ∈ as, R a b := by
  induction as with
  | nil => exact ⟨[], rfl, by simp⟩
  | cons a as ih =>
    obtain ⟨⟨bs, hbs, hfirst⟩, hrest⟩ := List.forall_mem_cons.1 h
    obtain ⟨bss, hbss, hlater⟩ := ih hrest
    refine ⟨bs :: bss, ?_, fun b => ?_⟩
    · rw [List.mapM_cons, hbs, hbss]
      rfl
    · rw [List.flatten_cons, List.mem_append, hfirst, hlater]
      simp

theorem exists_of_mapM_eq_ok {ε α β : Type} {f : α → Except ε β} {as : List α} {bs : List β}
    (h : as.mapM f = .ok bs) : ∀ a ∈ as, ∃ b, f a = .ok b := by
  induction as generalizing bs with
  | nil => simp
  | cons a as ih =>
    rw [List.mapM_cons] at h
    obtain ⟨b, hb, h⟩ := exists_of_bind_eq_ok h
    obtain ⟨rest, hrest, -⟩ := exists_of_bind_eq_ok h
    exact List.forall_mem_cons.2 ⟨⟨b, hb⟩, ih hrest⟩

/-! ## Failure -/

/-- The error of a computation that fails. -/
def error? {ε α : Type} : Except ε α → Option ε
  | .error e => some e
  | .ok _ => none

theorem error?_eq_none_iff {ε α : Type} {x : Except ε α} :
    error? x = none ↔ ∃ a, x = .ok a := by
  cases x <;> simp [error?]

theorem error?_eq_some_iff {ε α : Type} {x : Except ε α} {e : ε} :
    error? x = some e ↔ x = .error e := by
  cases x <;> simp [error?]

theorem error?_map {ε α β : Type} (f : α → β) (x : Except ε α) :
    error? (x.map f) = error? x := by
  cases x <;> rfl

theorem bind_eq_error_iff {ε α β : Type} {x : Except ε α} {f : α → Except ε β} {e : ε} :
    x >>= f = .error e ↔ x = .error e ∨ ∃ a, x = .ok a ∧ f a = .error e := by
  cases x <;> simp [bind, Except.bind]

/-- The first error of a computation and of what follows it is the error of the two together. -/
theorem bind_eq_error_of_first {ε α β : Type} {x : Except ε α} {f : α → Except ε β} {e : ε}
    {later : Option ε} (h : (error? x).or later = some e)
    (hlater : ∀ a, later = some e → f a = .error e) : x >>= f = .error e := by
  cases x with
  | error e' =>
    rw [error?, Option.some_or, Option.some.injEq] at h
    rw [h]
    rfl
  | ok a => exact hlater a h

section Steps

variable {ε α β : Type} {f : α → β → Except ε α} {a : α}

/-- The steps after others go on from the result of these. -/
theorem foldlM_append_of_ok {a' : α} {before : List β} (h : before.foldlM f a = .ok a')
    (after : List β) : (before ++ after).foldlM f a = after.foldlM f a' := by
  rw [List.foldlM_append, h]
  rfl

/-- Steps fail at one of them, behind others that succeed. -/
theorem exists_of_foldlM_eq_error {bs : List β} {e : ε} (h : bs.foldlM f a = .error e) :
    ∃ before b after a', bs = before ++ b :: after ∧ before.foldlM f a = .ok a' ∧
      f a' b = .error e := by
  induction bs generalizing a with
  | nil => exact absurd h (by simp [pure, Except.pure])
  | cons b bs ih =>
    rw [List.foldlM_cons, bind_eq_error_iff] at h
    rcases h with h | ⟨next, hnext, h⟩
    · exact ⟨[], b, bs, a, rfl, rfl, h⟩
    · obtain ⟨before, b', after, a', rfl, hbefore, hfail⟩ := ih h
      refine ⟨b :: before, b', after, a', rfl, ?_, hfail⟩
      rw [List.foldlM_cons, hnext]
      exact hbefore

theorem foldlM_eq_error_of_step {before : List β} {b : β} {a' : α} {e : ε}
    (hbefore : before.foldlM f a = .ok a') (hfail : f a' b = .error e) (after : List β) :
    (before ++ b :: after).foldlM f a = .error e := by
  rw [foldlM_append_of_ok hbefore, List.foldlM_cons, hfail]
  rfl

end Steps

/-! ## Other errors -/

section MapError

variable {ε ε' α β : Type} (h : ε → ε')

theorem mapError_map (x : Except ε α) (f : α → β) :
    (x.map f).mapError h = (x.mapError h).map f := by
  cases x <;> rfl

theorem mapError_bind (x : Except ε α) (f : α → Except ε β) :
    (x >>= f).mapError h = x.mapError h >>= fun a => (f a).mapError h := by
  cases x <;> rfl

theorem mapError_foldlM (f : α → β → Except ε α) (bs : List β) (a : α) :
    (bs.foldlM f a).mapError h = bs.foldlM (fun a b => (f a b).mapError h) a := by
  induction bs generalizing a with
  | nil => rfl
  | cons b bs ih =>
    rw [List.foldlM_cons, List.foldlM_cons, mapError_bind]
    simp only [ih]

end MapError

/-! ## Two computations -/

/-- The two fail with the same error, or give results of which `R` holds. -/
inductive Agree {ε α β : Type} (R : α → β → Prop) : Except ε α → Except ε β → Prop where
  /-- The same error. -/
  | error (e : ε) : Agree R (.error e) (.error e)
  /-- Results of which `R` holds. -/
  | ok {a : α} {b : β} (h : R a b) : Agree R (.ok a) (.ok b)

namespace Agree

variable {ε α β γ δ : Type} {R : α → β → Prop} {S : γ → δ → Prop}

theorem bind_of_eq {x : Except ε α} {y : Except ε β} {f : α → Except ε γ} {g : β → Except ε δ}
    (h : Agree R x y) (hfg : ∀ a b, x = .ok a → y = .ok b → R a b → Agree S (f a) (g b)) :
    Agree S (x >>= f) (y >>= g) := by
  cases h with
  | error e => exact .error e
  | ok hab => exact hfg _ _ rfl rfl hab

theorem bind {x : Except ε α} {y : Except ε β} {f : α → Except ε γ} {g : β → Except ε δ}
    (h : Agree R x y) (hfg : ∀ a b, R a b → Agree S (f a) (g b)) :
    Agree S (x >>= f) (y >>= g) :=
  h.bind_of_eq fun a b _ _ => hfg a b

theorem map {x : Except ε α} {y : Except ε β} {f : α → γ} {g : β → δ} (h : Agree R x y)
    (hfg : ∀ a b, R a b → S (f a) (g b)) : Agree S (x.map f) (y.map g) := by
  cases h with
  | error e => exact .error e
  | ok hab => exact .ok (hfg _ _ hab)

theorem foldlM {f : α → γ → Except ε α} {g : β → δ → Except ε β}
    (hfg : ∀ a b c d, R a b → S c d → Agree R (f a c) (g b d)) {cs : List γ} {ds : List δ}
    (hcs : List.Forall₂ S cs ds) {a : α} {b : β} (hab : R a b) :
    Agree R (cs.foldlM f a) (ds.foldlM g b) := by
  induction hcs generalizing a b with
  | nil => exact .ok hab
  | cons hcd _ ih =>
    rw [List.foldlM_cons, List.foldlM_cons]
    exact (hfg _ _ _ _ hab hcd).bind fun a b hab => ih hab

end Agree

end GrammarLayout
