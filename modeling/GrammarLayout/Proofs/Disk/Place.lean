import GrammarLayout.Proofs.Disk.Holding
import GrammarLayout.Proofs.Disk.Path
import GrammarLayout.Proofs.Except

/-!
# Where paths lead

A path may be spelled in many ways.  Where it leads depends on its parts after
cleaning only, so all spellings that lead anywhere lead to the same place, and
names put below a path lead to the place below.

What is proved here:

* `Disk.place_eq` — the place of a path, from its cleaned parts;
* `Disk.place_below` — the place of names below a path;
* `Disk.find_inj` — spellings of one path find the same.
-/

namespace GrammarLayout

open Ascii Text

namespace Disk

variable {d : Disk}

/-! ## Steps -/

theorem step_name {n : Text} (h : Path.IsName n) (loc : Location) : step loc n = loc ++ [n] := by
  rw [step, if_neg h.ne_dot, if_neg h.ne_up]

theorem foldl_step_names {ns : List Text} (h : ∀ n ∈ ns, Path.IsName n) (loc : Location) :
    ns.foldl step loc = loc ++ ns := by
  induction ns generalizing loc with
  | nil => simp
  | cons n ns ih =>
    rw [List.foldl_cons, step_name (h n List.mem_cons_self),
      ih (fun m hm => h m (List.mem_cons_of_mem n hm)), List.append_assoc]
    rfl

/-! ## Spellings of a path -/

theorem step_of_isPart {q : Text} (h : Path.IsPart q) (loc : Location) :
    step loc q = if q = Path.up then loc.dropLast else loc ++ [q] := by
  rw [step, if_neg h.ne_dot]

/-- One more part on the stack leads where a step from its place leads.  At the root there is no
way up. -/
theorem foldl_step_push {abs : Bool} {start : Location} (hstart : abs = true → start = [])
    {stack : List Text} (hstack : ∀ q ∈ stack, Path.IsPart q) {q : Text} (hq : q ≠ []) :
    (Path.push abs stack q).reverse.foldl step start
      = step (stack.reverse.foldl step start) q := by
  have hput : (q :: stack).reverse.foldl step start
      = step (stack.reverse.foldl step start) q := by
    rw [List.reverse_cons, List.foldl_append]
    rfl
  by_cases hdot : q = [dot]
  · rw [Path.push.eq_def, if_pos (Or.inr hdot), step, if_pos hdot]
  · rw [Path.push.eq_def, if_neg (by simp [hq, hdot])]
    by_cases hup : q = Path.up
    · subst hup
      rw [if_pos rfl]
      cases stack with
      | nil =>
        cases abs with
        | true => simp [hstart rfl, step, hdot]
        | false => exact hput
      | cons top rest =>
        dsimp only
        by_cases htop : top = Path.up
        · rw [if_pos htop]
          exact hput
        · -- The way up leaves the place that the part on top led to.
          have hleft : (top :: rest).reverse.foldl step start
              = rest.reverse.foldl step start ++ [top] := by
            rw [List.reverse_cons, List.foldl_append, List.foldl_cons, List.foldl_nil,
              step_of_isPart (hstack top List.mem_cons_self), if_neg htop]
          rw [if_neg htop, hleft, step, if_neg hdot, if_pos rfl, List.dropLast_concat]
    · rw [if_neg hup]
      exact hput

theorem foldl_step_names_eq {abs : Bool} {start : Location} (hstart : abs = true → start = [])
    {ps : List Text} (hps : ∀ p ∈ ps, slash ∉ p) :
    (ps.filter fun n => !n.isEmpty).foldl step start
      = (ps.foldl (Path.push abs) []).reverse.foldl step start := by
  induction ps using List.reverseRecOn with
  | nil => rfl
  | append_singleton ps p ih =>
    have hinit : ∀ q ∈ ps, slash ∉ q := fun q hq => hps q (List.mem_append_left _ hq)
    rw [List.filter_append, List.foldl_append, ih hinit, List.foldl_append, List.foldl_cons,
      List.foldl_nil]
    by_cases hp : p = []
    · simp [hp, Path.push]
    · rw [foldl_step_push hstart (Path.isPart_of_mem_foldl_push (by simp) hinit) hp]
      simp [hp]

/-- The place of a path, from its cleaned parts. -/
theorem place_eq (d : Disk) (path : Text) :
    d.place path = (Path.parts path).foldl step (d.origin path) := by
  have hstart : Path.isAbsolute path = true → d.origin path = [] := fun h => by rw [origin, if_pos h]
  exact foldl_step_names_eq hstart fun _ h => notMem_of_mem_splitOn h

/-- Spellings of one path lead to one place. -/
theorem place_congr (d : Disk) {path path' : Text} (h : Path.clean path = Path.clean path') :
    d.place path = d.place path' := by
  obtain ⟨habs, hparts⟩ := Path.clean_eq_iff.1 h
  rw [place_eq, place_eq, origin, origin, habs, hparts]

theorem exists_locate_of_find {path : Text} {n : Node} (h : d.find path = .ok n) :
    ∃ loc, d.locate path = .ok loc := by
  obtain ⟨loc, hloc, -⟩ := exists_of_bind_eq_ok h
  exact ⟨loc, hloc⟩

theorem get?_place_of_find {path : Text} {n : Node} (h : d.find path = .ok n) :
    d.root.get? (d.place path) = some n := by
  cases hloc : d.locate path with
  | error f =>
    rw [find, hloc] at h
    exact absurd h (by simp [bind, Except.bind])
  | ok loc =>
    simp only [find, hloc, bind, Except.bind, throw, throwThe, MonadExceptOf.throw, pure,
      Except.pure] at h
    rw [← locate_eq_place hloc]
    cases hget : d.root.get? loc with
    | none => simp [hget] at h
    | some m =>
      rw [hget] at h
      cases m with
      | dir entries => exact congrArg some (Except.ok.inj h)
      | file t =>
        dsimp only at h
        split at h
        · exact absurd h (by simp)
        · exact congrArg some (Except.ok.inj h)

/-- Spellings of one path find the same, as far as they find anything. -/
theorem find_inj {path path' : Text} {n n' : Node} (hclean : Path.clean path = Path.clean path')
    (h : d.find path = .ok n) (h' : d.find path' = .ok n') : n = n' := by
  have hplace := get?_place_of_find h
  rw [place_congr d hclean, get?_place_of_find h'] at hplace
  exact (Option.some.inj hplace).symm

/-! ## Names below a path -/

section Below

variable (d : Disk) (p : Text) {ns : List Text} (hne : ns ≠ []) (h : ∀ n ∈ ns, Path.IsName n)
include hne h

/-- Names below a path lead from where the parts of the path are. -/
theorem names_below :
    names (Path.ofParts (Path.isAbsolute p) (Path.parts p ++ ns)) = Path.parts p ++ ns :=
  Path.names_ofParts _ (by simp [hne]) (Path.isPart_of_mem_parts_append h)

theorem origin_below :
    d.origin (Path.ofParts (Path.isAbsolute p) (Path.parts p ++ ns)) = d.origin p := by
  rw [origin, origin, Path.isAbsolute_ofParts _ (by simp [hne]) (Path.isPart_of_mem_parts_append h)]

theorem place_below :
    d.place (Path.ofParts (Path.isAbsolute p) (Path.parts p ++ ns))
      = (Path.parts p).foldl step (d.origin p) ++ ns := by
  rw [place, names_below p hne h, d.origin_below p hne h, List.foldl_append, foldl_step_names h]

end Below

end Disk

end GrammarLayout
