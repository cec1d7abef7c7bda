import GrammarLayout.Proofs.Disk.Path
import GrammarLayout.Proofs.Lookup

/-!
# Tidy trees

In a tree of files as disks hold them a directory names each of its entries
once, by a name that leads down.  This holds of every directory below, too, and
the places that hold something are lists of names.

What is proved here:

* `Node.Tidy.get?` — what a tidy tree holds is tidy;
* `Node.Tidy.isName` — its places are made of names.
-/

namespace GrammarLayout

namespace Node

/-- Every directory of the tree names each entry once, by a name that leads down. -/
inductive Tidy : Node → Prop where
  /-- A file. -/
  | file (t : Text) : Tidy (.file t)
  /-- A directory of tidy trees. -/
  | dir {entries : List (Text × Node)} (once : (entries.map Prod.fst).Nodup)
      (named : ∀ e ∈ entries, Path.IsName e.1) (below : ∀ e ∈ entries, Tidy e.2) :
      Tidy (.dir entries)

/-- What is below a directory is in one of its entries. -/
theorem exists_of_get?_cons {n m : Node} {name : Text} {loc : Location}
    (h : n.get? (name :: loc) = some m) :
    ∃ entries child, n = .dir entries ∧ entries.lookup name = some child ∧
      child.get? loc = some m := by
  cases n with
  | file t => cases h
  | dir entries =>
    obtain ⟨child, hchild, hrest⟩ := Option.bind_eq_some_iff.1 h
    exact ⟨entries, child, rfl, hchild, hrest⟩

variable {n m : Node} {loc : Location}

/-- What a tidy tree holds is tidy. -/
theorem Tidy.get? (hn : n.Tidy) (h : n.get? loc = some m) : m.Tidy := by
  induction loc generalizing n with
  | nil =>
    rw [Node.get?, Option.some.injEq] at h
    rwa [← h]
  | cons name loc ih =>
    obtain ⟨entries, child, rfl, hchild, hrest⟩ := exists_of_get?_cons h
    cases hn with
    | dir _ _ below => exact ih (below _ (mem_of_lookup hchild)) hrest

/-- The places of a tidy tree are made of names. -/
theorem Tidy.isName (hn : n.Tidy) (h : n.get? loc = some m) : ∀ name ∈ loc, Path.IsName name := by
  induction loc generalizing n with
  | nil => simp
  | cons name loc ih =>
    obtain ⟨entries, child, rfl, hchild, hrest⟩ := exists_of_get?_cons h
    cases hn with
    | dir _ named below =>
      have hmem := mem_of_lookup hchild
      intro name' hname'
      rcases List.mem_cons.1 hname' with rfl | hname'
      · exact named _ hmem
      · exact ih (below _ hmem) hrest name' hname'

end Node

end GrammarLayout
