import GrammarLayout.Proofs.Lookup
import GrammarLayout.Proofs.Source.Lines
import Mathlib.Data.List.Induction

/-!
# Versions of files

A set of files only grows: each version that is added gets the next number and
is kept under it, and the index leads from each cleaned path to the number of
the version that was added last.

What is proved here:

* `mem_newlinesFrom`, `increasing_newlinesFrom` — the places of newlines in a content;
* `FileSet.Keeps.step` — what one more version changes;
* `FileSet.versions_kept` — what a set tells after any versions were added.
-/

namespace GrammarLayout

open Ascii Text

/-! ## The places of newlines -/

theorem mem_newlinesFrom (i : Nat) (s : Text) (place : Nat) :
    place ∈ newlinesFrom i s ↔ i ≤ place ∧ s[place - i]? = some newline := by
  induction s generalizing i with
  | nil => simp [newlinesFrom]
  | cons c s ih =>
    have hrest : place ∈ newlinesFrom (i + 1) s
        ↔ i < place ∧ (c :: s)[place - i]? = some newline := by
      rw [ih, Nat.succ_le_iff]
      refine and_congr_right fun hlt => ?_
      rw [show place - i = place - (i + 1) + 1 by omega, List.getElem?_cons_succ]
    have hfirst : place = i → (c :: s)[place - i]? = some c := by
      rintro rfl
      rw [Nat.sub_self, List.getElem?_cons_zero]
    rw [newlinesFrom]
    split
    · rename_i hc
      rw [List.mem_cons, hrest]
      grind
    · rename_i hc
      rw [hrest]
      grind

/-- Newlines are listed from the first to the last. -/
theorem increasing_newlinesFrom (i : Nat) (s : Text) : (newlinesFrom i s).Pairwise (· < ·) := by
  induction s generalizing i with
  | nil => exact .nil
  | cons c s ih =>
    rw [newlinesFrom]
    split
    · refine .cons (fun place hplace => ?_) (ih (i + 1))
      exact ((mem_newlinesFrom (i + 1) s place).1 hplace).1
    · exact ih (i + 1)

/-! ## Adding versions -/

/-- A version of a file that is added to a set. -/
inductive Addition where
  /-- A content that is normalized already, with the flags that tell its form. -/
  | file (path content : Text) (flags : FileFlags)
  /-- A content that is given as text and not from disk. -/
  | text (path content : Text)

namespace Addition

/-- The path under which the version is added. -/
def path : Addition → Text
  | file p _ _ => p
  | text p _ => p

/-- The content that is kept. -/
def content : Addition → Text
  | file _ t _ => t
  | text _ t => (normalize t).1

/-- The flags that are kept. -/
def flags : Addition → FileFlags
  | file _ _ f => f
  | text _ t => (normalize t).2 ||| .isVirtual

end Addition

/-- The file holds what was added. -/
structure SourceFile.Holds (f : SourceFile) (a : Addition) : Prop where
  /-- The path is cleaned. -/
  path : f.path = Path.clean a.path
  /-- The content is kept. -/
  content : f.content = a.content
  /-- The flags are kept. -/
  flags : f.flags = a.flags
  /-- The digest is that of the content. -/
  hash : f.hash = sha256 a.content
  /-- The places of all newlines are known, … -/
  newlines : ∀ place, place ∈ f.newlines ↔ a.content[place]? = some newline
  /-- … in their order. -/
  increasing : f.newlines.Pairwise (· < ·)

/-- The addition with this number is the last one under the path, however it is spelled. -/
structure IsLatest (additions : List Addition) (path : Text) (id : Nat) : Prop where
  /-- It was added under the path. -/
  added : ∃ a, additions[id]? = some a ∧ Path.clean a.path = Path.clean path
  /-- No later one was. -/
  last : ∀ n a, id < n → additions[n]? = some a → Path.clean a.path ≠ Path.clean path

theorem isLatest_concat_of_eq {additions : List Addition} {a : Addition} {path : Text} {id : Nat}
    (h : Path.clean a.path = Path.clean path) :
    IsLatest (additions ++ [a]) path id ↔ id = additions.length := by
  constructor
  · rintro ⟨⟨b, hb, -⟩, hlast⟩
    have hid := (List.getElem?_eq_some_iff.1 hb).1
    rw [List.length_append, List.length_singleton] at hid
    have hend : ¬id < additions.length := fun hlt => hlast _ a hlt List.getElem?_concat_length h
    omega
  · rintro rfl
    refine ⟨⟨a, List.getElem?_concat_length, h⟩, fun n b hn hb => ?_⟩
    have hlt := (List.getElem?_eq_some_iff.1 hb).1
    rw [List.length_append, List.length_singleton] at hlt
    omega

theorem isLatest_concat_of_ne {additions : List Addition} {a : Addition} {path : Text} {id : Nat}
    (h : Path.clean a.path ≠ Path.clean path) :
    IsLatest (additions ++ [a]) path id ↔ IsLatest additions path id := by
  have hsame : ∀ (n : Nat) (b : Addition), Path.clean b.path = Path.clean path →
      ((additions ++ [a])[n]? = some b ↔ additions[n]? = some b) := by
    intro n b hb
    rw [List.getElem?_append]
    split
    · exact Iff.rfl
    · rename_i hn
      rw [List.getElem?_eq_none (Nat.le_of_not_lt hn)]
      refine ⟨fun hlast => ?_, fun hnone => absurd hnone (by simp)⟩
      obtain rfl := List.mem_singleton.1 (List.mem_of_getElem? hlast)
      exact absurd hb h
  constructor
  · rintro ⟨⟨b, hb, hpath⟩, hlast⟩
    exact ⟨⟨b, (hsame id b hpath).1 hb, hpath⟩,
      fun n b hn hb hpath => hlast n b hn ((hsame n b hpath).2 hb) hpath⟩
  · rintro ⟨⟨b, hb, hpath⟩, hlast⟩
    exact ⟨⟨b, (hsame id b hpath).2 hb, hpath⟩,
      fun n b hn hb hpath => hlast n b hn ((hsame n b hpath).1 hb) hpath⟩

namespace FileSet

theorem lookup_setLatest (path key : Text) (id : Nat) (index : PathIndex) :
    (setLatest path id index).lookup key = if key = path then some id else index.lookup key := by
  refine lookup_of_setter ?_ (fun k old rest => ?_) key index
  · rw [setLatest]
  · rw [setLatest]

/-- The set with a version added, and that version. -/
def enter (fs : FileSet) : Addition → FileSet × SourceFile
  | .file path content flags => fs.add path content flags
  | .text path content => fs.addVirtual path content

/-- The set with versions added one after the other, and these versions. -/
def enterAll (additions : List Addition) : FileSet × List SourceFile :=
  additions.foldl (fun s a => ((s.1.enter a).1, s.2 ++ [(s.1.enter a).2])) ({}, [])

theorem enter_eq (fs : FileSet) (a : Addition) :
    fs.enter a = fs.add a.path a.content a.flags := by
  cases a <;> rfl

theorem holds_enter (fs : FileSet) (a : Addition) : (fs.enter a).2.Holds a := by
  rw [enter_eq]
  refine ⟨rfl, rfl, rfl, rfl, fun place => ?_, increasing_newlinesFrom 0 _⟩
  exact (mem_newlinesFrom 0 a.content place).trans (by simp)

/-- What a set of files tells after versions were added. -/
structure Keeps (fs : FileSet) (additions : List Addition) : Prop where
  /-- There are as many versions as were added. -/
  size : fs.files.length = additions.length
  /-- Each is kept under its number. -/
  kept : ∀ (n : Nat) (a : Addition), additions[n]? = some a →
    ∃ f : SourceFile, fs.files[n]? = some f ∧ f.id = n ∧ f.Holds a
  /-- A path leads nowhere as long as nothing was added under it. -/
  absent : ∀ path, fs.latest? path = none
    ↔ ∀ a ∈ additions, Path.clean a.path ≠ Path.clean path
  /-- A path leads to what was added under it last. -/
  latest : ∀ path id, fs.latest? path = some id ↔ IsLatest additions path id

theorem keeps_empty : Keeps {} [] :=
  ⟨rfl, by simp, by simp [latest?], fun path id => ⟨by simp [latest?], fun h => by simpa using h.added⟩⟩

/-- One more version gets the next number, and all others are kept under theirs. -/
theorem Keeps.step {fs : FileSet} {additions : List Addition} (h : fs.Keeps additions)
    (a : Addition) :
    (fs.enter a).1.Keeps (additions ++ [a]) ∧ (fs.enter a).2.id = additions.length ∧
      (fs.enter a).1.files = fs.files ++ [(fs.enter a).2] := by
  have hid : (fs.enter a).2.id = additions.length := by
    rw [enter_eq, ← h.size]
    rfl
  have hfiles : (fs.enter a).1.files = fs.files ++ [(fs.enter a).2] := by
    rw [enter_eq]
    rfl
  have hlatest : ∀ path, (fs.enter a).1.latest? path
      = if Path.clean a.path = Path.clean path then some additions.length
        else fs.latest? path := by
    intro path
    rw [enter_eq, latest?, add, ← h.size]
    simp only [lookup_setLatest, eq_comm]
    rfl
  refine ⟨⟨?_, ?_, ?_, ?_⟩, hid, hfiles⟩
  · rw [hfiles, List.length_append, h.size, List.length_append]
    rfl
  · intro n b hb
    rw [hfiles]
    rcases Nat.lt_or_ge n additions.length with hn | hn
    · rw [List.getElem?_append_left hn] at hb
      rw [List.getElem?_append_left (h.size.symm ▸ hn)]
      exact h.kept n b hb
    · have hlast := (List.getElem?_eq_some_iff.1 hb).1
      rw [List.length_append, List.length_singleton] at hlast
      obtain rfl : n = additions.length := by omega
      rw [List.getElem?_concat_length] at hb
      obtain rfl := Option.some.inj hb
      refine ⟨(fs.enter a).2, ?_, hid, holds_enter fs a⟩
      rw [← h.size, List.getElem?_concat_length]
  · intro path
    rw [hlatest, List.forall_mem_append, List.forall_mem_singleton, ← h.absent]
    split <;> simp_all
  · intro path id
    rw [hlatest]
    split
    · rename_i hpath
      rw [isLatest_concat_of_eq hpath, Option.some.injEq, eq_comm]
    · rename_i hpath
      rw [isLatest_concat_of_ne hpath, h.latest]

/-- A set to which versions were added from the start keeps them, and gave back what it keeps. -/
theorem keeps_enterAll (additions : List Addition) :
    (enterAll additions).1.Keeps additions ∧
      (enterAll additions).2 = (enterAll additions).1.files := by
  induction additions using List.reverseRecOn with
  | nil => exact ⟨keeps_empty, rfl⟩
  | append_singleton additions a ih =>
    obtain ⟨hkeeps, hfiles⟩ := ih
    obtain ⟨hstep, -, hadded⟩ := hkeeps.step a
    have hrun : enterAll (additions ++ [a]) = (((enterAll additions).1.enter a).1,
        (enterAll additions).2 ++ [((enterAll additions).1.enter a).2]) := by
      rw [enterAll, List.foldl_append]
      rfl
    rw [hrun]
    exact ⟨hstep, by rw [hfiles, hadded]⟩

/-- After versions were added there are as many as were added; each was given the next number and
is still what was added; there are no others; and a path leads to the version that was added under
it last, if any was. -/
theorem versions_kept (additions : List Addition) :
    (enterAll additions).1.size = additions.length ∧
    (∀ (n : Nat) (a : Addition), additions[n]? = some a →
      ∃ f : SourceFile, (enterAll additions).2[n]? = some f ∧ f.id = n ∧
        (enterAll additions).1.get? n = some f ∧ f.Holds a) ∧
    (∀ n, additions.length ≤ n → (enterAll additions).1.get? n = none) ∧
    (∀ path, (enterAll additions).1.latest? path = none
      ↔ ∀ a ∈ additions, Path.clean a.path ≠ Path.clean path) ∧
    ∀ path id, (enterAll additions).1.latest? path = some id ↔ IsLatest additions path id := by
  obtain ⟨hkeeps, hfiles⟩ := keeps_enterAll additions
  refine ⟨hkeeps.size, fun n a ha => ?_, fun n hn => ?_, hkeeps.absent, hkeeps.latest⟩
  · obtain ⟨f, hf, hid, hholds⟩ := hkeeps.kept n a ha
    exact ⟨f, hfiles ▸ hf, hid, hf, hholds⟩
  · exact List.getElem?_eq_none (hkeeps.size.symm ▸ hn)

end FileSet

end GrammarLayout
