import GrammarLayout.Disk.Basic
import GrammarLayout.Proofs.Lookup
import Mathlib.Logic.Function.Basic

/-!
# What is where on a disk

A disk is looked at place by place: a place holds nothing, a directory or a
file.  Paths are followed, read and written through this view alone, and a
write changes it at one place.

What is proved here:

* `Node.holding_put` — putting a leaf at a place with room changes that place and
  no other;
* `Disk.locate_congr`, `Disk.read_congr` — paths lead to the same place, and are read
  alike, on disks that hold the same along their way;
* `Disk.exists_write_of_read` — a file that can be read can be written, and nothing else
  changes.
-/

namespace GrammarLayout

open Ascii Text

/-- What a place holds. -/
inductive Holding where
  /-- Nothing. -/
  | nothing
  /-- A directory. -/
  | directory
  /-- A file with its content. -/
  | file (content : Text)
  deriving Repr, DecidableEq

/-! ## Trees -/

theorem lookup_setEntry (name key : Text) (n : Node) (entries : List (Text × Node)) :
    (setEntry name n entries).lookup key = if key = name then some n else entries.lookup key := by
  refine lookup_of_setter ?_ (fun k old rest => ?_) key entries
  · rw [setEntry]
  · rw [setEntry]

namespace Node

/-- What stands at the top of a tree. -/
def top : Node → Holding
  | .file t => .file t
  | .dir _ => .directory

/-- What a place of a tree holds. -/
def holding (n : Node) (loc : Location) : Holding := ((n.get? loc).map top).getD .nothing

@[simp] theorem holding_nil (n : Node) : n.holding [] = n.top := by cases n <;> rfl

@[simp] theorem holding_file_cons (t name : Text) (loc : Location) :
    (file t).holding (name :: loc) = .nothing := rfl

theorem holding_dir_cons (entries : List (Text × Node)) (name : Text) (loc : Location) :
    (dir entries).holding (name :: loc)
      = ((entries.lookup name).map fun n => n.holding loc).getD .nothing := by
  rw [holding, get?]
  cases entries.lookup name <;> rfl

/-- A tree without entries. -/
def IsLeaf : Node → Prop
  | .file _ => True
  | .dir entries => entries = []

theorem IsLeaf.holding_cons {n : Node} (h : n.IsLeaf) (name : Text) (loc : Location) :
    n.holding (name :: loc) = .nothing := by
  cases n with
  | file t => rfl
  | dir entries =>
    obtain rfl : entries = [] := h
    rfl

/-- A leaf may be put at the place: it holds no directory, and one stands above it. -/
structure Room (n : Node) (loc : Location) : Prop where
  /-- No directory is put away. -/
  notDirectory : n.holding loc ≠ .directory
  /-- There is a directory to hold it. -/
  above : loc = [] ∨ n.holding loc.dropLast = .directory

theorem holding_dir_setEntry (entries : List (Text × Node)) (name key : Text) (n : Node)
    (loc : Location) :
    (dir (setEntry name n entries)).holding (key :: loc)
      = if key = name then n.holding loc else (dir entries).holding (key :: loc) := by
  rw [holding_dir_cons, lookup_setEntry, holding_dir_cons]
  split <;> rfl

/-- Below what is no directory there is nothing. -/
theorem holding_append_cons {n : Node} {loc : Location} (h : n.holding loc ≠ .directory)
    (name : Text) (rest : Location) : n.holding (loc ++ name :: rest) = .nothing := by
  induction loc generalizing n with
  | nil =>
    cases n with
    | file t => rfl
    | dir entries => exact absurd rfl h
  | cons key loc ih =>
    cases n with
    | file t => rfl
    | dir entries =>
      rw [holding_dir_cons] at h
      rw [List.cons_append, holding_dir_cons]
      cases hkey : entries.lookup key with
      | none => rfl
      | some m =>
        rw [hkey] at h
        exact ih h

/-- A leaf where no directory was: at its own place it is seen, and below it there is as little as
before. -/
theorem IsLeaf.holding_eq_update {n new : Node} {loc : Location} (hnew : new.IsLeaf)
    (h : n.holding loc ≠ .directory) :
    new.holding = Function.update (fun place => n.holding (loc ++ place)) [] new.top := by
  funext place
  cases place with
  | nil => simp
  | cons name place =>
    rw [hnew.holding_cons, Function.update_of_ne (by simp)]
    exact (holding_append_cons h name place).symm

/-- A change below one entry is a change of the whole tree. -/
theorem holding_setEntry_of_update {entries : List (Text × Node)} {name : Text} {m : Node}
    {loc : Location} {v : Holding}
    (h : m.holding = Function.update (fun place => (dir entries).holding (name :: place)) loc v) :
    (dir (setEntry name m entries)).holding
      = Function.update (dir entries).holding (name :: loc) v := by
  funext place
  cases place with
  | nil => simp [top]
  | cons key place =>
    rw [holding_dir_setEntry, h]
    by_cases hkey : key = name
    · rw [if_pos hkey, hkey]
      by_cases hplace : place = loc
      · rw [hplace, Function.update_self, Function.update_self]
      · rw [Function.update_of_ne hplace, Function.update_of_ne (by simpa using hplace)]
    · rw [if_neg hkey, Function.update_of_ne (by simp [hkey])]

/-- A leaf put at a place is there, and all else is as before. -/
theorem holding_put {n new : Node} {loc : Location} (hnew : new.IsLeaf) (h : n.Room loc) :
    (n.put loc new).holding = Function.update n.holding loc new.top := by
  induction loc generalizing n with
  | nil => exact hnew.holding_eq_update h.notDirectory
  | cons name loc ih =>
    obtain ⟨entries, rfl⟩ : ∃ entries, n = dir entries := by
      cases n with
      | dir entries => exact ⟨entries, rfl⟩
      | file t => cases loc <;> simpa [top] using h.above
    cases loc with
    | nil => exact holding_setEntry_of_update (hnew.holding_eq_update h.notDirectory)
    | cons next loc =>
      have habove := h.above
      simp only [List.dropLast_cons_cons, List.cons_ne_nil, false_or, holding_dir_cons] at habove
      cases hchild : entries.lookup name with
      | none => simp [hchild] at habove
      | some child =>
        -- The entry of the first name is a tree with room at the rest of the place.
        have hchildren : (fun place => (dir entries).holding (name :: place)) = child.holding := by
          funext place
          rw [holding_dir_cons, hchild]
          rfl
        have hroom : child.Room (next :: loc) := by
          refine ⟨?_, Or.inr ?_⟩
          · rw [← hchildren]
            exact h.notDirectory
          · rw [hchild] at habove
            exact habove
        have hput : (dir entries).put (name :: next :: loc) new
            = dir (setEntry name (child.put (next :: loc) new) entries) := by rw [put, hchild]
        rw [hput]
        refine holding_setEntry_of_update ?_
        rw [hchildren]
        exact ih hroom

end Node

/-! ## Following paths -/

/-- What is there, whatever the content of a file. -/
def Holding.kind : Holding → Holding
  | .file _ => .file []
  | h => h

namespace Disk

variable {d d' : Disk} {path : Text} {loc : Location}

/-- What a place of the disk holds. -/
def holding (d : Disk) (loc : Location) : Holding := d.root.holding loc

/-- The place that one more name leads to. -/
def step (loc : Location) (name : Text) : Location :=
  if name = [dot] then loc else if name = Path.up then loc.dropLast else loc ++ [name]

/-- The place from which a path is followed. -/
def origin (d : Disk) (path : Text) : Location := if Path.isAbsolute path then [] else d.cwd

/-- The places on the way of a path, the first and the last included. -/
def way (d : Disk) (path : Text) : List Location := (names path).scanl step (d.origin path)

/-- The place that a path leads to, if it leads anywhere. -/
def place (d : Disk) (path : Text) : Location := (names path).foldl step (d.origin path)

theorem follow_cons (root : Node) (loc : Location) (name : Text) (rest : List Text) :
    follow root loc (name :: rest)
      = if name = [dot] ∨ name = Path.up then follow root (step loc name) rest
        else if maxName < name.length then .error .tooLong
        else if rest.isEmpty then .ok (step loc name)
        else
          match root.holding (step loc name) with
          | .nothing => .error .missing
          | .file _ => .error .notDirectory
          | .directory => follow root (step loc name) rest := by
  rw [follow, step]
  by_cases hdot : name = [dot]
  · simp [hdot]
  · by_cases hup : name = Path.up
    · simp [hup, show Path.up ≠ [dot] by decide]
    · simp only [hdot, hup, or_self, if_false, Node.holding]
      cases root.get? (loc ++ [name]) with
      | none => rfl
      | some n => cases n <;> rfl

/-- Only what the places on the way are matters. -/
theorem follow_congr {root root' : Node} {loc : Location} {ns : List Text}
    (h : ∀ l ∈ ns.scanl step loc, (root'.holding l).kind = (root.holding l).kind) :
    follow root' loc ns = follow root loc ns := by
  induction ns generalizing loc with
  | nil => rfl
  | cons name rest ih =>
    rw [List.scanl_cons] at h
    have hrest := ih fun l hl => h l (List.mem_cons_of_mem loc hl)
    have hnext : (root'.holding (step loc name)).kind = (root.holding (step loc name)).kind :=
      h _ (List.mem_cons_of_mem loc (by cases rest <;> simp))
    rw [follow_cons, follow_cons, hrest]
    generalize root'.holding (step loc name) = x at hnext
    generalize root.holding (step loc name) = y at hnext
    cases x <;> cases y <;> first | rfl | exact absurd hnext (by simp [Holding.kind])

/-- A path that leads anywhere leads to where its names say. -/
theorem follow_eq_ok {root : Node} {loc l : Location} {ns : List Text}
    (h : follow root loc ns = .ok l) : l = ns.foldl step loc := by
  induction ns generalizing loc with
  | nil => exact (Except.ok.inj h).symm
  | cons name rest ih =>
    rw [follow_cons] at h
    rw [List.foldl_cons]
    split at h
    · exact ih h
    · split at h
      · exact absurd h (by simp)
      · split at h
        · rename_i hempty
          rw [List.isEmpty_iff.1 hempty]
          exact (Except.ok.inj h).symm
        · split at h
          · exact absurd h (by simp)
          · exact absurd h (by simp)
          · exact ih h

theorem locate_congr (hcwd : d'.cwd = d.cwd)
    (h : ∀ l ∈ d.way path, (d'.holding l).kind = (d.holding l).kind) :
    d'.locate path = d.locate path := by
  simp only [locate, hcwd]
  split
  · rfl
  · split
    · rfl
    · split
      · rfl
      · exact follow_congr h

theorem locate_eq_place (h : d.locate path = .ok loc) : loc = d.place path := by
  rw [locate] at h
  split at h
  · exact absurd h (by simp)
  · split at h
    · exact absurd h (by simp)
    · split at h
      · exact absurd h (by simp)
      · exact follow_eq_ok h

theorem length_le_of_locate (h : d.locate path = .ok loc) : path.length ≤ maxPath := by
  rw [locate] at h
  split at h
  · exact absurd h (by simp)
  · split at h
    · exact absurd h (by simp)
    · split at h
      · exact absurd h (by simp)
      · rename_i hlength
        exact Nat.not_lt.1 hlength

theorem foldl_mem_scanl (ns : List Text) (loc : Location) :
    ns.foldl step loc ∈ ns.scanl step loc := by
  induction ns generalizing loc with
  | nil => simp
  | cons name rest ih =>
    rw [List.foldl_cons, List.scanl_cons]
    exact List.mem_cons_of_mem loc (ih _)

theorem place_mem_way (d : Disk) (path : Text) : d.place path ∈ d.way path := foldl_mem_scanl _ _

/-! ## Reading and writing -/

theorem read_of_locate_error {f : DiskFault} (h : d.locate path = .error f) :
    d.read path = .error ⟨bytes "open", path, f⟩ := by
  rw [read, find, h]
  rfl

/-- What reading gives, from what the place holds. -/
def readHolding (path : Text) : Holding → Except DiskError Text
  | .nothing => .error ⟨bytes "open", path, .missing⟩
  | .directory => .error ⟨bytes "read", path, .isDirectory⟩
  | .file t => if asksDirectory path then .error ⟨bytes "open", path, .notDirectory⟩ else .ok t

theorem read_of_locate (h : d.locate path = .ok loc) :
    d.read path = readHolding path (d.holding loc) := by
  rw [holding, Node.holding]
  cases hget : d.root.get? loc with
  | none =>
    have hfind : d.find path = .error .missing := by
      simp only [find, h, hget, bind, Except.bind]
      rfl
    rw [read, hfind]
    rfl
  | some n =>
    cases n with
    | dir entries =>
      have hfind : d.find path = .ok (.dir entries) := by
        simp only [find, h, hget, bind, Except.bind]
        rfl
      rw [read, hfind]
      rfl
    | file t =>
      have hfind : d.find path = if asksDirectory path then .error .notDirectory else .ok (.file t) := by
        simp only [find, h, hget, bind, Except.bind]
        rfl
      simp only [read, hfind, Option.map_some, Option.getD_some, Node.top, readHolding]
      split <;> rfl

/-- Only where a path leads and what is there matter. -/
theorem read_congr (hlocate : d'.locate path = d.locate path)
    (h : ∀ loc, d.locate path = .ok loc → d'.holding loc = d.holding loc) :
    d'.read path = d.read path := by
  cases hloc : d.locate path with
  | error f => rw [read_of_locate_error hloc, read_of_locate_error (hlocate.trans hloc)]
  | ok loc => rw [read_of_locate hloc, read_of_locate (hlocate.trans hloc), h loc hloc]

theorem exists_of_read {b : Text} (h : d.read path = .ok b) :
    ∃ loc, d.locate path = .ok loc ∧ d.holding loc = .file b ∧ asksDirectory path = false := by
  cases hloc : d.locate path with
  | error f =>
    rw [read_of_locate_error hloc] at h
    exact absurd h (by simp)
  | ok loc =>
    rw [read_of_locate hloc] at h
    refine ⟨loc, rfl, ?_⟩
    cases hold : d.holding loc with
    | nothing => simp [hold, readHolding] at h
    | directory => simp [hold, readHolding] at h
    | file t =>
      rw [hold, readHolding] at h
      split at h
      · exact absurd h (by simp)
      · rename_i hask
        exact ⟨congrArg Holding.file (Except.ok.inj h), Bool.not_eq_true _ ▸ hask⟩

/-- The second disk is the first with one place changed. -/
structure Put (d : Disk) (loc : Location) (h : Holding) (d' : Disk) : Prop where
  /-- The working directory is the same. -/
  cwd : d'.cwd = d.cwd
  /-- One place holds something else. -/
  holding : d'.holding = Function.update d.holding loc h

/-- The place holds what was put there. -/
theorem Put.holding_self {x : Holding} (h : d.Put loc x d') : d'.holding loc = x := by
  rw [h.holding, Function.update_self]

/-- Every other place holds what it did. -/
theorem Put.holding_of_ne {x : Holding} (h : d.Put loc x d') {l : Location} (hl : l ≠ loc) :
    d'.holding l = d.holding l := by
  rw [h.holding, Function.update_of_ne hl]

theorem put_self (d : Disk) (loc : Location) : d.Put loc (d.holding loc) d :=
  ⟨rfl, (Function.update_eq_self loc d.holding).symm⟩

theorem put_of_room {n : Node} (hn : n.IsLeaf) (h : d.root.Room loc) :
    d.Put loc n.top { d with root := d.root.put loc n } := ⟨rfl, Node.holding_put hn h⟩

/-- The directory of something is a directory. -/
theorem room_of_file {n : Node} {b : Text} (h : n.holding loc = .file b) : n.Room loc := by
  refine ⟨by simp [h], ?_⟩
  rcases List.eq_nil_or_concat loc with rfl | ⟨above, name, rfl⟩
  · exact Or.inl rfl
  · refine Or.inr ?_
    rw [List.concat_eq_append] at h ⊢
    rw [List.dropLast_concat]
    by_contra hnot
    rw [Node.holding_append_cons hnot] at h
    exact absurd h (by simp)

theorem target_of_locate (hloc : d.locate path = .ok loc) (hask : asksDirectory path = false)
    (hdir : d.holding loc ≠ .directory) : d.target path false = .ok loc := by
  have hnode : d.root.get? loc = none ∨ ∃ t, d.root.get? loc = some (.file t) := by
    rw [holding, Node.holding] at hdir
    cases hget : d.root.get? loc with
    | none => exact Or.inl rfl
    | some n =>
      cases n with
      | file t => exact Or.inr ⟨t, rfl⟩
      | dir entries => exact absurd (by rw [hget]; rfl) hdir
  simp only [target, hloc, hask, bind, Except.bind, Bool.false_eq_true, if_false, ite_self]
  rcases hnode with hget | ⟨t, hget⟩ <;> rw [hget] <;> rfl

/-- A file that can be read can be written. -/
theorem exists_write_of_read {b : Text} (h : d.read path = .ok b) (content : Text) :
    ∃ loc d', d.locate path = .ok loc ∧ d.holding loc = .file b ∧
      d.write path content = .ok d' ∧ d.Put loc (.file content) d' := by
  obtain ⟨loc, hloc, hfile, hask⟩ := exists_of_read h
  refine ⟨loc, _, hloc, hfile, ?_, put_of_room (n := .file content) trivial (room_of_file hfile)⟩
  rw [write, target_of_locate hloc hask (by simp [hfile])]
  rfl

theorem locate_of_target (h : d.target path false = .ok loc) :
    d.locate path = .ok loc ∧ d.holding loc ≠ .directory := by
  cases hloc : d.locate path with
  | error f =>
    rw [target, hloc] at h
    exact absurd h (by simp [bind, Except.bind])
  | ok l =>
    -- Whatever the last name of the path is, the node at its place decides.
    have hchecked : l = loc ∧ ∀ n, d.root.get? l = some n → n.isDir = false := by
      simp only [target, hloc, bind, Except.bind, throw, throwThe, MonadExceptOf.throw, pure,
        Except.pure] at h
      cases hget : d.root.get? l with
      | none =>
        simp only [hget] at h
        grind
      | some n =>
        simp only [hget] at h
        grind
    obtain ⟨rfl, hfile⟩ := hchecked
    refine ⟨rfl, ?_⟩
    rw [holding, Node.holding]
    cases hget : d.root.get? l with
    | none => simp
    | some n =>
      cases n with
      | dir entries => exact absurd (hfile _ hget) (by simp [Node.isDir])
      | file t => simp [Node.top]

/-- What is written is put where the path leads, and never over a directory. -/
theorem exists_of_write {content : Text} (h : d.write path content = .ok d') :
    ∃ loc, d.locate path = .ok loc ∧ d.holding loc ≠ .directory ∧
      d' = { d with root := d.root.put loc (.file content) } := by
  rw [write] at h
  cases htarget : d.target path false with
  | error f =>
    rw [htarget] at h
    have herror : Except.error (DiskError.mk (bytes "open") path f) = Except.ok d' := h
    exact absurd herror (by simp)
  | ok loc =>
    rw [htarget] at h
    obtain ⟨hloc, hold⟩ := locate_of_target htarget
    exact ⟨loc, hloc, hold, (Except.ok.inj h).symm⟩

namespace Put

variable {b content : Text}

/-- Paths are followed as before when a file is written over. -/
theorem locate_eq (h : d.Put loc (.file content) d') (hfile : d.holding loc = .file b)
    (path : Text) : d'.locate path = d.locate path := by
  apply locate_congr h.cwd
  intro l _
  by_cases hl : l = loc
  · rw [hl, h.holding_self, hfile]
    rfl
  · rw [h.holding_of_ne hl]

theorem read_of_ne (h : d.Put loc (.file content) d') (hfile : d.holding loc = .file b)
    {path : Text} (hpath : d.locate path ≠ .ok loc) : d'.read path = d.read path := by
  apply read_congr (h.locate_eq hfile path)
  intro l hl
  apply h.holding_of_ne
  rintro rfl
  exact hpath hl

theorem read_self (h : d.Put loc (.file content) d') (hread : d.read path = .ok b)
    (hloc : d.locate path = .ok loc) : d'.read path = .ok content := by
  obtain ⟨l, hl, hfile, hask⟩ := exists_of_read hread
  rw [hloc] at hl
  rw [Except.ok.inj hl] at h hloc
  rw [read_of_locate ((h.locate_eq hfile path).trans hloc), h.holding_self, readHolding, hask]
  rfl

end Put

end Disk

end GrammarLayout
