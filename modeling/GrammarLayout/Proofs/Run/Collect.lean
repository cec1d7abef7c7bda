import GrammarLayout.Proofs.Disk.Place
import GrammarLayout.Proofs.Disk.Tree
import GrammarLayout.Proofs.Except
import GrammarLayout.Proofs.Text.Case
import GrammarLayout.Proofs.Text.Order
import GrammarLayout.Run.Collect

/-!
# Which files a run is about

A named file stands for itself.  A named directory stands for the files below
it that end as grammars do and that no hidden directory keeps from a walk.  The
files of a run are those that its arguments stand for, in order, so neither the
order of the arguments nor their spelling matters.

A walk opens the directories it comes to, and ends at one whose path is too
long for that.  `Node.Opens` says of a tree, and `Disk.Readable` of an argument,
that this does not happen.

What is proved here:

* `isGrammarPath_iff` — which paths end as grammars do;
* `Node.exists_grammarFiles` — what a walk through a tidy tree finds;
* `Node.opens_of_grammarFiles` — it finds something only where all can be opened;
* `Disk.exists_filesOf`, `Disk.StandsFor.of_clean_eq` — what one argument stands for;
* `Disk.collect_eq_ok_iff` — when the arguments stand for files;
* `Disk.exists_collect`, `Disk.collected_files` — what all arguments stand for.
-/

namespace GrammarLayout

open Ascii Text

/-! ## Endings -/

/-- The path ends as grammars do, in letters of either case. -/
def EndsAsGrammar (path : Text) : Prop :=
  ∃ stem ending, path = stem ++ ending ∧ ending.map toLower ∈ grammarEndings

theorem toLower_eq_dot_iff {c : UInt8} : toLower c = dot ↔ c = dot := by
  rw [toLower]
  split
  · rename_i hcapital
    rw [isUpper, Bool.and_eq_true, decide_eq_true_eq, decide_eq_true_eq, UInt8.le_iff_toNat_le,
      UInt8.le_iff_toNat_le] at hcapital
    obtain ⟨hfirst, hlast⟩ : 0x41 ≤ c.toNat ∧ c.toNat ≤ 0x5A := hcapital
    rw [← UInt8.toNat_inj, ← UInt8.toNat_inj, UInt8.toNat_add]
    show (c.toNat + 0x20) % 256 = 0x2E ↔ c.toNat = 0x2E
    omega
  · rfl

theorem isGrammarPath_iff {path : Text} : isGrammarPath path = true ↔ EndsAsGrammar path := by
  have hplain : ∀ e ∈ grammarEndings, ∀ b ∈ e, IsPlainLetter b := by
    unfold IsPlainLetter
    decide +kernel
  have hdots : ∀ e ∈ grammarEndings, e.head? = some dot ∧ dot ∉ e.tail ∧ slash ∉ e.tail := by
    decide +kernel
  rw [isGrammarPath, List.contains_iff_mem]
  constructor
  · intro h
    obtain ⟨stem, hstem⟩ := Path.ext_suffix path
    refine ⟨stem, Path.ext path, hstem.symm, ?_⟩
    rwa [(fold_eq_iff (hplain _ h)).1 rfl]
  · rintro ⟨stem, ending, rfl, hending⟩
    obtain ⟨hhead, hdot, hslash⟩ := hdots _ hending
    cases ending with
    | nil => cases hhead
    | cons c rest =>
      obtain rfl := toLower_eq_dot_iff.1 (Option.some.inj hhead)
      have hkept : ∀ b, toLower b = b → b ∉ rest.map toLower → b ∉ rest := by
        intro b hb hnot hmem
        exact hnot (hb ▸ List.mem_map_of_mem hmem)
      rw [Path.ext_append_dot (hkept dot rfl hdot) (hkept slash rfl hslash),
        (fold_eq_iff (hplain _ hending)).2 rfl]
      exact hending

/-! ## Walks -/

theorem mem_insertByName {α : Type} {x y : Text × α} {xs : List (Text × α)} :
    y ∈ insertByName x xs ↔ y = x ∨ y ∈ xs := by
  induction xs with
  | nil => simp [insertByName]
  | cons z rest ih =>
    rw [insertByName]
    split
    · simp
    · rw [List.mem_cons, ih, List.mem_cons]
      exact or_left_comm

theorem mem_sortByName {α : Type} {y : Text × α} {xs : List (Text × α)} :
    y ∈ sortByName xs ↔ y ∈ xs := by
  induction xs with
  | nil => simp [sortByName]
  | cons x rest ih =>
    rw [sortByName, List.foldr_cons, mem_insertByName, List.mem_cons]
    exact or_congr Iff.rfl ih

section Findings

variable {walks : List (Text × Except DiskError (List Text))}

/-- Walks that all succeed find together what they find one by one. -/
theorem exists_findings (h : ∀ w ∈ walks, ∃ files, w.2 = .ok files) :
    ∃ files, findings walks = .ok files ∧
      ∀ q, q ∈ files ↔ ∃ w ∈ walks, ∃ found, w.2 = .ok found ∧ q ∈ found := by
  have hsorted : ∀ w ∈ sortByName walks, ∃ files, w.2 = .ok files ∧
      ∀ q, q ∈ files ↔ ∃ found, w.2 = .ok found ∧ q ∈ found := by
    intro w hw
    obtain ⟨files, hfiles⟩ := h w (mem_sortByName.1 hw)
    exact ⟨files, hfiles, fun q => by simp [hfiles]⟩
  obtain ⟨found, hfound, hmem⟩ := exists_mapM_eq_ok hsorted
  refine ⟨found.flatten, ?_, fun q => ?_⟩
  · rw [findings, hfound]
    rfl
  · simp only [hmem, mem_sortByName]

theorem exists_of_findings_eq_ok {files : List Text} (h : findings walks = .ok files) :
    ∀ w ∈ walks, ∃ found, w.2 = .ok found := by
  obtain ⟨found, hfound, -⟩ := exists_of_bind_eq_ok h
  exact fun w hw => exists_of_mapM_eq_ok hfound w (mem_sortByName.2 hw)

end Findings

theorem walkOf_of_hidden {path : Text} {e : Text × Node}
    (h : (e.2.isDir && startsWith [dot] e.1) = true) : (walkOf path e).2 = .ok [] := by
  rw [walkOf, if_pos h]

theorem walkOf_of_shown {path : Text} {e : Text × Node}
    (h : (e.2.isDir && startsWith [dot] e.1) = false) :
    (walkOf path e).2 = e.2.grammarFiles (Path.join [path, e.1]) := by
  rw [walkOf, if_neg (by simp [h])]

/-- What the walk through an entry finds, the entry is not hidden and holds. -/
theorem mem_walkOf_iff {path q : Text} {e : Text × Node} :
    (∃ found, (walkOf path e).2 = .ok found ∧ q ∈ found) ↔
      (e.2.isDir && startsWith [dot] e.1) = false ∧
        ∃ found, e.2.grammarFiles (Path.join [path, e.1]) = .ok found ∧ q ∈ found := by
  cases hshown : e.2.isDir && startsWith [dot] e.1 with
  | false => simp [walkOf_of_shown hshown]
  | true => simp [walkOf_of_hidden hshown]

theorem exists_walkOf {path : Text} {e : Text × Node}
    (h : (e.2.isDir && startsWith [dot] e.1) = false →
      ∃ found, e.2.grammarFiles (Path.join [path, e.1]) = .ok found) :
    ∃ found, (walkOf path e).2 = .ok found := by
  cases hshown : e.2.isDir && startsWith [dot] e.1 with
  | false =>
    rw [walkOf_of_shown hshown]
    exact h hshown
  | true => exact ⟨[], walkOf_of_hidden hshown⟩

theorem walksIn_eq_map (path : Text) (entries : List (Text × Node)) :
    walksIn path entries = entries.map (walkOf path) := by
  induction entries with
  | nil => rw [walksIn, List.map_nil]
  | cons e rest ih => rw [walksIn, ih, List.map_cons]

namespace Node

/-- The path of a place, from the path of the top. -/
def pathBelow (path : Text) (loc : Location) : Text :=
  loc.foldl (fun p name => Path.join [p, name]) path

theorem pathBelow_eq (path : Text) {loc : Location} (hne : loc ≠ [])
    (h : ∀ name ∈ loc, Path.IsName name) : pathBelow path loc = Path.join (path :: loc) := by
  obtain ⟨name, loc, rfl⟩ := List.exists_cons_of_ne_nil hne
  induction loc generalizing path name with
  | nil => rfl
  | cons next loc ih =>
    obtain ⟨hname, hrest⟩ := List.forall_mem_cons.1 h
    have hlater : next :: loc ≠ [] := List.cons_ne_nil next loc
    rw [← Path.join_join_cons hlater hrest hname, ← ih _ _ hlater hrest]
    rfl

/-- The place holds a file, and no directory on the way to it is hidden. -/
structure Reaches (n : Node) (loc : Location) : Prop where
  /-- The place holds a file. -/
  isFile : ∃ t, n.get? loc = some (.file t)
  /-- No name of a directory on the way starts with a dot. -/
  visible : ∀ name ∈ loc.dropLast, startsWith [dot] name = false

theorem reaches_file_iff {t : Text} {loc : Location} : (file t).Reaches loc ↔ loc = [] := by
  constructor
  · rintro ⟨⟨t', hget⟩, -⟩
    cases loc with
    | nil => rfl
    | cons name loc => cases hget
  · rintro rfl
    exact ⟨⟨t, rfl⟩, by simp⟩

theorem reaches_dir_iff {entries : List (Text × Node)} {loc : Location} :
    (dir entries).Reaches loc ↔ ∃ name child rest, loc = name :: rest ∧
      entries.lookup name = some child ∧ (child.isDir && startsWith [dot] name) = false ∧
      child.Reaches rest := by
  constructor
  · rintro ⟨⟨t, hget⟩, hvisible⟩
    cases loc with
    | nil => cases hget
    | cons name rest =>
      obtain ⟨_, child, heq, hchild, hget⟩ := exists_of_get?_cons hget
      obtain rfl := dir.inj heq
      refine ⟨name, child, rest, rfl, hchild, ?_, ⟨t, hget⟩, ?_⟩
      · cases rest with
        | nil =>
          obtain rfl : child = file t := Option.some.inj hget
          rfl
        | cons next rest => rw [hvisible name List.mem_cons_self, Bool.and_false]
      · intro name' hname'
        cases rest with
        | nil => cases hname'
        | cons next rest => exact hvisible name' (List.mem_cons_of_mem name hname')
  · rintro ⟨name, child, rest, rfl, hchild, hshown, ⟨t, hget⟩, hvisible⟩
    refine ⟨⟨t, ?_⟩, ?_⟩
    · rw [Node.get?, hchild]
      exact hget
    · cases rest with
      | nil => simp
      | cons next rest =>
        -- What has something below it is a directory.
        obtain ⟨_, _, rfl, -, -⟩ := exists_of_get?_cons hget
        exact List.forall_mem_cons.2 ⟨hshown, hvisible⟩

/-- The directories that a walk from a path comes to have paths by which they can be opened. -/
def Opens (n : Node) (path : Text) : Prop :=
  ∀ loc entries, n.get? loc = some (dir entries) →
    (∀ name ∈ loc, startsWith [dot] name = false) → (pathBelow path loc).length ≤ Disk.maxPath

theorem opens_file (t path : Text) : (file t).Opens path := by
  intro loc entries hget
  cases loc with
  | nil => cases hget
  | cons name loc => cases hget

theorem opens_dir_iff {entries : List (Text × Node)} {path : Text} :
    (dir entries).Opens path ↔ path.length ≤ Disk.maxPath ∧
      ∀ name child, entries.lookup name = some child →
        (child.isDir && startsWith [dot] name) = false →
        child.Opens (Path.join [path, name]) := by
  constructor
  · intro h
    refine ⟨h [] entries rfl (by simp), fun name child hchild hshown loc sub hget hvisible => ?_⟩
    -- What has a directory at or below it is one.
    have hdir : child.isDir = true := by
      cases loc with
      | nil =>
        obtain rfl : child = dir sub := Option.some.inj hget
        rfl
      | cons next loc =>
        obtain ⟨_, _, rfl, -, -⟩ := exists_of_get?_cons hget
        rfl
    rw [hdir, Bool.true_and] at hshown
    refine h (name :: loc) sub ?_ (List.forall_mem_cons.2 ⟨hshown, hvisible⟩)
    rw [Node.get?, hchild]
    exact hget
  · rintro ⟨hpath, hbelow⟩ loc sub hget hvisible
    cases loc with
    | nil => exact hpath
    | cons name loc =>
      obtain ⟨_, child, heq, hchild, hget⟩ := exists_of_get?_cons hget
      obtain rfl := dir.inj heq
      obtain ⟨hname, hrest⟩ := List.forall_mem_cons.1 hvisible
      exact hbelow name child hchild (by rw [hname, Bool.and_false]) loc sub hget hrest

variable {n : Node} {path : Text}

/-- A walk through a tidy tree whose directories can be opened finds the files it reaches that end
as grammars do. -/
theorem exists_grammarFiles (hn : n.Tidy) (hopens : n.Opens path) :
    ∃ files, n.grammarFiles path = .ok files ∧ ∀ q, q ∈ files ↔
      ∃ loc, n.Reaches loc ∧ q = pathBelow path loc ∧ EndsAsGrammar q := by
  induction hn generalizing path with
  | file t =>
    refine ⟨_, by rw [grammarFiles], fun q => ?_⟩
    simp only [reaches_file_iff, exists_eq_left, pathBelow, List.foldl_nil]
    split
    · rename_i hending
      rw [List.mem_singleton]
      constructor
      · rintro rfl
        exact ⟨rfl, isGrammarPath_iff.1 hending⟩
      · exact And.left
    · rename_i hending
      refine ⟨fun hq => absurd hq List.not_mem_nil, ?_⟩
      rintro ⟨rfl, hq⟩
      exact absurd (isGrammarPath_iff.2 hq) hending
  | @dir entries once named below ih =>
    obtain ⟨hpath, hbelow⟩ := opens_dir_iff.1 hopens
    have hchild : ∀ e ∈ entries, (e.2.isDir && startsWith [dot] e.1) = false →
        ∃ found, e.2.grammarFiles (Path.join [path, e.1]) = .ok found ∧ ∀ q, q ∈ found ↔
          ∃ loc, e.2.Reaches loc ∧ q = pathBelow (Path.join [path, e.1]) loc ∧ EndsAsGrammar q :=
      fun e he hshown =>
        ih e he (hbelow e.1 e.2 ((lookup_eq_some_iff_mem once).2 he) hshown)
    have hwalks : ∀ w ∈ walksIn path entries, ∃ found, w.2 = .ok found := by
      rw [walksIn_eq_map, List.forall_mem_map]
      intro e he
      refine exists_walkOf fun hshown => ?_
      obtain ⟨found, hfound, -⟩ := hchild e he hshown
      exact ⟨found, hfound⟩
    obtain ⟨files, hfiles, hmem⟩ := exists_findings hwalks
    refine ⟨files, by rw [grammarFiles, if_neg (Nat.not_lt.2 hpath), hfiles], fun q => ?_⟩
    simp only [hmem, walksIn_eq_map, List.mem_map, exists_exists_and_eq_and, mem_walkOf_iff]
    constructor
    · rintro ⟨⟨name, child⟩, he, hshown, found, hfound, hq⟩
      obtain ⟨found', hfound', hreached⟩ := hchild _ he hshown
      obtain rfl := Except.ok.inj (hfound'.symm.trans hfound)
      obtain ⟨loc, hreaches, rfl, hending⟩ := (hreached q).1 hq
      exact ⟨name :: loc, reaches_dir_iff.2 ⟨name, child, loc, rfl,
        (lookup_eq_some_iff_mem once).2 he, hshown, hreaches⟩, rfl, hending⟩
    · rintro ⟨loc, hreaches, rfl, hending⟩
      obtain ⟨name, child, rest, rfl, hlookup, hshown, hreaches⟩ := reaches_dir_iff.1 hreaches
      have he := mem_of_lookup hlookup
      obtain ⟨found, hfound, hreached⟩ := hchild _ he hshown
      exact ⟨(name, child), he, hshown, found, hfound,
        (hreached _).2 ⟨rest, hreaches, rfl, hending⟩⟩

/-- A walk that succeeds has opened the directories it came to. -/
theorem opens_of_grammarFiles (hn : n.Tidy) {files : List Text}
    (h : n.grammarFiles path = .ok files) : n.Opens path := by
  induction hn generalizing path files with
  | file t => exact opens_file t path
  | @dir entries once named below ih =>
    rw [grammarFiles] at h
    split at h
    · cases h
    · rename_i hpath
      have hwalks := exists_of_findings_eq_ok h
      rw [walksIn_eq_map, List.forall_mem_map] at hwalks
      refine opens_dir_iff.2 ⟨Nat.not_lt.1 hpath, fun name child hchild hshown => ?_⟩
      have he := mem_of_lookup hchild
      obtain ⟨found, hfound⟩ := hwalks _ he
      rw [walkOf_of_shown hshown] at hfound
      exact ih _ he hfound

end Node

/-! ## Arguments -/

namespace Disk

/-- The path is one of the files that an argument stands for. -/
inductive StandsFor (d : Disk) (p : Text) : Text → Prop where
  /-- A file stands for itself, however it ends. -/
  | file {t : Text} (h : d.find p = .ok (.file t)) : StandsFor d p (Path.clean p)
  /-- A directory stands for the grammars below it that no hidden directory below it holds. -/
  | below {entries : List (Text × Node)} {loc : Location} (h : d.find p = .ok (.dir entries))
      (hreaches : (Node.dir entries).Reaches loc) (hending : EndsAsGrammar (Path.join (p :: loc))) :
      StandsFor d p (Path.join (p :: loc))

/-- The argument is no directory with another below it that a walk comes to and whose path is too
long for it to be opened. -/
def Readable (d : Disk) (p : Text) : Prop :=
  ∀ entries loc sub, d.find p = .ok (.dir entries) →
    (Node.dir entries).get? loc = some (.dir sub) → loc ≠ [] →
    (∀ name ∈ loc, startsWith [dot] name = false) → (Path.join (p :: loc)).length ≤ maxPath

variable {d : Disk} {p p' q : Text}

theorem holds_iff : d.holds p = true ↔ ∃ n, d.find p = .ok n := by
  rw [holds]
  cases d.find p <;> simp [Except.toBool]

theorem filesOf_of_find {n : Node} (h : d.find p = .ok n) :
    d.filesOf p = match n with
      | .file _ => .ok [Path.clean p]
      | .dir entries => (Node.dir entries).grammarFiles p := by
  have hstat : d.stat p = .ok n := by rw [stat, h, Except.mapError]
  rw [filesOf, hstat]
  cases n <;> rfl

theorem readable_of_file {t : Text} (h : d.find p = .ok (.file t)) : d.Readable p := by
  intro entries loc sub hdir
  exact absurd (h.symm.trans hdir) (by simp)

section Tidy

variable (hd : d.root.Tidy)
include hd

theorem tidy_of_find {n : Node} (h : d.find p = .ok n) : n.Tidy := hd.get? (get?_place_of_find h)

theorem isName_of_get? {n m : Node} {loc : Location} (h : d.find p = .ok n)
    (hget : n.get? loc = some m) : ∀ name ∈ loc, Path.IsName name :=
  (tidy_of_find hd h).isName hget

/-- The way down to a file below a directory. -/
theorem names_of_reaches {entries : List (Text × Node)} {loc : Location}
    (h : d.find p = .ok (.dir entries)) (hreaches : (Node.dir entries).Reaches loc) :
    loc ≠ [] ∧ ∀ name ∈ loc, Path.IsName name := by
  obtain ⟨name, child, rest, rfl, -⟩ := Node.reaches_dir_iff.1 hreaches
  obtain ⟨t, hget⟩ := hreaches.isFile
  exact ⟨List.cons_ne_nil name rest, isName_of_get? hd h hget⟩

theorem readable_iff_opens {entries : List (Text × Node)} (h : d.find p = .ok (.dir entries)) :
    d.Readable p ↔ (Node.dir entries).Opens p := by
  constructor
  · intro hreadable loc sub hget hvisible
    by_cases hne : loc = []
    · obtain ⟨place, hplace⟩ := exists_locate_of_find h
      rw [hne]
      exact length_le_of_locate hplace
    · rw [Node.pathBelow_eq p hne (isName_of_get? hd h hget)]
      exact hreadable entries loc sub h hget hne hvisible
  · intro hopens entries' loc sub h' hget hne hvisible
    obtain rfl := Node.dir.inj (Except.ok.inj (h.symm.trans h'))
    rw [← Node.pathBelow_eq p hne (isName_of_get? hd h hget)]
    exact hopens loc sub hget hvisible

/-- An argument that exists and can be read stands for certain files. -/
theorem exists_filesOf (h : d.holds p = true) (hreadable : d.Readable p) :
    ∃ files, d.filesOf p = .ok files ∧ ∀ q, q ∈ files ↔ d.StandsFor p q := by
  obtain ⟨n, hn⟩ := holds_iff.1 h
  rw [filesOf_of_find hn]
  cases n with
  | file t =>
    refine ⟨[Path.clean p], rfl, fun q => ?_⟩
    rw [List.mem_singleton]
    constructor
    · rintro rfl
      exact .file hn
    · intro hq
      cases hq with
      | file => rfl
      | below hdir => exact absurd (hn.symm.trans hdir) (by simp)
  | dir entries =>
    obtain ⟨files, hfiles, hwalk⟩ :=
      Node.exists_grammarFiles (tidy_of_find hd hn) ((readable_iff_opens hd hn).1 hreadable)
    refine ⟨files, hfiles, fun q => ?_⟩
    rw [hwalk]
    constructor
    · rintro ⟨loc, hreaches, rfl, hending⟩
      obtain ⟨hne, hnames⟩ := names_of_reaches hd hn hreaches
      rw [Node.pathBelow_eq p hne hnames] at hending ⊢
      exact .below hn hreaches hending
    · intro hq
      cases hq with
      | file hfile => exact absurd (hn.symm.trans hfile) (by simp)
      | below hdir hreaches hending =>
        obtain ⟨hne, hnames⟩ := names_of_reaches hd hdir hreaches
        obtain rfl := Node.dir.inj (Except.ok.inj (hn.symm.trans hdir))
        exact ⟨_, hreaches, (Node.pathBelow_eq p hne hnames).symm, hending⟩

/-- Only an argument that exists and can be read stands for files. -/
theorem holds_and_readable_of_filesOf {files : List Text} (h : d.filesOf p = .ok files) :
    d.holds p = true ∧ d.Readable p := by
  cases hn : d.find p with
  | error f =>
    rw [filesOf, stat, hn] at h
    exact absurd h (by simp [Except.mapError, bind, Except.bind])
  | ok n =>
    refine ⟨holds_iff.2 ⟨n, hn⟩, ?_⟩
    rw [filesOf_of_find hn] at h
    cases n with
    | file t => exact readable_of_file hn
    | dir entries =>
      exact (readable_iff_opens hd hn).2 (Node.opens_of_grammarFiles (tidy_of_find hd hn) h)

theorem StandsFor.clean_eq (h : d.StandsFor p q) : Path.clean q = q := by
  cases h with
  | file => exact Path.clean_clean p
  | below hdir hreaches =>
    obtain ⟨hne, hnames⟩ := names_of_reaches hd hdir hreaches
    exact Path.clean_join_cons hne hnames

/-- Spellings of one path stand for the same files. -/
theorem StandsFor.of_clean_eq (hclean : Path.clean p = Path.clean p')
    (hp' : d.holds p' = true) (h : d.StandsFor p q) : d.StandsFor p' q := by
  obtain ⟨n, hn⟩ := holds_iff.1 hp'
  cases h with
  | file hfile =>
    rw [← find_inj hclean hfile hn] at hn
    rw [hclean]
    exact .file hn
  | below hdir hreaches hending =>
    obtain ⟨hne, hnames⟩ := names_of_reaches hd hdir hreaches
    rw [← find_inj hclean hdir hn] at hn
    rw [Path.join_cons_congr hne hnames hclean] at hending ⊢
    exact .below hn hreaches hending

/-- Spellings of one path can be read alike. -/
theorem Readable.of_clean_eq (hclean : Path.clean p = Path.clean p') (hp : d.holds p = true)
    (h : d.Readable p) : d.Readable p' := by
  intro entries loc sub hdir hget hne hvisible
  obtain ⟨n, hn⟩ := holds_iff.1 hp
  obtain rfl := find_inj hclean hn hdir
  rw [← Path.join_cons_congr hne (isName_of_get? hd hdir hget) hclean]
  exact h entries loc sub hn hget hne hvisible

end Tidy

/-! ## All arguments -/

theorem exists_collect (hd : d.root.Tidy) {paths : List Text}
    (hpaths : ∀ p ∈ paths, d.holds p = true) (hreadable : ∀ p ∈ paths, d.Readable p) :
    ∃ found, d.collect false paths = .ok (sortTexts found) ∧
      ∀ q, q ∈ found ↔ ∃ p ∈ paths, d.StandsFor p q := by
  have hargs : ∀ p ∈ paths, ∃ files,
      (if false = true then throw .cancelled else (d.filesOf p).mapError DiskError.failure)
        = .ok files ∧ ∀ q, q ∈ files ↔ d.StandsFor p q := by
    intro p hp
    obtain ⟨files, hfiles, hmem⟩ := exists_filesOf hd (hpaths p hp) (hreadable p hp)
    refine ⟨files, ?_, hmem⟩
    rw [hfiles]
    rfl
  obtain ⟨found, hfound, hmem⟩ := exists_mapM_eq_ok hargs
  refine ⟨found.flatten, ?_, hmem⟩
  rw [collect, hfound]
  rfl

/-- The arguments stand for files exactly when each of them exists and can be read. -/
theorem collect_eq_ok_iff (hd : d.root.Tidy) {paths : List Text} :
    (∃ files, d.collect false paths = .ok files) ↔
      ∀ p ∈ paths, d.holds p = true ∧ d.Readable p := by
  constructor
  · rintro ⟨files, hfiles⟩ p hp
    obtain ⟨_, hfound, -⟩ := exists_of_bind_eq_ok hfiles
    obtain ⟨found, hp⟩ := exists_of_mapM_eq_ok hfound p hp
    cases hwalk : d.filesOf p with
    | error e =>
      rw [hwalk] at hp
      cases hp
    | ok files => exact holds_and_readable_of_filesOf hd hwalk
  · intro h
    obtain ⟨found, hcollect, -⟩ :=
      exists_collect hd (fun p hp => (h p hp).1) fun p hp => (h p hp).2
    exact ⟨sortTexts found, hcollect⟩

/-- What one argument stands for, a spelling of it among others does. -/
theorem exists_standsFor_of_clean (hd : d.root.Tidy) {paths others : List Text}
    (hothers : ∀ p ∈ others, d.holds p = true)
    (h : ∀ q ∈ paths.map Path.clean, q ∈ others.map Path.clean)
    (hq : ∃ p ∈ paths, d.StandsFor p q) : ∃ p ∈ others, d.StandsFor p q := by
  obtain ⟨p, hp, hq⟩ := hq
  obtain ⟨p', hp', hclean⟩ := List.mem_map.1 (h _ (List.mem_map_of_mem hp))
  exact ⟨p', hp', hq.of_clean_eq hd hclean.symm (hothers p' hp')⟩

/-- The files are those that the arguments stand for. -/
structure Collected (d : Disk) (paths files : List Text) : Prop where
  /-- Each is less than those that follow it. -/
  increasing : files.Pairwise (· < ·)
  /-- Each is cleaned. -/
  cleaned : ∀ q ∈ files, Path.clean q = q
  /-- Each is one that an argument stands for, and none is left out. -/
  mem_iff : ∀ q, q ∈ files ↔ ∃ p ∈ paths, d.StandsFor p q

/-- Arguments that exist in a tidy tree and can be read stand for files, in order and each once, and
the same arguments in another order, given twice or spelled in another way stand for the same
files. -/
theorem collected_files (hd : d.root.Tidy) {paths : List Text}
    (hpaths : ∀ p ∈ paths, d.holds p = true) (hreadable : ∀ p ∈ paths, d.Readable p) :
    ∃ files, d.collect false paths = .ok files ∧ d.Collected paths files ∧
      ∀ others : List Text, (∀ p ∈ others, d.holds p = true) →
        (∀ q, q ∈ others.map Path.clean ↔ q ∈ paths.map Path.clean) →
        d.collect false others = .ok files := by
  obtain ⟨found, hcollect, hmem⟩ := exists_collect hd hpaths hreadable
  refine ⟨sortTexts found, hcollect, ⟨increasing_sortTexts found, fun q hq => ?_, fun q => ?_⟩,
    fun others hothers hsame => ?_⟩
  · obtain ⟨p, -, hq⟩ := (hmem q).1 (mem_sortTexts.1 hq)
    exact hq.clean_eq hd
  · rw [mem_sortTexts, hmem]
  · have hreadable' : ∀ p ∈ others, d.Readable p := by
      intro p' hp'
      obtain ⟨p, hp, hclean⟩ := List.mem_map.1 ((hsame _).1 (List.mem_map_of_mem hp'))
      exact (hreadable p hp).of_clean_eq hd hclean (hpaths p hp)
    obtain ⟨found', hcollect', hmem'⟩ := exists_collect hd hothers hreadable'
    have hfound : ∀ q, q ∈ found' ↔ q ∈ found := by
      intro q
      rw [hmem, hmem']
      constructor
      · exact exists_standsFor_of_clean hd hpaths fun q hq => (hsame q).1 hq
      · exact exists_standsFor_of_clean hd hothers fun q hq => (hsame q).2 hq
    rw [hcollect', sortTexts_congr hfound]

/-- A hidden directory with a hidden directory and another one in it, and a file beside it. -/
def hiddenShelf : Disk where
  root := .dir
    [(bytes ".shelf", .dir
        [(bytes "A.RY", .file []), (bytes ".old", .dir [(bytes "a.y", .file [])]),
          (bytes "sub", .dir [(bytes "c.y", .file []), (bytes "notes", .file [])])]),
      (bytes "b.y", .file [])]

theorem tidy_hiddenShelf : hiddenShelf.root.Tidy := by
  have hold : (Node.dir [(bytes "a.y", .file [])]).Tidy :=
    .dir (by decide) (by decide) (by simp [Node.Tidy.file])
  have hsub : (Node.dir [(bytes "c.y", .file []), (bytes "notes", .file [])]).Tidy :=
    .dir (by decide) (by decide) (by simp [Node.Tidy.file])
  exact .dir (by decide) (by decide) <| by
    simpa [Node.Tidy.file] using
      Node.Tidy.dir (by decide) (by decide) (by simp [Node.Tidy.file, hold, hsub])

/-- A hidden directory that is named is walked, a hidden one below it is not. -/
theorem collected_files_hidden_top :
    ∃ files, files = [bytes ".shelf/A.RY", bytes ".shelf/sub/c.y", bytes ".shelf/sub/notes",
        bytes "b.y"] ∧
      hiddenShelf.Collected
        [bytes ".shelf/", bytes "./b.y", bytes ".shelf/sub/notes", bytes ".shelf/sub"] files ∧
      hiddenShelf.collect false
        [bytes ".shelf/", bytes "./b.y", bytes ".shelf/sub/notes", bytes ".shelf/sub"]
          = .ok files ∧
      hiddenShelf.collect false
        [bytes "b.y", bytes ".shelf/sub/../sub", bytes ".shelf/sub/notes", bytes ".shelf",
          bytes "b.y"] = .ok files := by
  have hargs : ∀ p ∈ [bytes ".shelf/", bytes "./b.y", bytes ".shelf/sub/notes",
      bytes ".shelf/sub"], hiddenShelf.holds p = true ∧ hiddenShelf.Readable p :=
    (collect_eq_ok_iff tidy_hiddenShelf).1 ⟨_, rfl⟩
  obtain ⟨files, hcollect, hcollected, hothers⟩ := collected_files tidy_hiddenShelf
    (fun p hp => (hargs p hp).1) fun p hp => (hargs p hp).2
  refine ⟨files, ?_, hcollected, hcollect, hothers _ (by decide) fun q => ⟨?_, ?_⟩⟩
  · have hfound : files = sortTexts [bytes ".shelf/A.RY", bytes ".shelf/sub/c.y", bytes "b.y",
        bytes ".shelf/sub/notes", bytes ".shelf/sub/c.y"] :=
      Except.ok.inj (hcollect.symm.trans rfl)
    rw [hfound]
    refine sortTexts_eq (by decide) fun q => ⟨?_, ?_⟩
    · exact fun hq => List.subset_def.1 (by decide) hq
    · exact fun hq => List.subset_def.1 (by decide) hq
  · exact fun hq => List.subset_def.1 (by decide) hq
  · exact fun hq => List.subset_def.1 (by decide) hq

end Disk

end GrammarLayout
