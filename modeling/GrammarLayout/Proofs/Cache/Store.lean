import GrammarLayout.Cache.Store
import GrammarLayout.Proofs.Disk.Place
import Mathlib.Data.List.Infix

/-!
# Where the cache keeps its entries

All entries of a cache stand in one directory.  Keeping an entry writes the
file of its key, makes the directories for it, and touches nothing outside;
different keys have different files.

What is proved here:

* `Cache.place_pathOf`, `Cache.placeOf_injective` — the place of a key's file;
* `Cache.put_filled` — what keeping an entry does to the disk;
* `Cache.exists_file_of_has` — a key that is found has its file.
-/

namespace GrammarLayout

open Ascii Text

/-! ## Digests and their digits -/

theorem Sha256.length_bigEndian (n v : Nat) : (bigEndian n v).length = n := by
  induction n generalizing v with
  | zero => rfl
  | succ n ih => simp [bigEndian, ih]

@[simp] theorem length_sha256 (message : Text) : (sha256 message).length = 32 := by
  simp [sha256, Sha256.length_bigEndian]

theorem hexDigit_ne {n : Nat} (h : n < 16) :
    hexDigit n ≠ slash ∧ hexDigit n ≠ dot := by
  revert n
  decide

theorem hexDigit_injective {m n : Nat} (hm : m < 16) (hn : n < 16)
    (h : hexDigit m = hexDigit n) : m = n := by
  have hall : ∀ m < 16, ∀ n < 16, hexDigit m = hexDigit n → m = n := by decide
  exact hall m hm n hn h

theorem hex_cons (c : UInt8) (s : Text) :
    hex (c :: s) = hexDigit (c.toNat / 16) :: hexDigit (c.toNat % 16) :: hex s := rfl

theorem toNat_div_lt (c : UInt8) : c.toNat / 16 < 16 := by
  have := c.toNat_lt
  omega

theorem hex_injective : Function.Injective hex := by
  intro s t h
  induction s generalizing t with
  | nil =>
    cases t with
    | nil => rfl
    | cons d t => exact absurd h (by simp [hex])
  | cons c s ih =>
    cases t with
    | nil => exact absurd h (by simp [hex])
    | cons d t =>
      rw [hex_cons, hex_cons, List.cons.injEq, List.cons.injEq] at h
      obtain ⟨hhigh, hlow, hrest⟩ := h
      have hhigh := hexDigit_injective (toNat_div_lt c) (toNat_div_lt d) hhigh
      have hlow := hexDigit_injective (Nat.mod_lt _ (by decide)) (Nat.mod_lt _ (by decide)) hlow
      rw [ih hrest, UInt8.toNat_inj.1 (show c.toNat = d.toNat by omega)]

theorem ne_of_mem_hex {s : Text} {c : UInt8} (h : c ∈ hex s) : c ≠ slash ∧ c ≠ dot := by
  rw [hex, List.mem_flatMap] at h
  obtain ⟨b, -, hc⟩ := h
  rcases List.mem_cons.1 hc with rfl | hc
  · exact hexDigit_ne (toNat_div_lt b)
  · obtain rfl := List.mem_singleton.1 hc
    exact hexDigit_ne (Nat.mod_lt _ (by decide))

/-! ## Places -/

namespace Cache

variable {c : Cache} {d d' : Disk} {key : Text}

/-- The name of the directory of a key. -/
def shard (key : Text) : Text := (hex key).take 2

/-- The name of the file of a key. -/
def leaf (key : Text) : Text := hex key ++ bytes ".mp"

/-- The place of the directory of the cache. -/
def home (c : Cache) (d : Disk) : Location := (Path.parts c.dir).foldl Disk.step (d.origin c.dir)

/-- The place of the directory that holds all entries. -/
def entries (c : Cache) (d : Disk) : Location := c.home d ++ [bytes "formatted"]

/-- The place of the file of a key. -/
def placeOf (c : Cache) (d : Disk) (key : Text) : Location := c.entries d ++ [shard key, leaf key]

theorem entries_prefix_placeOf (c : Cache) (d : Disk) (key : Text) :
    c.entries d <+: c.placeOf d key := List.prefix_append _ _

theorem placeOf_injective (c : Cache) (d : Disk) : Function.Injective (c.placeOf d) := by
  intro key key' h
  have hleaf := (List.cons.inj (List.cons.inj (List.append_cancel_left h)).2).1
  exact hex_injective (List.append_cancel_right hleaf)

theorem isName_formatted : Path.IsName (bytes "formatted") :=
  ⟨⟨by decide, by decide, by decide⟩, by decide⟩

theorem isName_of_hex (hkey : key ≠ []) {q : Text} (hq : q.head? = (hex key).head?)
    (hslash : slash ∉ q) : Path.IsName q := by
  obtain ⟨b, key, rfl⟩ := List.exists_cons_of_ne_nil hkey
  rw [hex_cons, List.head?_cons, List.head?_eq_some_iff] at hq
  obtain ⟨rest, rfl⟩ := hq
  have hdot := (hexDigit_ne (toNat_div_lt b)).2
  exact ⟨⟨by simp, hslash, fun h => hdot (List.cons.inj h).1⟩, fun h => hdot (List.cons.inj h).1⟩

theorem isName_shard (hkey : key ≠ []) : Path.IsName (shard key) := by
  refine isName_of_hex hkey (by simp [shard, List.head?_take]) fun hmem => ?_
  exact (ne_of_mem_hex (List.mem_of_mem_take hmem)).1 rfl

theorem isName_leaf (hkey : key ≠ []) : Path.IsName (leaf key) := by
  refine isName_of_hex hkey ?_ fun hmem => ?_
  · obtain ⟨b, key, rfl⟩ := List.exists_cons_of_ne_nil hkey
    rfl
  · rcases List.mem_append.1 hmem with hmem | hmem
    · exact (ne_of_mem_hex hmem).1 rfl
    · exact absurd hmem (by decide)

theorem isName_of_mem (hkey : key ≠ []) :
    ∀ n ∈ [bytes "formatted", shard key, leaf key], Path.IsName n := by
  simp only [List.mem_cons, List.not_mem_nil, or_false, forall_eq_or_imp, forall_eq]
  exact ⟨isName_formatted, isName_shard hkey, isName_leaf hkey⟩

theorem pathOf_eq (c : Cache) (hkey : key ≠ []) :
    c.pathOf key = Path.ofParts (Path.isAbsolute c.dir)
      (Path.parts c.dir ++ [bytes "formatted", shard key, leaf key]) :=
  Path.join_cons_eq c.dir (by simp) (isName_of_mem hkey)

end Cache

namespace Disk

variable {d d' : Disk} {loc : Location}

/-! ## Making directories -/

/-- The second disk is the first with directories made below `top`, and perhaps with one file
written there. -/
structure Filled (top file : Location) (d d' : Disk) : Prop where
  /-- The working directory is the same. -/
  cwd : d'.cwd = d.cwd
  /-- Nothing changes outside. -/
  outside : ∀ l, ¬ top <+: l → d'.holding l = d.holding l
  /-- Directories stay. -/
  directories : ∀ l, d.holding l = .directory → d'.holding l = .directory
  /-- No other file appears. -/
  files : ∀ l t, d'.holding l = .file t → l = file ∨ d.holding l = .file t

theorem Filled.refl (top file : Location) (d : Disk) : Filled top file d d :=
  ⟨rfl, fun _ _ => rfl, fun _ h => h, fun _ _ h => Or.inr h⟩

theorem Filled.trans {top file : Location} {d'' : Disk} (h : Filled top file d d')
    (h' : Filled top file d' d'') : Filled top file d d'' := by
  refine ⟨h'.cwd.trans h.cwd, fun l hl => (h'.outside l hl).trans (h.outside l hl),
    fun l hl => h'.directories l (h.directories l hl), ?_⟩
  intro l t hl
  rcases h'.files l t hl with hl | hl
  · exact Or.inl hl
  · exact h.files l t hl

/-- Something put where no directory was. -/
theorem Put.filled {top file : Location} {x : Holding} (h : d.Put loc x d') (htop : top <+: loc)
    (hold : d.holding loc ≠ .directory) (hfile : ∀ t, x = .file t → loc = file) :
    Filled top file d d' := by
  refine ⟨h.cwd, ?_, ?_, ?_⟩
  · intro l hl
    apply h.holding_of_ne
    rintro rfl
    exact hl htop
  · intro l hl
    rw [h.holding_of_ne, hl]
    rintro rfl
    exact hold hl
  · intro l t hl
    by_cases hloc : l = loc
    · rw [hloc, h.holding_self] at hl
      exact Or.inl (hloc.trans (hfile t hl))
    · rw [h.holding_of_ne hloc] at hl
      exact Or.inr hl

theorem makeDirsFrom_cons (d : Disk) (done : Text) (loc : Location) (name : Text)
    (rest : List Text) :
    d.makeDirsFrom done loc (name :: rest)
      = if name = [dot] ∨ name = Path.up then
          d.makeDirsFrom (done ++ name ++ [slash]) (step loc name) rest
        else if maxName < name.length then .error ⟨bytes "mkdir", done ++ name, .tooLong⟩
        else
          match d.holding (step loc name) with
          | .nothing =>
              makeDirsFrom { d with root := d.root.put (step loc name) (.dir []) }
                (done ++ name ++ [slash]) (step loc name) rest
          | .file _ => .error ⟨bytes "mkdir", done ++ name, .notDirectory⟩
          | .directory => d.makeDirsFrom (done ++ name ++ [slash]) (step loc name) rest := by
  rw [makeDirsFrom, step]
  by_cases hdot : name = [dot]
  · simp [hdot]
  · by_cases hup : name = Path.up
    · simp [hup, show Path.up ≠ [dot] by decide]
    · simp only [hdot, hup, or_self, if_false, holding, Node.holding]
      cases d.root.get? (loc ++ [name]) with
      | none => rfl
      | some n => cases n <;> rfl

theorem exists_of_makeDirs {path : Text} (h : d.makeDirs path = .ok d') :
    ∃ done, d.makeDirsFrom done (d.origin path) (names path) = .ok d' := by
  rw [makeDirs] at h
  rw [origin]
  split at h
  · exact absurd h (by simp)
  · split at h
    · exact absurd h (by simp)
    · split at h
      · rename_i habs
        rw [if_pos habs]
        exact ⟨_, h⟩
      · rename_i habs
        rw [if_neg habs]
        exact ⟨_, h⟩

/-- Directories that are there are passed through. -/
theorem makeDirsFrom_append {done : Text} {ps qs : List Text}
    (hready : ∀ l ∈ ps.scanl step loc, d.holding l = .directory)
    (h : d.makeDirsFrom done loc (ps ++ qs) = .ok d') :
    ∃ done', d.makeDirsFrom done' (ps.foldl step loc) qs = .ok d' := by
  induction ps generalizing done loc with
  | nil => exact ⟨done, h⟩
  | cons name ps ih =>
    rw [List.scanl_cons] at hready
    have hrest : ∀ l ∈ ps.scanl step (step loc name), d.holding l = .directory := fun l hl =>
      hready l (List.mem_cons_of_mem loc hl)
    have hnext : d.holding (step loc name) = .directory := hrest _ (by cases ps <;> simp)
    rw [List.cons_append, makeDirsFrom_cons, hnext] at h
    split at h
    · exact ih hrest h
    · split at h
      · exact absurd h (by simp)
      · exact ih hrest h

/-- One more directory is there, or is made. -/
theorem exists_of_makeDirsFrom_name {top : Location} (file : Location) {done n : Text}
    {rest : List Text}
    (hn : Path.IsName n) (hloc : d.holding loc = .directory) (htop : top <+: loc ++ [n])
    (h : d.makeDirsFrom done loc (n :: rest) = .ok d') :
    ∃ next done', Filled top file d next ∧ next.holding (loc ++ [n]) = .directory ∧
      next.makeDirsFrom done' (loc ++ [n]) rest = .ok d' := by
  rw [makeDirsFrom_cons, step_name hn, if_neg (not_or.2 ⟨hn.ne_dot, hn.ne_up⟩)] at h
  split at h
  · exact absurd h (by simp)
  · cases hold : d.holding (loc ++ [n]) with
    | file t =>
      rw [hold] at h
      exact absurd h (by simp)
    | directory =>
      rw [hold] at h
      exact ⟨d, _, Filled.refl top file d, hold, h⟩
    | nothing =>
      rw [hold] at h
      have hroom : d.root.Room (loc ++ [n]) := by
        refine ⟨?_, Or.inr ?_⟩
        · intro hdir
          exact absurd (hold.symm.trans hdir) (by simp)
        · rw [List.dropLast_concat]
          exact hloc
      have hput := put_of_room (n := .dir []) rfl hroom
      refine ⟨_, _, hput.filled htop (by simp [hold]) (by simp [Node.top]), ?_, h⟩
      rw [hput.holding_self]
      rfl

end Disk

namespace Cache

variable {c : Cache} {d d' : Disk} {key : Text}

theorem place_pathOf (c : Cache) (d : Disk) (hkey : key ≠ []) :
    d.place (c.pathOf key) = c.placeOf d key := by
  rw [c.pathOf_eq hkey, d.place_below c.dir (by simp) (isName_of_mem hkey), placeOf, entries, home,
    List.append_assoc]
  rfl

/-- The directory of the cache is there, with all directories on the way to it. -/
def Ready (c : Cache) (d : Disk) : Prop :=
  ∀ l ∈ (Path.parts c.dir).scanl Disk.step (d.origin c.dir), d.holding l = .directory

theorem Ready.home (h : c.Ready d) : d.holding (c.home d) = .directory :=
  h _ (Disk.foldl_mem_scanl _ _)

theorem dir_pathOf (c : Cache) (hkey : key ≠ []) :
    Path.dir (c.pathOf key) = Path.ofParts (Path.isAbsolute c.dir)
      (Path.parts c.dir ++ [bytes "formatted", shard key]) := by
  have hnames : ∀ n ∈ [bytes "formatted", shard key], Path.IsName n := fun n hn =>
    isName_of_mem hkey n (List.mem_append_left [leaf key] hn)
  have hcut : Path.parts c.dir ++ [bytes "formatted", shard key, leaf key]
      = Path.parts c.dir ++ [bytes "formatted", shard key] ++ [leaf key] := by simp
  rw [c.pathOf_eq hkey, hcut]
  exact Path.dir_ofParts _ (by simp) (Path.isPart_of_mem_parts_append hnames)
    (Path.foldl_push_parts_append c.dir hnames) (isName_leaf hkey).noSlash

/-- The directories of an entry are made. -/
theorem filled_of_makeDirs (hready : c.Ready d) (hkey : key ≠ []) (file : Location)
    (h : d.makeDirs (Path.dir (c.pathOf key)) = .ok d') :
    d.Filled (c.entries d) file d' ∧ d'.holding (c.entries d ++ [shard key]) = .directory := by
  have hnames : ∀ n ∈ [bytes "formatted", shard key], Path.IsName n := fun n hn =>
    isName_of_mem hkey n (List.mem_append_left [leaf key] hn)
  obtain ⟨done, hmade⟩ := Disk.exists_of_makeDirs h
  rw [c.dir_pathOf hkey, d.origin_below c.dir (by simp) hnames,
    Disk.names_below c.dir (by simp) hnames] at hmade
  obtain ⟨done, hmade⟩ := Disk.makeDirsFrom_append hready hmade
  obtain ⟨next, done, hfirst, hdir, hmade⟩ :=
    Disk.exists_of_makeDirsFrom_name file isName_formatted hready.home (List.prefix_refl _) hmade
  obtain ⟨last, done, hsecond, hdir', hmade⟩ :=
    Disk.exists_of_makeDirsFrom_name file (isName_shard hkey) hdir (List.prefix_append _ _) hmade
  obtain rfl := Except.ok.inj hmade
  exact ⟨hfirst.trans hsecond, hdir'⟩

/-- Keeping an entry writes the file of its key and touches nothing outside the entries. -/
theorem put_filled (hready : c.Ready d) (hkey : key ≠ []) {now : Int} {e : CacheEntry}
    (h : c.put d now key e = .ok d') : d.Filled (c.entries d) (c.placeOf d key) d' := by
  rw [put] at h
  cases hmade : d.makeDirs (Path.dir (c.pathOf key)) with
  | error f =>
    rw [hmade] at h
    exact absurd h (by simp [bind, Except.bind])
  | ok next =>
    obtain ⟨hdirs, habove⟩ := filled_of_makeDirs hready hkey (c.placeOf d key) hmade
    obtain ⟨content, hwrite⟩ : ∃ content, next.write (c.pathOf key) content = .ok d' := by
      simp only [hmade, bind, Except.bind] at h
      split at h
      · exact absurd h (by simp [throw, throwThe, MonadExceptOf.throw])
      · exact ⟨_, h⟩
    obtain ⟨loc, hloc, hold, rfl⟩ := Disk.exists_of_write hwrite
    obtain rfl : loc = c.placeOf d key := by
      rw [Disk.locate_eq_place hloc, c.place_pathOf next hkey]
      simp only [placeOf, entries, home, Disk.origin, hdirs.cwd]
    have hroom : next.root.Room (c.placeOf d key) := by
      refine ⟨hold, Or.inr ?_⟩
      rw [placeOf, List.dropLast_append_cons]
      exact habove
    have hput := Disk.put_of_room (n := .file content) trivial hroom
    exact hdirs.trans (hput.filled (c.entries_prefix_placeOf d key) hold fun _ _ => rfl)

/-- A key that is found has its file. -/
theorem exists_file_of_has (hkey : key ≠ []) (h : c.has d key = true) :
    ∃ t, d.holding (c.placeOf d key) = .file t := by
  rw [has] at h
  split at h
  · rename_i e hget
    rw [get] at hget
    split at hget
    · split at hget
      · exact absurd hget (by simp)
      · exact absurd hget (by simp)
    · rename_i t hread
      obtain ⟨loc, hloc, hfile, -⟩ := Disk.exists_of_read hread
      rw [Disk.locate_eq_place hloc, c.place_pathOf d hkey] at hfile
      exact ⟨t, hfile⟩
  · exact absurd h (by simp)

end Cache

end GrammarLayout
