import GrammarLayout.Proofs.Cache.Store
import GrammarLayout.Proofs.Run.Effect
import GrammarLayout.Proofs.Style.Encode
import Mathlib.Data.List.Dedup

/-!
# Runs with a cache

A run notes in the cache which contents it found or left formatted, and later
runs skip them.  Two copies of a disk are taken through the same history of
runs and edits, one with a cache and one without: as long as every content that
is noted is one that formatting leaves as it is, they get the same results and
hold the same files.

What is proved here:

* `eq_of_cacheKey_eq` — a key belongs to one content and one style, as far as
  digests do not collide;
* `Cache.Shadows.step`, `Cache.Shadows.steps` — one file and one run on both
  disks;
* `replay_cached` — whole histories.
-/

namespace GrammarLayout

open Ascii Text

/-! ## Keys -/

/-- No two of the texts have the same digest. -/
def NoCollision (H : Text → Prop) : Prop := ∀ x y, H x → H y → sha256 x = sha256 y → x = y

/-- The texts that are digested for the key of a content under a style. -/
def digested (style : Style) (content : Text) : List Text :=
  [content, style.encode, sha256 content ++ style.fingerprint]

theorem eq_of_cacheKey_eq {H : Text → Prop} (hH : NoCollision H) {style style' : Style}
    {content content' : Text} (h : ∀ x ∈ digested style content, H x)
    (h' : ∀ x ∈ digested style' content', H x)
    (hkey : cacheKey (sha256 content) style.fingerprint
      = cacheKey (sha256 content') style'.fingerprint) :
    content = content' ∧ style = style' := by
  have hboth : sha256 content ++ style.fingerprint = sha256 content' ++ style'.fingerprint :=
    hH _ _ (h _ (by simp [digested])) (h' _ (by simp [digested])) hkey
  obtain ⟨hcontent, hstyle⟩ := List.append_inj hboth (by simp)
  refine ⟨hH _ _ (h _ (by simp [digested])) (h' _ (by simp [digested])) hcontent, ?_⟩
  exact Style.encode_injective
    (hH _ _ (h _ (by simp [digested])) (h' _ (by simp [digested])) hstyle)

theorem RunOptions.keyFor_ne_nil (o : RunOptions) (content : Text) : o.keyFor content ≠ [] := by
  intro hnil
  have hlength : (o.keyFor content).length = 32 := length_sha256 _
  simp [hnil] at hlength

/-! ## Two disks -/

/-- The two disks hold the same outside the directory at `top`. -/
structure Disk.SameOutside (top : Location) (d d' : Disk) : Prop where
  /-- The working directory is the same. -/
  cwd : d'.cwd = d.cwd
  /-- Every other place holds the same. -/
  holding : ∀ l, ¬ top <+: l → d'.holding l = d.holding l

namespace Cache

variable {c : Cache} {H : Text → Prop} {d d' p p' : Disk} {path : Text}

theorem entries_congr (h : d'.cwd = d.cwd) : c.entries d' = c.entries d := by
  simp only [entries, home, Disk.origin, h]

theorem placeOf_congr (h : d'.cwd = d.cwd) (key : Text) : c.placeOf d' key = c.placeOf d key := by
  rw [placeOf, placeOf, entries_congr h]

/-- The path keeps away from the entries of the cache. -/
def Clear (c : Cache) (d : Disk) (path : Text) : Prop := ∀ l ∈ d.way path, ¬ c.entries d <+: l

/-- Every key that has a file was noted for a content that its style leaves as it is. -/
def Sound (c : Cache) (H : Text → Prop) (d : Disk) : Prop :=
  ∀ key t, d.holding (c.placeOf d key) = .file t → ∃ style content,
    key = cacheKey (sha256 content) style.fingerprint ∧ (∀ x ∈ digested style content, H x) ∧
      format style content = .ok content

/-- The disk `d` is `p` with a cache in it that can be relied on. -/
structure Shadows (c : Cache) (H : Text → Prop) (p d : Disk) : Prop where
  /-- Outside the entries they hold the same. -/
  same : p.SameOutside (c.entries p) d
  /-- The directory of the cache is there. -/
  ready : c.Ready d
  /-- What the cache says is so. -/
  sound : c.Sound H d

namespace Shadows

theorem locate_eq (h : c.Shadows H p d) (hclear : c.Clear p path) :
    d.locate path = p.locate path :=
  Disk.locate_congr h.same.cwd fun l hl => by rw [h.same.holding l (hclear l hl)]

theorem read_eq (h : c.Shadows H p d) (hclear : c.Clear p path) : d.read path = p.read path := by
  refine Disk.read_congr (h.locate_eq hclear) fun loc hloc => h.same.holding loc (hclear loc ?_)
  rw [Disk.locate_eq_place hloc]
  exact p.place_mem_way path

/-- A file that stands outside the cache is written on both disks. -/
theorem put (h : c.Shadows H p d) {loc : Location} {b b' : Text} (hloc : ¬ c.entries p <+: loc)
    (hfile : d.holding loc = .file b) (hp : p.Put loc (.file b') p')
    (hd : d.Put loc (.file b') d') : c.Shadows H p' d' := by
  have hcwd : d'.cwd = p'.cwd := by rw [hd.cwd, hp.cwd, h.same.cwd]
  refine ⟨⟨hcwd, ?_⟩, ?_, ?_⟩
  · intro l hl
    rw [entries_congr hp.cwd] at hl
    by_cases hsame : l = loc
    · rw [hsame, hd.holding_self, hp.holding_self]
    · rw [hd.holding_of_ne hsame, hp.holding_of_ne hsame, h.same.holding l hl]
  · intro l hl
    rw [Disk.origin, hd.cwd, ← Disk.origin] at hl
    have hdir := h.ready l hl
    rw [hd.holding_of_ne, hdir]
    rintro rfl
    exact absurd (hdir.symm.trans hfile) (by simp)
  · intro key t ht
    rw [placeOf_congr hd.cwd, hd.holding_of_ne] at ht
    · exact h.sound key t ht
    · rintro rfl
      refine hloc ?_
      rw [← entries_congr h.same.cwd]
      exact c.entries_prefix_placeOf d key

/-- A content that formatting leaves as it is may be noted. -/
theorem noted (h : c.Shadows H p d) {o : RunOptions} (hcache : o.cache = some c) {content : Text}
    (hdigested : ∀ x ∈ digested o.style content, H x)
    (hformat : format o.style content = .ok content)
    (hnoted : o.Noted (o.keyFor content) d d') : c.Shadows H p d' := by
  cases hnoted with
  | not => exact h
  | kept hcache' hput =>
    obtain rfl := Option.some.inj (hcache.symm.trans hcache')
    have hfilled := put_filled h.ready (o.keyFor_ne_nil content) hput
    refine ⟨⟨hfilled.cwd.trans h.same.cwd, ?_⟩, ?_, ?_⟩
    · intro l hl
      rw [hfilled.outside l (by rwa [entries_congr h.same.cwd]), h.same.holding l hl]
    · intro l hl
      rw [Disk.origin, hfilled.cwd, ← Disk.origin] at hl
      exact hfilled.directories l (h.ready l hl)
    · intro key t ht
      rw [placeOf_congr hfilled.cwd] at ht
      rcases hfilled.files _ t ht with hsame | hold
      · exact ⟨o.style, content, placeOf_injective _ d hsame, hdigested, hformat⟩
      · exact h.sound key t hold

/-- What the cache knows is formatted. -/
theorem format_of_knows (h : c.Shadows H p d) (hH : NoCollision H) {o : RunOptions}
    (hcache : o.cache = some c) {content : Text} (hdigested : ∀ x ∈ digested o.style content, H x)
    (hknows : o.knows d content = true) : o.mode ≠ .stdout ∧ format o.style content = .ok content := by
  rw [RunOptions.knows, hcache, Bool.and_eq_true, decide_eq_true_eq] at hknows
  refine ⟨hknows.1, ?_⟩
  obtain ⟨t, ht⟩ := exists_file_of_has (o.keyFor_ne_nil content) hknows.2
  obtain ⟨style, content', hsame, hdigested', hformat⟩ := h.sound _ t ht
  obtain ⟨rfl, rfl⟩ := eq_of_cacheKey_eq hH hdigested hdigested' hsame
  exact hformat

end Shadows

end Cache

/-! ## Runs -/

/-- The result but for its timings and for whether it came from the cache. -/
def FileResult.verdict (r : FileResult) : FileResult := { r with cached := false, timings := {} }

theorem FileResult.verdict_untimed (r : FileResult) : r.untimed.verdict = r.verdict := rfl

namespace RunOptions

/-- Formatting the file gives a content that formatting leaves as it is, wherever it is written
back, and the texts digested for its keys are in `H`. -/
def Settles (o : RunOptions) (H : Text → Prop) (d : Disk) (path : Text) : Prop :=
  ∀ b, d.read path = .ok b → (∀ x ∈ digested o.style (normalize b).1, H x) ∧
    ∀ out, o.mode.rewrites = true → format o.style (normalize b).1 = .ok out →
      (∀ x ∈ digested o.style out, H x) ∧ format o.style out = .ok out

/-- The run with a cache, or with none. -/
def withCache (o : RunOptions) (cache : Option Cache) : RunOptions := { o with cache := cache }

end RunOptions

namespace Cache

variable {c : Cache} {H : Text → Prop} {o : RunOptions} {d d' p p' : Disk} {path : Text}

/-- A file that the cache knows is left alone on one disk and found formatted on the other. -/
theorem Shadows.step_known (h : c.Shadows H p d) (hH : NoCollision H) {b : Text} {loc : Location}
    (hloc : ¬ c.entries p <+: loc) (hfile : d.holding loc = .file b) (hread : p.read path = .ok b)
    (hdigested : ∀ x ∈ digested o.style (normalize b).1, H x)
    (hknows : (o.withCache (some c)).knows d (normalize b).1 = true)
    (hput : p.Put loc (.file ((o.withCache none).leaves b)) p') :
    ((o.withCache none).outcome p path).verdict = FileResult.verdict { path := path, cached := true }
      ∧ c.Shadows H p' d := by
  obtain ⟨hmode, hformat⟩ := h.format_of_knows (o := o.withCache (some c)) hH rfl hdigested hknows
  have hmode' : (o.withCache none).mode ≠ .stdout := hmode
  have hformat' : format (o.withCache none).style (normalize b).1 = .ok (normalize b).1 := hformat
  have hleaves : (o.withCache none).leaves b = b := by simp [RunOptions.leaves, hformat']
  rw [hleaves] at hput
  refine ⟨?_, h.put hloc hfile hput (hfile ▸ d.put_self loc)⟩
  simp [RunOptions.outcome, hread, hformat', hmode', FileResult.verdict]

/-- One file on both disks. -/
theorem Shadows.step (h : c.Shadows H p d) (hH : NoCollision H) (hclear : c.Clear p path)
    (hsettles : o.Settles H p path) {r r' : FileResult}
    (hp : (o.withCache none).Step p path p' r') (hd : (o.withCache (some c)).Step d path d' r) :
    r.verdict = r'.verdict ∧ c.Shadows H p' d' := by
  have hcache : (o.withCache (some c)).cache = some c := rfl
  have hread := h.read_eq hclear
  have houtcome : (o.withCache (some c)).outcome d path = (o.withCache none).outcome p path :=
    RunOptions.outcome_congr hread
  rw [hp.result_eq fun _ _ => RunOptions.knows_of_no_cache rfl _ _, ← houtcome]
  cases hb : p.read path with
  | error e =>
    rw [hb] at hread
    rw [hp.eq_of_read_error hb, hd.eq_of_read_error hread,
      hd.result_eq fun b hb' => absurd (hread.symm.trans hb') (by simp)]
    exact ⟨rfl, h⟩
  | ok b =>
    rw [hb] at hread
    obtain ⟨hdigested, hstable⟩ := hsettles b hb
    obtain ⟨loc, hloc, hfile, -⟩ := Disk.exists_of_read hb
    have hplace : ¬ c.entries p <+: loc := by
      rw [Disk.locate_eq_place hloc]
      exact hclear _ (p.place_mem_way path)
    have hfile' : d.holding loc = .file b := (h.same.holding loc hplace).trans hfile
    have hput := hp.put rfl hb hloc
    cases hknows : (o.withCache (some c)).knows d (normalize b).1 with
    | true =>
      obtain ⟨rfl, rfl⟩ := hd.eq_of_knows hread hknows
      rw [houtcome]
      exact (h.step_known hH hplace hfile' hb hdigested hknows hput).imp_left Eq.symm
    | false =>
      rw [hd.result_eq fun b' hb' => by rwa [Except.ok.inj (hb'.symm.trans hread)]]
      refine ⟨rfl, ?_⟩
      obtain ⟨mid, hmid, hnoted⟩ :=
        hd.exists_put hread ((h.locate_eq hclear).trans hloc) hknows
      have hshadows : c.Shadows H p' mid := h.put hplace hfile' hput hmid
      -- What is noted is either what the file held or what was written.
      rcases hnoted with rfl | ⟨content, hformat, rfl | hmode, hnoted⟩
      · exact hshadows
      · exact hshadows.noted hcache hdigested hformat hnoted
      · obtain ⟨hdigested', hfixed⟩ := hstable content hmode hformat
        exact hshadows.noted hcache hdigested' hfixed hnoted

/-- The files of a run keep away from the cache, and each of them settles when its turn comes. -/
def AdmitsFiles (c : Cache) (H : Text → Prop) (o : RunOptions) : Disk → List Text → Prop
  | _, [] => True
  | p, path :: paths => c.Clear p path ∧ o.Settles H p path ∧
      ∀ next r, (o.withCache none).Step p path next r → c.AdmitsFiles H o next paths

theorem admitsFiles_singleton {b out : Text} (hclear : c.Clear p path) (hread : p.read path = .ok b)
    (hdigested : ∀ x ∈ digested o.style (normalize b).1, H x)
    (hformat : format o.style (normalize b).1 = .ok out)
    (hsettled : o.mode.rewrites = true →
      (∀ x ∈ digested o.style out, H x) ∧ format o.style out = .ok out) :
    c.AdmitsFiles H o p [path] := by
  refine ⟨hclear, ?_, fun _ _ _ => trivial⟩
  intro b' hread'
  obtain rfl := Except.ok.inj (hread.symm.trans hread')
  refine ⟨hdigested, ?_⟩
  intro out' hmode hformat'
  obtain rfl := Except.ok.inj (hformat.symm.trans hformat')
  exact hsettled hmode

/-- One run on both disks. -/
theorem Shadows.steps (hH : NoCollision H) {paths : List Text} {rs rs' : List FileResult}
    (h : c.Shadows H p d) (hadmits : c.AdmitsFiles H o p paths)
    (hp : (o.withCache none).Steps p paths p' rs')
    (hd : (o.withCache (some c)).Steps d paths d' rs) :
    rs.map FileResult.verdict = rs'.map FileResult.verdict ∧ c.Shadows H p' d' := by
  induction paths generalizing p d rs rs' with
  | nil =>
    cases hp
    cases hd
    exact ⟨rfl, h⟩
  | cons path paths ih =>
    obtain ⟨hclear, hsettles, hlater⟩ := hadmits
    cases hp with
    | cons hp hps =>
      cases hd with
      | cons hd hds =>
        obtain ⟨hfirst, hnext⟩ := h.step hH hclear hsettles hp hd
        obtain ⟨hrest, hlast⟩ := ih hnext (hlater _ _ hp) hps hds
        exact ⟨by rw [List.map_cons, List.map_cons, hfirst, hrest], hlast⟩

end Cache

/-! ## Histories -/

/-- What happens to a disk. -/
inductive Event where
  /-- Files are edited. -/
  | edit (change : Disk → Disk)
  /-- Files are formatted, under a trace. -/
  | run (recorder : Recorder) (o : RunOptions) (paths : List Text)

/-- The disk after an event, and the results of a run. -/
def Event.happen (cache : Option Cache) (d : Disk) : Event → Disk × List FileResult
  | .edit change => (change d, [])
  | .run recorder o paths =>
      let run := (o.withCache cache).formatFiles { disk := d, recorder := recorder } paths
      (run.1.disk, run.2)

/-- The disk after a history, and the results of its runs. -/
def replay (cache : Option Cache) : Disk → List Event → Disk × List (List FileResult)
  | d, [] => (d, [])
  | d, e :: es =>
      let next := e.happen cache d
      let rest := replay cache next.1 es
      (rest.1, next.2 :: rest.2)

namespace Cache

variable {c : Cache} {H : Text → Prop} {d p : Disk}

/-- An edit leaves the cache alone: it neither changes nor looks at its entries. -/
structure Spares (c : Cache) (change : Disk → Disk) : Prop where
  /-- The working directory stays. -/
  cwd : ∀ d, (change d).cwd = d.cwd
  /-- The directory of the cache stays. -/
  ready : ∀ d, c.Ready d → c.Ready (change d)
  /-- The entries stay. -/
  inside : ∀ d l, c.entries d <+: l → (change d).holding l = d.holding l
  /-- What is edited does not depend on them. -/
  outside : ∀ d d', d.SameOutside (c.entries d) d' →
    (change d).SameOutside (c.entries d) (change d')

/-- The edits of a history leave the cache alone, and so do its runs, in which every file settles. -/
def Admits (c : Cache) (H : Text → Prop) : Disk → List Event → Prop
  | _, [] => True
  | p, .edit change :: es => c.Spares change ∧ c.Admits H (change p) es
  | p, .run recorder o paths :: es => c.AdmitsFiles H o p paths ∧
      c.Admits H ((Event.run recorder o paths).happen none p).1 es

theorem Shadows.edit (h : c.Shadows H p d) {change : Disk → Disk} (hchange : c.Spares change) :
    c.Shadows H (change p) (change d) := by
  refine ⟨?_, hchange.ready d h.ready, ?_⟩
  · rw [entries_congr (hchange.cwd p)]
    exact hchange.outside p d h.same
  · intro key t ht
    rw [placeOf_congr (hchange.cwd d), hchange.inside d _ (c.entries_prefix_placeOf d key)] at ht
    exact h.sound key t ht

theorem Shadows.run (hH : NoCollision H) (h : c.Shadows H p d) (recorder : Recorder)
    {o : RunOptions} {paths : List Text} (hadmits : c.AdmitsFiles H o p paths) :
    ((Event.run recorder o paths).happen (some c) d).2.map FileResult.verdict
        = ((Event.run recorder o paths).happen none p).2.map FileResult.verdict ∧
      c.Shadows H ((Event.run recorder o paths).happen none p).1
        ((Event.run recorder o paths).happen (some c) d).1 := by
  have hp := (o.withCache none).formatFiles_steps { disk := p, recorder := recorder } paths
  have hd := (o.withCache (some c)).formatFiles_steps { disk := d, recorder := recorder } paths
  obtain ⟨hresults, hnext⟩ := h.steps hH hadmits hp hd
  simp only [List.map_map, Function.comp_def, FileResult.verdict_untimed] at hresults
  exact ⟨hresults, hnext⟩

/-- A whole history on both disks. -/
theorem Shadows.replay (hH : NoCollision H) {events : List Event} (h : c.Shadows H p d)
    (hadmits : c.Admits H p events) :
    (GrammarLayout.replay (some c) d events).2.map (List.map FileResult.verdict)
        = (GrammarLayout.replay none p events).2.map (List.map FileResult.verdict) ∧
      c.Shadows H (GrammarLayout.replay none p events).1
        (GrammarLayout.replay (some c) d events).1 := by
  induction events generalizing p d with
  | nil => exact ⟨rfl, h⟩
  | cons e events ih =>
    cases e with
    | edit change =>
      obtain ⟨hrest, hlast⟩ := ih (h.edit hadmits.1) hadmits.2
      exact ⟨congrArg ([] :: ·) hrest, hlast⟩
    | run recorder o paths =>
      obtain ⟨hfirst, hnext⟩ := h.run hH recorder hadmits.1
      obtain ⟨hrest, hlast⟩ := ih hnext hadmits.2
      exact ⟨congrArg₂ (· :: ·) hfirst hrest, hlast⟩

theorem Admits.cwd_eq {events : List Event} (h : c.Admits H p events) :
    (GrammarLayout.replay none p events).1.cwd = p.cwd := by
  induction events generalizing p with
  | nil => rfl
  | cons e events ih =>
    cases e with
    | edit change => exact (ih h.2).trans (h.1.cwd p)
    | run recorder o paths =>
      have hsteps := (o.withCache none).formatFiles_steps { disk := p, recorder := recorder } paths
      exact (ih h.2).trans (hsteps.cwd_eq rfl)

end Cache

/-! ## An edit -/

/-- The disk with a file of the top directory set. -/
def Disk.setFile (name content : Text) (d : Disk) : Disk :=
  { d with root := d.root.put [name] (.file content) }

theorem Disk.holding_setFile (name content : Text) (d : Disk) (l : Location) :
    (d.setFile name content).holding l =
      if d.holding [] = .directory ∧ l.head? = some name then (Node.file content).holding l.tail
      else d.holding l := by
  obtain ⟨root, cwd⟩ := d
  cases root with
  | file t =>
    rw [if_neg (by simp [Disk.holding, Node.top])]
    rfl
  | dir entries =>
    cases l with
    | nil => simp [Disk.holding, Disk.setFile, Node.put, Node.top]
    | cons key l =>
      have hset := Node.holding_dir_setEntry entries name key (.file content) l
      simpa [Disk.holding, Disk.setFile, Node.put, Node.top] using hset

/-- A cache directly below the root is left alone by edits of the files beside it. -/
theorem Cache.spares_setFile {c : Cache} {name : Text} (top : Text) (habs : Path.isAbsolute c.dir = true)
    (hparts : Path.parts c.dir = [top]) (htop : Path.IsName top) (hname : name ≠ top)
    (content : Text) : c.Spares (Disk.setFile name content) := by
  have horigin : ∀ d : Disk, d.origin c.dir = [] := by
    intro d
    rw [Disk.origin, if_pos habs]
  have hentries : ∀ d : Disk, c.entries d = [top, bytes "formatted"] := by
    intro d
    rw [entries, home, hparts, horigin, List.foldl_cons, Disk.step_name htop]
    rfl
  have hkept : ∀ (d : Disk) {l : Location}, l.head? ≠ some name →
      (d.setFile name content).holding l = d.holding l := by
    intro d l hl
    rw [Disk.holding_setFile, if_neg (fun h => hl h.2)]
  refine ⟨fun _ => rfl, ?_, ?_, ?_⟩
  · intro d hready l hl
    have hway : l = [] ∨ l = [top] := by
      simpa [hparts, Disk.origin, habs, Disk.step_name htop] using hl
    rw [hkept d, hready l hl]
    rcases hway with rfl | rfl
    · simp
    · simpa using Ne.symm hname
  · intro d l hl
    rw [hentries] at hl
    obtain ⟨rest, rfl⟩ := hl
    exact hkept d (by simpa using Ne.symm hname)
  · intro d d' hsame
    refine ⟨hsame.cwd, ?_⟩
    intro l hl
    have hroot : d'.holding [] = d.holding [] := hsame.holding [] (by simp [hentries])
    rw [Disk.holding_setFile, Disk.holding_setFile, hroot, hsame.holding l hl]

/-- From an empty cache on, a history gives every file the same result and leaves it with the same
bytes as without a cache, as long as everything that is written back is left as it is when it is
formatted again. -/
theorem replay_cached {c : Cache} {H : Text → Prop} (hH : NoCollision H) {d : Disk}
    (hready : c.Ready d) (hempty : ∀ l t, c.entries d <+: l → d.holding l ≠ .file t)
    {events : List Event} (hadmits : c.Admits H d events) :
    (replay (some c) d events).2.map (List.map FileResult.verdict)
        = (replay none d events).2.map (List.map FileResult.verdict) ∧
      ∀ l, ¬ c.entries d <+: l →
        (replay (some c) d events).1.holding l = (replay none d events).1.holding l := by
  have hstart : c.Shadows H d d := by
    refine ⟨⟨rfl, fun _ _ => rfl⟩, hready, ?_⟩
    intro key t ht
    exact absurd ht (hempty _ t (c.entries_prefix_placeOf d key))
  obtain ⟨hresults, hlast⟩ := hstart.replay hH hadmits
  refine ⟨hresults, ?_⟩
  intro l hl
  apply hlast.same.holding
  rwa [Cache.entries_congr hadmits.cwd_eq]

/-- A file is formatted, set back to what it held, formatted again and found in the cache. -/
theorem replay_cached_set_back :
    let c : Cache := ⟨bytes "/cache"⟩
    let d : Disk := ⟨.dir [(bytes "cache", .dir []), (bytes "a.y", .file (bytes "a: b\n"))], []⟩
    let write := Event.run {} { mode := .write } [bytes "a.y"]
    let check := Event.run {} { mode := .check } [bytes "a.y"]
    let setBack := Event.edit (Disk.setFile (bytes "a.y") (bytes "a: b\n"))
    let events := [write, setBack, write, check]
    (replay (some c) d events).2.map (List.map FileResult.verdict)
      = (replay none d events).2.map (List.map FileResult.verdict) := by
  intro c d write check setBack events
  let given := bytes "a: b\n"
  let formatted := bytes "a :\n  b\n  ;\n"
  let texts := ([given, formatted].flatMap (digested {})).dedup
  have hH : NoCollision (· ∈ texts) := fun x y hx hy =>
    List.inj_on_of_nodup_map (by decide +kernel) hx hy
  have hdigested : ∀ t ∈ [given, formatted], ∀ x ∈ digested {} t, x ∈ texts := fun t ht x hx =>
    List.mem_dedup.2 (List.mem_flatMap.2 ⟨t, ht, hx⟩)
  have hready : c.Ready d := by
    unfold Cache.Ready
    decide +kernel
  have hempty : ∀ l t, c.entries d <+: l → d.holding l ≠ .file t := by
    rintro l t ⟨rest, rfl⟩
    have hnothing : d.holding (c.entries d ++ rest) = .nothing := rfl
    simp [hnothing]
  have hclear : ∀ p : Disk, p.cwd = [] → c.Clear p (bytes "a.y") := by
    intro p hcwd l hl
    have hway : p.way (bytes "a.y") = [[], [bytes "a.y"]] := by
      rw [Disk.way, Disk.origin, hcwd]
      decide +kernel
    rw [hway] at hl
    have hentries : c.entries p = [bytes "cache", bytes "formatted"] := rfl
    rw [hentries]
    revert l
    decide +kernel
  have hgiven : format {} (normalize given).1 = .ok formatted := by decide +kernel
  have hformatted : format {} (normalize formatted).1 = .ok formatted := by decide +kernel
  have hstable : (∀ x ∈ digested {} formatted, x ∈ texts) ∧ format {} formatted = .ok formatted :=
    ⟨hdigested _ (by simp), by decide +kernel⟩
  have hwrite : ∀ p : Disk, p.cwd = [] → p.read (bytes "a.y") = .ok given →
      c.AdmitsFiles (· ∈ texts) { mode := .write } p [bytes "a.y"] := fun p hcwd hread =>
    Cache.admitsFiles_singleton (hclear p hcwd) hread (hdigested given (by simp)) hgiven
      fun _ => hstable
  have hcheck : ∀ p : Disk, p.cwd = [] → p.read (bytes "a.y") = .ok formatted →
      c.AdmitsFiles (· ∈ texts) { mode := .check } p [bytes "a.y"] := fun p hcwd hread =>
    Cache.admitsFiles_singleton (hclear p hcwd) hread hstable.1 hformatted fun _ => hstable
  have hspares : c.Spares (Disk.setFile (bytes "a.y") given) :=
    Cache.spares_setFile (bytes "cache") (by decide +kernel) (by decide +kernel)
      ⟨⟨by decide, by decide, by decide⟩, by decide⟩ (by decide) given
  have hadmits : c.Admits (· ∈ texts) d events :=
    ⟨hwrite d rfl (by decide +kernel), hspares, hwrite _ (by decide +kernel) (by decide +kernel),
      hcheck _ (by decide +kernel) (by decide +kernel), trivial⟩
  exact (replay_cached hH hready hempty hadmits).1

end GrammarLayout
