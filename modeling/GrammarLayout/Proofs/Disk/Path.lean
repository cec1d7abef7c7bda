import GrammarLayout.Disk.Basic
import GrammarLayout.Proofs.Text.Split
import Mathlib.Data.List.Induction

/-!
# Cleaned paths

A cleaned path is given by its parts.  Its names are these parts, names put
below a path are parts behind those of the path, and the directory of a path
has all parts but the last.

What is proved here:

* `Path.foldl_push_reverse` — cleaning what is clean changes nothing;
* `Path.join_cons_eq` — paths below a directory;
* `Path.dir_ofParts` — the directory of a cleaned path;
* `Path.clean_eq_iff` — which paths are the same after cleaning;
* `Path.clean_join_cons`, `Path.join_join_cons` — names put below a path, and then further ones;
* `Path.ext_suffix`, `Path.ext_append_dot` — the ending of a path;
* `Disk.names_ofParts` — the names of a cleaned path are its parts.
-/

namespace GrammarLayout

open Ascii Text

namespace Path

/-- A part that cleaning keeps. -/
structure IsPart (q : Text) : Prop where
  /-- It is not empty. -/
  ne_nil : q ≠ []
  /-- It is one part. -/
  noSlash : slash ∉ q
  /-- It leads somewhere. -/
  ne_dot : q ≠ [dot]

/-- A part that leads down. -/
structure IsName (q : Text) : Prop extends IsPart q where
  /-- It does not lead up. -/
  ne_up : q ≠ up

theorem isName_iff {q : Text} : IsName q ↔ q ≠ [] ∧ slash ∉ q ∧ q ≠ [dot] ∧ q ≠ up :=
  ⟨fun h => ⟨h.ne_nil, h.noSlash, h.ne_dot, h.ne_up⟩, fun ⟨h1, h2, h3, h4⟩ => ⟨⟨h1, h2, h3⟩, h4⟩⟩

instance : DecidablePred IsName := fun _ => decidable_of_iff _ isName_iff.symm

theorem IsName.push {q : Text} (h : IsName q) (abs : Bool) (stack : List Text) :
    push abs stack q = q :: stack := by
  simp [Path.push, h.ne_nil, h.ne_dot, h.ne_up]

theorem foldl_push_names (abs : Bool) (stack : List Text) {ns : List Text}
    (h : ∀ n ∈ ns, IsName n) : ns.foldl (push abs) stack = ns.reverse ++ stack := by
  induction ns generalizing stack with
  | nil => rfl
  | cons n ns ih =>
    rw [List.foldl_cons, (h n List.mem_cons_self).push,
      ih _ fun m hm => h m (List.mem_cons_of_mem n hm), List.reverse_cons, List.append_assoc]
    rfl

theorem isPart_up : IsPart up := ⟨by decide, by decide, by decide⟩

/-- What is put on the stack is kept by cleaning. -/
theorem isPart_of_mem_push {abs : Bool} {stack : List Text} {part q : Text}
    (hstack : ∀ q ∈ stack, IsPart q) (hpart : slash ∉ part) (hq : q ∈ push abs stack part) :
    IsPart q := by
  unfold Path.push at hq
  split at hq
  · exact hstack q hq
  · rename_i hkept
    rw [not_or] at hkept
    split at hq
    · split at hq
      · split at hq
        · simp at hq
        · obtain rfl := List.mem_singleton.1 hq
          exact isPart_up
      · split at hq
        · rcases List.mem_cons.1 hq with rfl | hq
          · exact isPart_up
          · exact hstack q hq
        · exact hstack q (List.mem_cons_of_mem _ hq)
    · rcases List.mem_cons.1 hq with rfl | hq
      · exact ⟨hkept.1, hpart, hkept.2⟩
      · exact hstack q hq

theorem isPart_of_mem_foldl_push {abs : Bool} {ps stack : List Text}
    (hstack : ∀ q ∈ stack, IsPart q) (hps : ∀ p ∈ ps, slash ∉ p) :
    ∀ q ∈ ps.foldl (push abs) stack, IsPart q := by
  induction ps generalizing stack with
  | nil => exact hstack
  | cons p ps ih =>
    refine ih (fun q hq => ?_) fun q hq => hps q (List.mem_cons_of_mem p hq)
    exact isPart_of_mem_push hstack (hps p List.mem_cons_self) hq

/-- The parts of a path are kept by cleaning. -/
theorem isPart_of_mem_parts {p q : Text} (h : q ∈ parts p) : IsPart q := by
  rw [parts, List.mem_reverse] at h
  exact isPart_of_mem_foldl_push (by simp) (fun _ hq => notMem_of_mem_splitOn hq) q h

/-- Cleaning what is clean changes nothing. -/
theorem foldl_push_reverse (abs : Bool) {ps : List Text} (h : ∀ p ∈ ps, slash ∉ p) :
    (ps.foldl (push abs) []).reverse.foldl (push abs) [] = ps.foldl (push abs) [] := by
  induction ps using List.reverseRecOn with
  | nil => rfl
  | append_singleton ps p ih =>
    have hps : ∀ q ∈ ps, slash ∉ q := fun q hq => h q (List.mem_append_left _ hq)
    have hparts : ∀ q ∈ ps.foldl (push abs) [], IsPart q := isPart_of_mem_foldl_push (by simp) hps
    specialize ih hps
    rw [List.foldl_append, List.foldl_cons, List.foldl_nil]
    generalize ps.foldl (push abs) [] = stack at ih hparts
    have hadded : ∀ q, push abs stack q = q :: stack →
        (q :: stack).reverse.foldl (push abs) [] = q :: stack := by
      intro q hq
      rw [List.reverse_cons, List.foldl_append, ih, List.foldl_cons, List.foldl_nil, hq]
    by_cases hskip : p = [] ∨ p = [dot]
    · rw [Path.push.eq_def, if_pos hskip, ih]
    · by_cases hup : p = up
      · cases stack with
        | nil =>
          rw [Path.push, if_neg hskip, if_pos hup]
          cases abs <;> rfl
        | cons top rest =>
          by_cases htop : top = up
          · have hpush : push abs (top :: rest) p = up :: top :: rest := by
              rw [Path.push, if_neg hskip, if_pos hup]
              exact if_pos htop
            rw [hpush]
            exact hadded up (by rw [← hup, hpush, hup])
          · -- The name that `..` takes away was put on what is left.
            have hname : IsName top := ⟨hparts top List.mem_cons_self, htop⟩
            have hpush : push abs (top :: rest) p = rest := by
              rw [Path.push, if_neg hskip, if_pos hup]
              exact if_neg htop
            rw [List.reverse_cons, List.foldl_append, List.foldl_cons, List.foldl_nil,
              hname.push] at ih
            rw [hpush]
            exact (List.cons.inj ih).2
      · have hpush : push abs stack p = p :: stack := by
          rw [Path.push.eq_def, if_neg hskip, if_neg hup]
        rw [hpush]
        exact hadded p hpush

theorem foldl_push_parts (p : Text) :
    (parts p).foldl (push (isAbsolute p)) [] = (parts p).reverse := by
  rw [parts, List.reverse_reverse]
  exact foldl_push_reverse _ fun _ hq => notMem_of_mem_splitOn hq

/-! ## Paths from parts -/

theorem isAbsolute_append {p : Text} (hp : p ≠ []) (q : Text) :
    isAbsolute (p ++ q) = isAbsolute p := by
  obtain ⟨c, p, rfl⟩ := List.exists_cons_of_ne_nil hp
  simp [isAbsolute, startsWith, List.isPrefixOf]

theorem isAbsolute_of_notMem {p : Text} (h : slash ∉ p) : isAbsolute p = false := by
  cases p with
  | nil => rfl
  | cons c p =>
    have hc : slash ≠ c := fun hc => h (hc ▸ List.mem_cons_self)
    simp [isAbsolute, startsWith, List.isPrefixOf, hc]

theorem isAbsolute_join {ps : List Text} (h : ∀ p ∈ ps, IsPart p) :
    isAbsolute (Text.join [slash] ps) = false := by
  cases ps with
  | nil => rfl
  | cons p ps =>
    have hp := h p List.mem_cons_self
    cases ps with
    | nil => exact isAbsolute_of_notMem hp.noSlash
    | cons q ps =>
      rw [join_cons (by simp), List.append_assoc, isAbsolute_append hp.ne_nil]
      exact isAbsolute_of_notMem hp.noSlash

section OfParts

variable (abs : Bool) {ps : List Text} (hne : ps ≠ []) (h : ∀ p ∈ ps, IsPart p)
include hne

theorem ofParts_eq : ofParts abs ps = (if abs then [slash] else []) ++ Text.join [slash] ps := by
  cases abs
  · simp [ofParts, hne]
  · simp [ofParts]

/-- A part behind the others. -/
theorem ofParts_concat (n : Text) : ofParts abs (ps ++ [n]) = ofParts abs ps ++ slash :: n := by
  have hjoin : ∀ {ps : List Text}, ps ≠ [] →
      Text.join [slash] (ps ++ [n]) = Text.join [slash] ps ++ slash :: n := by
    intro ps hps
    induction ps with
    | nil => exact absurd rfl hps
    | cons p ps ih =>
      cases ps with
      | nil => simp [Text.join]
      | cons q ps =>
        have hlater : q :: ps ≠ [] := by simp
        have hlater' : q :: ps ++ [n] ≠ [] := by simp
        rw [List.cons_append, join_cons hlater', ih hlater, join_cons hlater]
        simp only [List.append_assoc]
  rw [ofParts_eq abs (by simp), ofParts_eq abs hne, hjoin hne, List.append_assoc]

include h

theorem isAbsolute_ofParts : isAbsolute (ofParts abs ps) = abs := by
  rw [ofParts_eq abs hne]
  cases abs
  · exact isAbsolute_join h
  · rfl

theorem splitOn_ofParts :
    splitOn slash (ofParts abs ps) = (if abs then [[]] else []) ++ ps := by
  have hjoin := splitOn_join hne fun p hp => (h p hp).noSlash
  rw [ofParts_eq abs hne]
  cases abs
  · exact hjoin
  · simp [splitOn, hjoin]

/-- The names of a cleaned path are its parts. -/
theorem names_ofParts : Disk.names (ofParts abs ps) = ps := by
  have hkept : ps.filter (fun n => !n.isEmpty) = ps :=
    List.filter_eq_self.2 fun p hp => by simp [(h p hp).ne_nil]
  rw [Disk.names, splitOn_ofParts abs hne h, List.filter_append, hkept]
  cases abs <;> rfl

end OfParts

/-- Names put below a path. -/
theorem join_cons_eq (p : Text) {ns : List Text} (hne : ns ≠ []) (h : ∀ n ∈ ns, IsName n) :
    Path.join (p :: ns) = ofParts (isAbsolute p) (parts p ++ ns) := by
  have hnamed : ns.filter (fun n => !n.isEmpty) = ns :=
    List.filter_eq_self.2 fun n hn => by simp [(h n hn).ne_nil]
  have hsplit := splitOn_join hne fun n hn => (h n hn).noSlash
  by_cases hp : p = []
  · have hclean : clean (Text.join [slash] ns) = ofParts false ns := by
      rw [clean, parts, isAbsolute_join fun n hn => (h n hn).toIsPart, hsplit,
        foldl_push_names false [] h, List.append_nil, List.reverse_reverse]
    simp [Path.join, hp, hnamed, hne, hclean]
    rfl
  · have hclean : clean (Text.join [slash] (p :: ns))
        = ofParts (isAbsolute p) (parts p ++ ns) := by
      rw [clean, parts, join_cons hne, List.append_assoc, isAbsolute_append hp,
        List.singleton_append, splitOn_append_cons, hsplit, List.foldl_append,
        foldl_push_names _ _ h, List.reverse_append, List.reverse_reverse]
      rfl
    simp [Path.join, hp, hnamed, hclean]

/-- The directory of a cleaned path has all parts but the last. -/
theorem dir_ofParts (abs : Bool) {ps : List Text} {n : Text} (hne : ps ≠ [])
    (h : ∀ p ∈ ps, IsPart p) (hclean : ps.foldl (push abs) [] = ps.reverse) (hn : slash ∉ n) :
    dir (ofParts abs (ps ++ [n])) = ofParts abs ps := by
  have hcut : ((ofParts abs (ps ++ [n])).reverse.dropWhile (· != slash)).reverse
      = ofParts abs ps ++ [slash] := by
    have hskip : ∀ c ∈ n.reverse, (c != slash) = true := by
      intro c hc
      rw [bne_iff_ne]
      rintro rfl
      exact hn (List.mem_reverse.1 hc)
    rw [ofParts_concat abs hne, List.reverse_append, List.reverse_cons, List.append_assoc,
      List.dropWhile_append_of_pos hskip]
    simp
  have hnonempty : ofParts abs ps ≠ [] := by
    intro heq
    obtain ⟨p, rest, rfl⟩ := List.exists_cons_of_ne_nil hne
    have hp := (h p List.mem_cons_self).ne_nil
    rw [ofParts_eq abs hne, List.append_eq_nil_iff] at heq
    cases rest with
    | nil => exact hp heq.2
    | cons q rest => simp [Text.join] at heq
  have hskip : ∀ (stack : List Text), push abs stack [] = stack := by
    intro stack
    simp [Path.push.eq_def]
  have hparts : parts (ofParts abs ps ++ [slash]) = ps := by
    rw [parts, isAbsolute_append hnonempty, isAbsolute_ofParts abs hne h, splitOn_append_cons,
      splitOn_ofParts abs hne h, List.foldl_append, List.foldl_append]
    cases abs <;> simp [splitOn, hskip, hclean]
  rw [dir, hcut, clean, hparts, isAbsolute_append hnonempty, isAbsolute_ofParts abs hne h]

/-! ## Cleaning twice -/

theorem isPart_of_mem_parts_append {p : Text} {ns : List Text} (h : ∀ n ∈ ns, IsName n) :
    ∀ q ∈ parts p ++ ns, IsPart q := by
  intro q hq
  rcases List.mem_append.1 hq with hq | hq
  · exact isPart_of_mem_parts hq
  · exact (h q hq).toIsPart

theorem foldl_push_parts_append (p : Text) {ns : List Text} (h : ∀ n ∈ ns, IsName n) :
    (parts p ++ ns).foldl (push (isAbsolute p)) [] = (parts p ++ ns).reverse := by
  rw [List.foldl_append, foldl_push_parts, foldl_push_names _ _ h, List.reverse_append]

/-- The parts of a path that is put together from cleaned parts are these parts. -/
theorem parts_ofParts (abs : Bool) {ps : List Text} (h : ∀ p ∈ ps, IsPart p)
    (hclean : ps.foldl (push abs) [] = ps.reverse) : parts (ofParts abs ps) = ps := by
  by_cases hne : ps = []
  · rw [hne]
    cases abs <;> rfl
  · have hskip : push abs [] [] = [] := by simp [Path.push]
    rw [parts, isAbsolute_ofParts abs hne h, splitOn_ofParts abs hne h, List.foldl_append]
    cases abs <;> simp [hskip, hclean]

theorem isAbsolute_clean (p : Text) : isAbsolute (clean p) = isAbsolute p := by
  rw [clean]
  by_cases hne : parts p = []
  · rw [hne]
    cases isAbsolute p <;> rfl
  · exact isAbsolute_ofParts _ hne fun q hq => isPart_of_mem_parts hq

theorem parts_clean (p : Text) : parts (clean p) = parts p :=
  parts_ofParts _ (fun _ hq => isPart_of_mem_parts hq) (foldl_push_parts p)

theorem clean_clean (p : Text) : clean (clean p) = clean p := by
  rw [clean, isAbsolute_clean, parts_clean, clean]

/-- Two paths are spellings of one when they have the same parts, from the root or not. -/
theorem clean_eq_iff {p q : Text} :
    clean p = clean q ↔ isAbsolute p = isAbsolute q ∧ parts p = parts q := by
  constructor
  · intro h
    have habs := congrArg isAbsolute h
    have hparts := congrArg parts h
    rw [isAbsolute_clean, isAbsolute_clean] at habs
    rw [parts_clean, parts_clean] at hparts
    exact ⟨habs, hparts⟩
  · rintro ⟨habs, hparts⟩
    rw [clean, clean, habs, hparts]

/-! ## Cleaning what was put together -/

section Join

variable {p : Text} {ns : List Text} (hne : ns ≠ []) (h : ∀ n ∈ ns, IsName n)
include hne h

/-- Names put below a path give a cleaned path. -/
theorem clean_join_cons : clean (Path.join (p :: ns)) = Path.join (p :: ns) := by
  have hparts := isPart_of_mem_parts_append (p := p) h
  rw [join_cons_eq p hne h, clean, isAbsolute_ofParts _ (by simp [hne]) hparts,
    parts_ofParts _ hparts (foldl_push_parts_append p h)]

/-- Names below spellings of one path are the same. -/
theorem join_cons_congr {p' : Text} (hclean : clean p = clean p') :
    Path.join (p :: ns) = Path.join (p' :: ns) := by
  obtain ⟨habs, hparts⟩ := clean_eq_iff.1 hclean
  rw [join_cons_eq p hne h, join_cons_eq p' hne h, habs, hparts]

/-- Names are put below a path one after the other. -/
theorem join_join_cons {n : Text} (hn : IsName n) :
    Path.join (Path.join [p, n] :: ns) = Path.join (p :: n :: ns) := by
  have hone : ∀ m ∈ [n], IsName m := by simp [hn]
  have hall : ∀ m ∈ n :: ns, IsName m := List.forall_mem_cons.2 ⟨hn, h⟩
  have hparts := isPart_of_mem_parts_append (p := p) hone
  rw [join_cons_eq _ hne h, join_cons_eq p (List.cons_ne_nil n []) hone,
    join_cons_eq p (List.cons_ne_nil n ns) hall, isAbsolute_ofParts _ (by simp) hparts,
    parts_ofParts _ hparts (foldl_push_parts_append p hone), List.append_assoc]
  rfl

end Join

/-! ## Endings -/

/-- The ending of a path is its end. -/
theorem ext_suffix (p : Text) : ext p <:+ p := by
  have hname : (p.reverse.takeWhile (· != slash)).reverse <:+ p := by
    rw [← List.reverse_prefix, List.reverse_reverse]
    exact List.takeWhile_prefix _
  rw [ext]
  split
  · rename_i hdot
    refine List.IsSuffix.trans ?_ hname
    generalize (p.reverse.takeWhile (· != slash)).reverse = name at hdot
    obtain ⟨after, before, hsplit, hafter⟩ :=
      List.eq_append_cons_of_mem (List.mem_reverse.2 (List.contains_iff_mem.1 hdot))
    have hkept : ∀ c ∈ after, (c != dot) = true := by
      intro c hc
      rw [bne_iff_ne]
      rintro rfl
      exact hafter hc
    refine ⟨before.reverse, ?_⟩
    rw [hsplit, List.takeWhile_append_of_pos hkept, List.takeWhile_cons_of_neg (by simp),
      List.append_nil, ← List.reverse_inj, hsplit]
    simp
  · exact List.nil_suffix

/-- The ending starts at the last dot. -/
theorem ext_append_dot {e : Text} (hdot : dot ∉ e) (hslash : slash ∉ e) (stem : Text) :
    ext (stem ++ dot :: e) = dot :: e := by
  have hkept : ∀ {c : UInt8}, c ∉ e → ∀ b ∈ e.reverse, (b != c) = true := by
    intro c hc b hb
    rw [bne_iff_ne]
    rintro rfl
    exact hc (List.mem_reverse.1 hb)
  have hname : ∃ rest, (stem ++ dot :: e).reverse.takeWhile (· != slash)
      = e.reverse ++ dot :: rest := by
    rw [List.reverse_append, List.reverse_cons, List.append_assoc,
      List.takeWhile_append_of_pos (hkept hslash), List.singleton_append,
      List.takeWhile_cons_of_pos (by decide)]
    exact ⟨_, rfl⟩
  obtain ⟨rest, hname⟩ := hname
  rw [ext, hname, List.reverse_reverse, List.takeWhile_append_of_pos (hkept hdot),
    List.takeWhile_cons_of_neg (by simp), List.append_nil, List.reverse_reverse]
  simp

end Path

end GrammarLayout
