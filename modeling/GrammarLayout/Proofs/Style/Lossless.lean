import GrammarLayout.Proofs.Style.Override
import GrammarLayout.Proofs.Toml.Lines
import GrammarLayout.Proofs.Toml.Tables
import GrammarLayout.Style.File
import Mathlib.Data.Set.Function

/-!
# The TOML of a style loses nothing

A style is written line by line; every line reads as one statement, and the
statements describe a table with the settings of the style.  Only the width of
a number is not written: a document holds 64-bit numbers, so the step of the
indentation comes back as one of those, and reads as the same number.

What is proved here:

* `Style.statements?_encode` — the statements of a style's text;
* `Style.read?_encode` — the table that the text describes;
* `Style.encode_lossless` — the style comes back, and fingerprints tell styles
  apart as far as digests tell texts apart.
-/

namespace GrammarLayout

open Ascii Text Toml

/-- A setting as a document gives it back. -/
def Setting.reread : Setting → Setting
  | .int _ n => .int .signed64 n
  | v => v

theorem isPrintableByte_of_isBareByte {b : UInt8} (h : isBareByte b = true) :
    isPrintableByte b = true := by
  simp only [isBareByte, isDigit, isUpper, isLower, Bool.or_eq_true, Bool.and_eq_true,
    decide_eq_true_eq, beq_iff_eq] at h
  simp only [isPrintableByte, Bool.and_eq_true, decide_eq_true_eq]
  grind

namespace Style

theorem encode_size (n : Nat) : (Setting.int .native n).encode = Text.ofNat n := by
  rw [Setting.encode, Text.ofInt, if_neg (by omega), Int.natAbs_natCast]

variable {s : Style} {p : PassName} {e : Text × Setting}

/-- A pass's settings as a document gives them back. -/
def rereadSection (s : Style) (p : PassName) : Table := (s.section p).map fun e => (e.1, e.2.reread)

theorem map_fst_rereadSection (s : Style) (p : PassName) :
    (s.rereadSection p).map Prod.fst = (s.section p).map Prod.fst := by
  rw [rereadSection, List.map_map]
  rfl

theorem nodup_rereadSection (s : Style) (p : PassName) :
    ((s.rereadSection p).map Prod.fst).Nodup := by
  rw [map_fst_rereadSection]
  exact nodup_section s p

/-- The lines of one pass, each with its statement. -/
def sectionLines (s : Style) (p : PassName) : List (Text × Statement) :=
  (bytes "  [rules." ++ p.key ++ bytes "]", .table [bytes "rules", p.key])
    :: (s.section p).map fun e => (encodeEntry e, .assign [e.1] (.plain e.2.reread))

/-- The lines of a style, each with its statement. -/
def lines (s : Style) : List (Text × Statement) :=
  (bytes "[rules]", .table [bytes "rules"]) :: PassName.all.flatMap s.sectionLines

theorem encode_eq_lines (s : Style) : s.encode = s.lines.flatMap fun l => l.1 ++ [newline] := by
  have hsection : (fun p => encodeSection (p.key, s.section p))
      = fun p => (s.sectionLines p).flatMap fun l => l.1 ++ [newline] := by
    funext p
    have hend : bytes "]\n" = bytes "]" ++ [newline] := rfl
    rw [encodeSection, sectionLines, List.flatMap_cons, List.flatMap_map, hend]
    simp only [List.append_assoc]
    rfl
  rw [encode_eq_sections, lines, List.flatMap_cons, List.flatMap_assoc, hsection]
  rfl

/-! ## Lines -/

theorem isPlain_of_mem_section (hs : s.Valid) (he : e ∈ s.section p) :
    IsPlain e.2.encode e.2.reread := by
  have hsize : IsPlain (Setting.int .native s.indent.size).encode
      (.int .signed64 s.indent.size) := by
    rw [encode_size]
    exact isPlain_size hs.1 hs.2
  have hkind : IsPlain (Setting.text s.indent.kind.key).encode (.text s.indent.kind.key) := by
    cases s.indent.kind <;> exact isPlain_text (by decide) (List.all_eq_true.1 (by decide))
  have hplacement : IsPlain (Setting.text s.brace.placement.key).encode
      (.text s.brace.placement.key) := by
    cases s.brace.placement <;> exact isPlain_text (by decide) (List.all_eq_true.1 (by decide))
  exact forall_section (P := fun v => IsPlain v.encode v.reread) isPlain_flag hsize hkind
    hplacement he

theorem isBare_of_mem_section (he : e ∈ s.section p) : IsBare e.1 := by
  have hkeys : ∀ key ∈ (s.section p).map Prod.fst, IsBare key := by
    rw [section_keys s {} p]
    cases p <;> decide
  exact hkeys e.1 (List.mem_map_of_mem he)

theorem isPrintableByte_encode (he : e ∈ s.section p) :
    ∀ b ∈ e.2.encode, isPrintableByte b = true := by
  have hflag : ∀ b : Bool, ∀ c ∈ (Setting.flag b).encode, isPrintableByte c = true := by
    intro b
    cases b <;> exact List.all_eq_true.1 (by decide)
  have hsize : ∀ c ∈ (Setting.int .native s.indent.size).encode, isPrintableByte c = true := by
    rw [encode_size]
    intro c hc
    exact isPrintableByte_of_isBareByte (by simp [isBareByte, isDigit_of_mem_ofNat hc])
  have hkind : ∀ c ∈ (Setting.text s.indent.kind.key).encode, isPrintableByte c = true := by
    cases s.indent.kind <;> exact List.all_eq_true.1 (by decide)
  have hplacement : ∀ c ∈ (Setting.text s.brace.placement.key).encode,
      isPrintableByte c = true := by
    cases s.brace.placement <;> exact List.all_eq_true.1 (by decide)
  exact forall_section (P := fun v => ∀ b ∈ v.encode, isPrintableByte b = true) hflag hsize hkind
    hplacement he

/-- The line that opens the table of a pass. -/
theorem isLine_section (p : PassName) :
    IsLine (bytes "  [rules." ++ p.key ++ bytes "]") (.table [bytes "rules", p.key]) := by
  refine ⟨[space, space], 0x5B, join [dot] [bytes "rules", p.key] ++ [0x5D], ?_,
    List.all_eq_true.1 (by decide), by decide, by decide, ?_⟩
  · cases p <;> rfl
  · intro rest
    rw [List.append_assoc]
    refine statement?_table (by simp) ?_ (newline :: rest)
    cases p <;> decide

/-- The line of a setting. -/
theorem isLine_entry (hs : s.Valid) (he : e ∈ s.section p) :
    IsLine (encodeEntry e) (.assign [e.1] (.plain e.2.reread)) := by
  have hread := statement?_assign (isBare_of_mem_section he) (isPlain_of_mem_section hs he)
  obtain ⟨c, t, hname, hbare, hblank⟩ := (isBare_of_mem_section he).exists_eq_cons
  refine ⟨bytes "    ", c, t ++ (bytes " = " ++ e.2.encode), ?_,
    List.all_eq_true.1 (by decide), ?_, ne_of_isBareByte hbare (by decide), ?_⟩
  · simp [encodeEntry, hname]
  · rw [isLayout, hblank, beq_false_of_ne (ne_of_isBareByte hbare (by decide)),
      beq_false_of_ne (ne_of_isBareByte hbare (by decide))]
    rfl
  · intro rest
    simpa [hname] using hread rest

theorem isLine_of_mem_lines (hs : s.Valid) {l : Text × Statement} (hl : l ∈ s.lines) :
    IsLine l.1 l.2 := by
  rcases List.mem_cons.1 hl with rfl | hl
  · refine ⟨[], 0x5B, bytes "rules]", rfl, List.forall_mem_nil _, by decide, by decide, ?_⟩
    have hbare : ∀ part ∈ [bytes "rules"], IsBare part := by decide
    exact fun rest => statement?_table (List.cons_ne_nil _ _) hbare (newline :: rest)
  · obtain ⟨p, -, hl⟩ := List.mem_flatMap.1 hl
    rcases List.mem_cons.1 hl with rfl | hl
    · exact isLine_section p
    · obtain ⟨e, he, rfl⟩ := List.mem_map.1 hl
      exact isLine_entry hs he

theorem isPrintableByte_of_mem_lines {l : Text × Statement} (hl : l ∈ s.lines) :
    ∀ b ∈ l.1, isPrintableByte b = true := by
  rcases List.mem_cons.1 hl with rfl | hl
  · exact List.all_eq_true.1 (by decide)
  · obtain ⟨p, -, hl⟩ := List.mem_flatMap.1 hl
    rcases List.mem_cons.1 hl with rfl | hl
    · cases p <;> exact List.all_eq_true.1 (by decide)
    · obtain ⟨e, he, rfl⟩ := List.mem_map.1 hl
      intro b hb
      simp only [encodeEntry, List.mem_append] at hb
      rcases hb with ((hb | hb) | hb) | hb
      · exact List.all_eq_true.1 (by decide) b hb
      · exact isPrintableByte_of_isBareByte ((isBare_of_mem_section he).2 b hb)
      · exact List.all_eq_true.1 (by decide) b hb
      · exact isPrintableByte_encode he b hb

theorem statements?_encode (hs : s.Valid) :
    statements? s.encode = some (s.lines.map Prod.snd) := by
  rw [encode_eq_lines]
  exact statements?_lines (fun l hl => isLine_of_mem_lines hs hl)
    fun l hl => isPrintableByte_of_mem_lines hl

/-! ## Tables -/

/-- The sections of a style, as a document gives them back. -/
def rereadSections (s : Style) : List (Text × Table) :=
  PassName.all.map fun p => (p.key, s.rereadSection p)

theorem statements_lines (s : Style) : s.lines.map Prod.snd
    = .table [bytes "rules"] ::
      s.rereadSections.flatMap (sectionStatements (bytes "rules")) := by
  have hsection : (fun p => (s.sectionLines p).map Prod.snd)
      = fun p => sectionStatements (bytes "rules") (p.key, s.rereadSection p) := by
    funext p
    rw [sectionLines, sectionStatements, List.map_cons, List.map_map, rereadSection, List.map_map]
    rfl
  rw [lines, List.map_cons, List.map_flatMap, hsection, rereadSections, List.flatMap_map]

/-- A style's settings, as a document gives them back. -/
def reread (s : Style) : Table := Table.ofSections s.rereadSection

theorem read?_encode (hs : s.Valid) : Toml.read? s.encode = some s.reread := by
  have hnames : (s.rereadSections.map Prod.fst).Nodup := by
    rw [rereadSections, List.map_map]
    show (PassName.all.map PassName.key).Nodup
    decide
  have hkeys : ∀ q ∈ s.rereadSections, (q.2.map Prod.fst).Nodup := by
    intro q hq
    obtain ⟨p, -, rfl⟩ := List.mem_map.1 hq
    exact nodup_rereadSection s p
  rw [Toml.read?, statements?_encode hs, statements_lines]
  simp only [Option.bind_eq_bind, Option.bind_some, Builder.runAll?_sections hnames hkeys]
  rw [rereadSections, List.map_map]
  rfl

/-! ## Styles -/

theorem leaf_reread (he : e ∈ s.section p) :
    e.2.reread.leaf = e.2.reread ∧ e.2.reread.table? = none :=
  forall_section (P := fun v => v.reread.leaf = v.reread ∧ v.reread.table? = none)
    (fun _ => ⟨rfl, rfl⟩) ⟨rfl, rfl⟩ ⟨rfl, rfl⟩ ⟨rfl, rfl⟩ he

theorem asLike_reread (hs : s.Valid) (he : e ∈ s.section p) :
    e.2.reread.asLike p e.1 e.2 = .ok e.2 := by
  have hsize : (Setting.int .signed64 s.indent.size).number?
      = some (some (s.indent.size : Int)) := by
    rw [Setting.number?, if_pos (fitsWord_size_iff.2 hs.2)]
  exact forall_section (P := fun v => v.reread.asLike p e.1 v = .ok v)
    (fun b => Setting.asLike_flag b b) (Setting.asLike_int hsize _ _) (Setting.asLike_text _ _)
    (Setting.asLike_text _ _) he

theorem distinct_reread (s : Style) : s.reread.Distinct := by
  refine Table.distinct_ofSections fun p => Table.distinct_of_leaves (nodup_rereadSection s p) ?_
  intro e he
  obtain ⟨own, hown, rfl⟩ := List.mem_map.1 he
  exact (leaf_reread hown).2

theorem about_reread (he : e ∈ s.section p) : s.reread.about p e.1 = some (.ok e.2.reread) := by
  have hmem : (e.1, e.2.reread) ∈ s.rereadSection p := List.mem_map_of_mem he
  rw [reread, Table.about_ofSections, Table.get?_of_mem (nodup_rereadSection s p) hmem,
    Option.map_some, (leaf_reread he).1]

/-- The table that a style's text describes, describes the style. -/
theorem ofSettings_reread (hs : s.Valid) : ofSettings s.reread = .ok s := by
  rw [ofSettings_eq]
  refine (ofTree_eq_ok_iff (told_merge {} (distinct_reread s))).2 ⟨hs.1, ?_⟩
  intro p e he
  rw [Table.reading, Table.about_merge (distinct_reread s) (nested_settings {}), about_reread he]
  exact congrArg some (asLike_reread hs he)

/-- Writing a style loses nothing: the text describes the style, other styles have another text,
and another fingerprint unless the two texts have the same digest. -/
theorem encode_lossless {s : Style} (hs : s.Valid) :
    (∃ raw, Toml.read? s.encode = some raw ∧ ofSettings raw = .ok s) ∧
      ∀ s' : Style, (s.encode = s'.encode ↔ s = s') ∧
        (Set.InjOn sha256 {s.encode, s'.encode} → (s.fingerprint = s'.fingerprint ↔ s = s')) := by
  refine ⟨⟨s.reread, read?_encode hs, ofSettings_reread hs⟩, ?_⟩
  intro s'
  refine ⟨encode_injective.eq_iff, ?_⟩
  intro hinj
  rw [fingerprint, fingerprint, hinj.eq_iff (by simp) (by simp), encode_injective.eq_iff]

/-- A style with tabs and a step of ten is read back, and has another text and another fingerprint
than the default style; their digests differ. -/
theorem encode_lossless_tabs :
    let s : Style := { indent := { size := 10, kind := .tabs } }
    (∃ raw, Toml.read? s.encode = some raw ∧ Style.ofSettings raw = .ok s) ∧
      s.encode ≠ ({} : Style).encode ∧ s.fingerprint ≠ ({} : Style).fingerprint := by
  intro s
  have hs : s.Valid := ⟨by decide, by decide⟩
  have hdigests : sha256 s.encode ≠ sha256 ({} : Style).encode := by decide +kernel
  have hne : s ≠ {} := by decide
  obtain ⟨hread, hother⟩ := encode_lossless hs
  obtain ⟨htext, hfingerprint⟩ := hother {}
  have hinj : Set.InjOn sha256 {s.encode, ({} : Style).encode} :=
    Set.injOn_pair.2 fun h => absurd h hdigests
  exact ⟨hread, fun h => hne (htext.1 h), fun h => hne ((hfingerprint hinj).1 h)⟩

end Style

end GrammarLayout
