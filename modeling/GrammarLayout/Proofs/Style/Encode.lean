import GrammarLayout.Proofs.Text.Digits
import GrammarLayout.Proofs.Text.Ink
import GrammarLayout.Style.Encode

/-!
# Styles are told apart by their TOML

Every setting of a style stands on a line of its own, behind its key.  The keys
are the same for all styles, so the text gives back the settings line by line.

What is proved here:

* `encodeEntries_inj` — a table is read off its lines;
* `Style.tagged_eq` — the encoder's own keys are those of the settings;
* `Style.encode_injective` — two styles with the same text are the same style.
-/

namespace GrammarLayout

open Ascii Text

/-! ## Tables -/

/-- A line and what follows it. -/
theorem append_newline_inj {a a' x x' : Text} (ha : newline ∉ a) (ha' : newline ∉ a')
    (h : a ++ newline :: x = a' ++ newline :: x') : a = a' ∧ x = x' := by
  induction a generalizing a' with
  | nil =>
    cases a' with
    | nil => exact ⟨rfl, (List.cons.inj h).2⟩
    | cons c a' => exact absurd (List.cons.inj h).1 (Ne.symm (List.ne_of_not_mem_cons ha').symm)
  | cons c a ih =>
    cases a' with
    | nil => exact absurd (List.cons.inj h).1.symm (List.ne_of_not_mem_cons ha)
    | cons c' a' =>
      obtain ⟨hc, htail⟩ := List.cons.inj h
      obtain ⟨hrest, hx⟩ := ih (List.not_mem_of_not_mem_cons ha) (List.not_mem_of_not_mem_cons ha')
        htail
      exact ⟨by rw [hc, hrest], hx⟩

/-- Every key and every setting stands on one line. -/
def Table.OneLine (t : Table) : Prop := ∀ e ∈ t, newline ∉ encodeEntry e

/-- The settings of a table are read off its lines. -/
theorem encodeEntries_inj {t t' : Table} (hkeys : t.map Prod.fst = t'.map Prod.fst)
    (ht : t.OneLine) (ht' : t'.OneLine) {x x' : Text}
    (h : t.flatMap (fun e => encodeEntry e ++ bytes "\n") ++ x
      = t'.flatMap (fun e => encodeEntry e ++ bytes "\n") ++ x') :
    t.map (fun e => e.2.encode) = t'.map (fun e => e.2.encode) ∧ x = x' := by
  induction t generalizing t' with
  | nil =>
    obtain rfl : t' = [] := by simpa using hkeys.symm
    exact ⟨rfl, h⟩
  | cons e t ih =>
    obtain ⟨e', t', rfl⟩ : ∃ e' tail, t' = e' :: tail := by
      cases t' with
      | nil => simp at hkeys
      | cons e' t' => exact ⟨e', t', rfl⟩
    rw [List.map_cons, List.map_cons, List.cons.injEq] at hkeys
    simp only [List.flatMap_cons, List.append_assoc] at h
    obtain ⟨hline, hrest⟩ := append_newline_inj (ht e List.mem_cons_self)
      (ht' e' List.mem_cons_self) h
    obtain ⟨hsettings, hx⟩ := ih hkeys.2 (fun e he => ht e (List.mem_cons_of_mem _ he))
      (fun e he => ht' e (List.mem_cons_of_mem _ he)) hrest
    rw [encodeEntry, encodeEntry, hkeys.1] at hline
    exact ⟨by rw [List.map_cons, List.map_cons, List.append_cancel_left hline, hsettings], hx⟩

/-! ## Styles -/

namespace Style

/-- The tags of the encoder are the keys of the settings, in the same order. -/
theorem tagged_eq (s : Style) : s.tagged = PassName.all.map fun p => (p.key, s.section p) := rfl

theorem encode_eq_sections (s : Style) :
    s.encode = bytes "[rules]\n" ++ PassName.all.flatMap fun p => encodeSection (p.key, s.section p) := by
  rw [encode, tagged_eq, List.flatMap_map]

theorem section_keys (s s' : Style) (p : PassName) :
    (s.section p).map Prod.fst = (s'.section p).map Prod.fst := by
  cases p <;> rfl

theorem newline_notMem_flag (b : Bool) : newline ∉ (Setting.flag b).encode := by
  cases b <;> decide

theorem newline_notMem_size (n : Nat) : newline ∉ (Setting.int .native n).encode := by
  rw [Setting.encode, Text.ofInt, if_neg (by omega)]
  exact Text.newline_notMem_ofNat _

theorem newline_notMem_encodeEntry {key : Text} {v : Setting} (hkey : newline ∉ key)
    (hv : newline ∉ v.encode) : newline ∉ encodeEntry (key, v) := by
  simp only [encodeEntry, List.mem_append, not_or]
  exact ⟨⟨⟨by decide, hkey⟩, by decide⟩, hv⟩

theorem section_oneLine (s : Style) (p : PassName) : (s.section p).OneLine := by
  have hflag : ∀ {key : Text} (b : Bool), newline ∉ key → newline ∉ encodeEntry (key, .flag b) :=
    fun b hkey => newline_notMem_encodeEntry hkey (newline_notMem_flag b)
  intro e he
  cases p with
  | indent =>
    simp only [Style.section, List.mem_cons, List.not_mem_nil, or_false] at he
    rcases he with rfl | rfl | rfl
    · exact hflag _ (by decide)
    · exact newline_notMem_encodeEntry (by decide) (newline_notMem_size _)
    · refine newline_notMem_encodeEntry (by decide) ?_
      cases s.indent.kind <;> decide
  | braceNewline =>
    simp only [Style.section, List.mem_cons, List.not_mem_nil, or_false] at he
    rcases he with rfl | rfl | rfl
    · exact hflag _ (by decide)
    · refine newline_notMem_encodeEntry (by decide) ?_
      cases s.brace.placement <;> decide
    · exact hflag _ (by decide)
  | spacing =>
    simp only [Style.section, List.mem_cons, List.not_mem_nil, or_false] at he
    rcases he with rfl | rfl | rfl | rfl <;> exact hflag _ (by decide)
  | alignment =>
    simp only [Style.section, List.mem_cons, List.not_mem_nil, or_false] at he
    rcases he with rfl | rfl | rfl <;> exact hflag _ (by decide)
  | emptyLine =>
    simp only [Style.section, List.mem_cons, List.not_mem_nil, or_false] at he
    rcases he with rfl | rfl | rfl | rfl <;> exact hflag _ (by decide)

/-- Styles with the same text have the same settings. -/
theorem settings_of_encode_eq {s s' : Style} (h : s.encode = s'.encode) (p : PassName) :
    (s.section p).map (fun e => e.2.encode) = (s'.section p).map (fun e => e.2.encode) := by
  have hsections : ∀ ps : List PassName,
      (ps.flatMap fun p => encodeSection (p.key, s.section p))
        = ps.flatMap (fun p => encodeSection (p.key, s'.section p)) → ∀ p ∈ ps,
        (s.section p).map (fun e => e.2.encode) = (s'.section p).map (fun e => e.2.encode) := by
    intro ps
    induction ps with
    | nil => simp
    | cons q ps ih =>
      intro heq
      rw [List.flatMap_cons, List.flatMap_cons, encodeSection, encodeSection,
        List.append_assoc, List.append_assoc (bytes "  [rules." ++ q.key ++ bytes "]\n")] at heq
      obtain ⟨hfirst, hrest⟩ := encodeEntries_inj (section_keys s s' q) (s.section_oneLine q)
        (s'.section_oneLine q) (List.append_cancel_left heq)
      intro p hp
      rcases List.mem_cons.1 hp with rfl | hp
      · exact hfirst
      · exact ih hrest p hp
  rw [encode_eq_sections, encode_eq_sections] at h
  refine hsections PassName.all (List.append_cancel_left h) p ?_
  cases p <;> decide

theorem flag_encode_inj {b b' : Bool} :
    (Setting.flag b).encode = (Setting.flag b').encode ↔ b = b' := by
  cases b <;> cases b' <;> decide

theorem size_encode_inj {n n' : Nat} :
    (Setting.int .native n).encode = (Setting.int .native n').encode ↔ n = n' := by
  have hdigits : ∀ n : Nat, (Setting.int .native n).encode = Text.ofNat n := by
    intro n
    rw [Setting.encode, Text.ofInt, if_neg (by omega), Int.natAbs_natCast]
  rw [hdigits, hdigits]
  exact Text.ofNat_injective.eq_iff

theorem kind_encode_inj {k k' : IndentKind} :
    (Setting.text k.key).encode = (Setting.text k'.key).encode ↔ k = k' := by
  cases k <;> cases k' <;> decide

theorem placement_encode_inj {k k' : BracePlacement} :
    (Setting.text k.key).encode = (Setting.text k'.key).encode ↔ k = k' := by
  cases k <;> cases k' <;> decide

/-- Two styles with the same text are the same style. -/
theorem encode_injective : Function.Injective Style.encode := by
  intro s s' h
  have hsettings := settings_of_encode_eq h
  obtain ⟨⟨_, _, _⟩, ⟨_, _, _⟩, ⟨_, _, _, _⟩, ⟨_, _, _⟩, ⟨_, _, _, _⟩⟩ := s
  obtain ⟨⟨_, _, _⟩, ⟨_, _, _⟩, ⟨_, _, _, _⟩, ⟨_, _, _⟩, ⟨_, _, _, _⟩⟩ := s'
  have hindent := hsettings .indent
  have hbrace := hsettings .braceNewline
  have hspacing := hsettings .spacing
  have halign := hsettings .alignment
  have hempty := hsettings .emptyLine
  simp only [Style.section, List.map_cons, List.map_nil, List.cons.injEq, flag_encode_inj,
    size_encode_inj, kind_encode_inj, placement_encode_inj, and_true]
    at hindent hbrace hspacing halign hempty
  simp only [Style.mk.injEq, IndentStyle.mk.injEq, BraceStyle.mk.injEq, SpacingStyle.mk.injEq,
    AlignmentStyle.mk.injEq, EmptyLineStyle.mk.injEq]
  exact ⟨hindent, hbrace, hspacing, halign, hempty⟩

end Style

end GrammarLayout
