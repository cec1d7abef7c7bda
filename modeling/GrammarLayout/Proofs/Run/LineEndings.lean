import GrammarLayout.Proofs.Pass.Front
import GrammarLayout.Proofs.Run.Steps

/-!
# The form of a file through formatting

A content is formatted without its byte order mark and with bare newlines, and
the result is put back into the form that the content had.  Read again, it is
the formatted text in the same form, as long as the formatted text does not end
a line in a carriage return of its own.  Formatting writes no carriage return,
but it may write a newline behind one that stood alone.

What is proved here:

* `formatContent_eq_ok` — what formatting a content gives;
* `formatContent_form` — when the result is read again as the formatted text in
  the form of the content.
-/

namespace GrammarLayout

open Ascii Text

/-- A content is formatted in the form that grammars are laid out in, and put back into its own. -/
theorem formatContent_eq_ok {style : Style} {p : Probe} {name content out : Text}
    (h : (formatContent style p name content).2 = .ok out) :
    ∃ text, format style (normalize content).1 = .ok text ∧
      out = restore (normalize content).2 text := by
  have hformat := formatObserved_snd style 0 p (normalize content).1
  have hfile : (({} : FileSet).addVirtual name content).2.content = (normalize content).1 := rfl
  have hflags : (({} : FileSet).addVirtual name content).2.flags
      = (normalize content).2 ||| .isVirtual := rfl
  simp only [formatContent, hfile] at h
  rw [hformat] at h
  cases htext : format style (normalize content).1 with
  | error e =>
    rw [htext] at h
    exact absurd h (by simp)
  | ok text =>
    rw [htext] at h
    refine ⟨text, rfl, ?_⟩
    rw [← Except.ok.inj h, SourceFile.restore, hflags, normalize_eq, restore_isVirtual]

/-- A formatted text has no carriage return when its text has none. -/
theorem carriageReturn_notMem_format (style : Style) {text out : Text}
    (h : format style text = .ok out) (htext : carriageReturn ∉ text) : carriageReturn ∉ out := by
  have hS : Signs (· ≠ carriageReturn) :=
    ⟨⟨by decide, by decide, by decide, by decide⟩, by decide, by decide, by decide, by decide⟩
  exact over_ne.1 (format_over style hS (over_ne.2 htext) h)

/-- The result of formatting a content is read again as the formatted text, in the form that the
content had, exactly when line endings are put into it or the formatted text ends no line in a
carriage return.  This is so for every content without carriage returns other than those of line
endings. -/
theorem formatContent_form {style : Style} {p : Probe} {name content out : Text}
    (h : (formatContent style p name content).2 = .ok out) :
    ∃ text, format style (normalize content).1 = .ok text ∧
      (normalize out = (text, (normalize content).2) ↔
        (normalize content).2.has .hadCrlf = true ∨ hasCrlf text = false) ∧
      (carriageReturn ∉ (normalize content).1 → normalize out = (text, (normalize content).2)) := by
  obtain ⟨text, htext, rfl⟩ := formatContent_eq_ok h
  have hread := normalize_restore_content
    (startsWith_byteOrderMark_format style htext) (newline_mem_format style htext)
  refine ⟨text, htext, hread, fun hnone => hread.2 (Or.inr ?_)⟩
  rw [← Bool.not_eq_true]
  exact fun hcrlf => carriageReturn_notMem_format style htext hnone
    (carriageReturn_mem_of_hasCrlf hcrlf)

/-- A file with a byte order mark and line endings of two bytes. -/
theorem formatContent_form_marked :
    (formatContent {} {} (bytes "g.y") (byteOrderMark ++ bytes "a: b \x7b\r\n x\r\n\x7d\r\n")).2
      = .ok (byteOrderMark ++ bytes "a :\r\n  b \x7b\r\n    x\r\n  \x7d\r\n  ;\r\n") ∧
    normalize (byteOrderMark ++ bytes "a :\r\n  b \x7b\r\n    x\r\n  \x7d\r\n  ;\r\n")
      = (bytes "a :\n  b \x7b\n    x\n  \x7d\n  ;\n",
          (normalize (byteOrderMark ++ bytes "a: b \x7b\r\n x\r\n\x7d\r\n")).2) := by
  have h : (formatContent {} {} (bytes "g.y")
      (byteOrderMark ++ bytes "a: b \x7b\r\n x\r\n\x7d\r\n")).2
      = .ok (byteOrderMark ++ bytes "a :\r\n  b \x7b\r\n    x\r\n  \x7d\r\n  ;\r\n") := by
    decide +kernel
  obtain ⟨text, htext, -, hform⟩ := formatContent_form h
  obtain rfl : bytes "a :\n  b \x7b\n    x\n  \x7d\n  ;\n" = text := by
    have : format {} (normalize (byteOrderMark ++ bytes "a: b \x7b\r\n x\r\n\x7d\r\n")).1
        = .ok (bytes "a :\n  b \x7b\n    x\n  \x7d\n  ;\n") := by decide +kernel
    exact Except.ok.inj (this.symm.trans htext)
  exact ⟨h, hform (by decide +kernel)⟩

/-- A carriage return that stood alone in front of a blank is given a newline, and the result is
read as a file with line endings of two bytes. -/
example : (formatContent {} {} (bytes "g.y") (bytes "a: b \x7b\n x\r \n\x7d\n")).2
      = .ok (bytes "a :\n  b \x7b\n    x\r\n  \x7d\n  ;\n") ∧
    normalize (bytes "a :\n  b \x7b\n    x\r\n  \x7d\n  ;\n")
      = (bytes "a :\n  b \x7b\n    x\n  \x7d\n  ;\n", .hadCrlf) := by
  decide +kernel

end GrammarLayout
