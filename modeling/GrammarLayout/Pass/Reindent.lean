import GrammarLayout.Text.Blank

/-!
# Moving a group of lines

The lines of an action block keep their indentation relative to each other when
the block is moved: the least indented line gets the new indentation, the
others what they had beyond it.  Lines of white space count for nothing and
become empty.
-/

namespace GrammarLayout

open Text

/-- The lines that hold more than white space. -/
def inkedLines (ls : List Text) : List Text := ls.filter fun l => !isSpaces l

/-- The length of the shortest indentation of a line that is not blank. -/
def leastIndent (ls : List Text) : Nat :=
  (((inkedLines ls).map fun l => (leadingBlanks l).length).min?).getD 0

/-- The first of the shortest texts. -/
def firstShortest : List Text → Option Text
  | [] => none
  | l :: ls =>
      match firstShortest ls with
      | none => some l
      | some m => if m.length < l.length then some m else some l

/-- The shortest indentation of a line that is not blank. -/
def leastBlanks (ls : List Text) : Text :=
  (firstShortest ((inkedLines ls).map leadingBlanks)).getD []

/-- A line with `cut` bytes of its indentation replaced by `base`, and nothing at its end. -/
def rebaseLine (base : Text) (cut : Nat) (l : Text) : Text :=
  if isSpaces l then []
  else base ++ (leadingBlanks l).drop cut ++ trimBlanksEnd (trimBlanksStart l)

/-- The lines moved so that the least indented one is indented by `base`. -/
def rebase (base : Text) (ls : List Text) : List Text := ls.map (rebaseLine base (leastIndent ls))

end GrammarLayout
