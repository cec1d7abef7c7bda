import GrammarLayout.Text.Basic

/-!
# Colours on a terminal

A painted text stands between the sequences that switch an attribute on and off
again.
-/

namespace GrammarLayout

open Text

/-- The ways in which a text is painted. -/
inductive Paint where
  | bold | yellow | blue | boldRed | boldYellow | boldGreen | boldBlue
  deriving Repr, DecidableEq

namespace Paint

/-- The codes that switch a way of painting on and off. -/
def codes : Paint → Text × Text
  | bold => (bytes "1", bytes "22")
  | yellow => (bytes "33", bytes "0")
  | blue => (bytes "34", bytes "0")
  | boldRed => (bytes "31;1", bytes "0;22")
  | boldYellow => (bytes "33;1", bytes "0;22")
  | boldGreen => (bytes "32;1", bytes "0;22")
  | boldBlue => (bytes "34;1", bytes "0;22")

/-- The text painted, if colours are on. -/
def apply (p : Paint) (on : Bool) (t : Text) : Text :=
  if on then bytes "\x1b[" ++ p.codes.1 ++ bytes "m" ++ t ++ bytes "\x1b[" ++ p.codes.2 ++ bytes "m"
  else t

end Paint

end GrammarLayout
