import GrammarLayout.Pass.RoundTrip
import GrammarLayout.Proofs.Pass.WhiteSpace

/-!
# Is formatting stable?
-/

namespace GrammarLayout

open Ascii Text

/-- A text that can be read passes when its formatted form can be read, has the same rules and is
formatted to itself. -/
theorem checkRoundTrip_eq_stable_iff {style : Style} {text : Text} {d : Document}
    (h : Document.parse text = .ok d) :
    checkRoundTrip style text = .stable ↔
      ∃ again, Document.parse (d.layOut style).render = .ok again ∧
        d.ruleNames = again.ruleNames ∧
        (again.layOut style).render = (d.layOut style).render := by
  simp only [checkRoundTrip, h, format]
  cases hagain : Document.parse (d.layOut style).render with
  | error e => simp
  | ok again =>
    by_cases hnames : d.ruleNames = again.ruleNames
    · simp [hnames, bind, Except.bind, pure, Except.pure, eq_comm]
    · simp [hnames]

/-- A production that is the word `end` is read as the end of the grammar when it is read again. -/
theorem checkRoundTrip_end : checkRoundTrip {} (bytes "a: end\n") = .unstable := by
  decide +kernel

end GrammarLayout
