import GrammarLayout.Diagnostic.Basic
import GrammarLayout.Pass.Pipeline

/-!
# Is formatting stable on a text?

A text passes when its formatted form can be read again, declares the same
rules in the same order, and does not change when it is formatted once more.
-/

namespace GrammarLayout

/-- The outcome of formatting a text twice. -/
inductive RoundTrip where
  /-- The text itself cannot be read. -/
  | unreadable (e : ParseError)
  /-- The formatted text cannot be read. -/
  | broken (e : ParseError)
  /-- The formatted text declares other rules. -/
  | renamed
  /-- Formatting the formatted text fails. -/
  | secondFailed (e : ParseError)
  /-- Formatting the formatted text changes it. -/
  | unstable
  /-- All is well. -/
  | stable
  deriving Repr, DecidableEq

namespace RoundTrip

/-- Did the text pass? -/
def ok (r : RoundTrip) : Bool := r = stable

/-- The outcome in words. -/
def message : RoundTrip → Text
  | unreadable e => bytes "fmt-check: initial parse failed: " ++ e.failure.message
  | broken e => bytes "fmt-check: reparse failed: " ++ e.failure.message
  | renamed => bytes "fmt-check: rule names differ after round-trip"
  | secondFailed e => bytes "fmt-check: second pass failed: " ++ e.failure.message
  | unstable => bytes "fmt-check: output not stable on second pass"
  | stable => bytes "fmt-check: OK"

end RoundTrip

/-- The names of a document's rules, in order. -/
def Document.ruleNames (d : Document) : List Text := d.rules.map Rule.name

/-- Formats a text, reads the result, formats it again and compares. -/
def checkRoundTrip (style : Style) (text : Text) : RoundTrip :=
  match Document.parse text with
  | .error e => .unreadable e
  | .ok d =>
      let once := (d.layOut style).render
      match Document.parse once with
      | .error e => .broken e
      | .ok rebuilt =>
          if d.ruleNames ≠ rebuilt.ruleNames then .renamed
          else
            match format style once with
            | .error e => .secondFailed e
            | .ok twice => if once = twice then .stable else .unstable

end GrammarLayout
