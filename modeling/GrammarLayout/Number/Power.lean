/-!
# Powers of two and ten

The powers that number formats are built on: the sizes of machine words are
powers of two, and the units of decimal places are powers of ten.
-/

namespace GrammarLayout

/-- Two to the power of `n`: how many values `n` bits have. -/
abbrev twoTo (n : Nat) : Nat := Nat.pow 2 n

/-- Ten to the power of `n`: how many values `n` digits have. -/
abbrev tenTo (n : Nat) : Nat := Nat.pow 10 n

end GrammarLayout
