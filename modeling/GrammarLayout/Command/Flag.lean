import GrammarLayout.Number.Integer
import GrammarLayout.Text.Quoted
import GrammarLayout.Version

/-!
# Flags of a command line

A flag has a name, written after two dashes, and may have a letter, written
after one.  A switch stands alone or has a value after an equals sign; every
other flag needs a value, after an equals sign or as the next argument.
Letters can be written together; the last of them may have its value behind it.
Arguments that are no flags are operands, and so is everything after two
dashes that stand alone.
-/

namespace GrammarLayout

open Ascii Text

/-- What values a flag takes. -/
inductive FlagKind where
  /-- Yes or no; alone it means yes. -/
  | switch
  /-- A whole number. -/
  | number
  /-- Any text. -/
  | word
  deriving Repr, DecidableEq

/-- A flag that a command takes. -/
structure Flag where
  /-- Its name. -/
  name : Text
  /-- What values it takes. -/
  kind : FlagKind
  /-- Its letter. -/
  letter : Option UInt8 := none
  deriving Repr, DecidableEq

/-- A flag as messages name it. -/
def Flag.label (f : Flag) : Text :=
  match f.letter with
  | some c => bytes "-" ++ [c] ++ bytes ", --" ++ f.name
  | none => bytes "--" ++ f.name

/-! ## Values -/

/-- Why a value is refused. -/
inductive ValueFault where
  /-- It is neither yes nor no. -/
  | notSwitch
  /-- It is no whole number. -/
  | notNumber (fault : IntegerFault)
  deriving Repr, DecidableEq

/-- A refused value in words. -/
def ValueFault.message (value : Text) : ValueFault → Text
  | notSwitch => bytes "strconv.ParseBool: parsing " ++ quoted value ++ bytes ": invalid syntax"
  | notNumber .malformed =>
      bytes "strconv.ParseInt: parsing " ++ quoted value ++ bytes ": invalid syntax"
  | notNumber .outOfRange =>
      bytes "strconv.ParseInt: parsing " ++ quoted value ++ bytes ": value out of range"

/-- The words that mean yes. -/
def yesWords : List Text :=
  [bytes "1", bytes "t", bytes "T", bytes "TRUE", bytes "true", bytes "True"]

/-- The words that mean no. -/
def noWords : List Text :=
  [bytes "0", bytes "f", bytes "F", bytes "FALSE", bytes "false", bytes "False"]

/-- Why a flag refuses a value, if it does. -/
def FlagKind.refuses : FlagKind → Text → Option ValueFault
  | switch, v => if yesWords.contains v || noWords.contains v then none else some .notSwitch
  | number, v =>
      match Integer.read v with
      | .ok _ => none
      | .error f => some (.notNumber f)
  | word, _ => none

/-! ## Faults -/

/-- Why a command line is refused. -/
inductive FlagFault where
  /-- There is no name after the dashes. -/
  | malformed (arg : Text)
  /-- There is no flag of that name. -/
  | unknownName (name : Text)
  /-- There is no flag with that letter, the first of a group. -/
  | unknownLetter (letter : UInt8) (group : Text)
  /-- The value is missing. -/
  | nameNeedsValue (arg : Text)
  /-- The value after a letter, the first of a group, is missing. -/
  | letterNeedsValue (letter : UInt8) (group : Text)
  /-- The value is refused. -/
  | refused (value : Text) (flag : Flag) (fault : ValueFault)
  deriving Repr, DecidableEq

/-- A letter between single quotes; a byte beyond ASCII stands for the first byte of its own
encoding. -/
def quotedLetter (c : UInt8) : Text :=
  let v := if c < 0x80 then c.toNat else if c < 0xC0 then 0xC2 else 0xC3
  let shown :=
    if v = 0x27 then [backslash, singleQuote]
    else if v = 0x22 then [doubleQuote]
    else Piece.quoted ⟨some v, encodeChar v⟩
  singleQuote :: shown ++ [singleQuote]

/-- A refused command line in words. -/
def FlagFault.message : FlagFault → Text
  | malformed arg => bytes "bad flag syntax: " ++ arg
  | unknownName name => bytes "unknown flag: --" ++ name
  | unknownLetter c group =>
      bytes "unknown shorthand flag: " ++ quotedLetter c ++ bytes " in -" ++ group
  | nameNeedsValue arg => bytes "flag needs an argument: " ++ arg
  | letterNeedsValue c group =>
      bytes "flag needs an argument: " ++ quotedLetter c ++ bytes " in -" ++ group
  | refused value flag fault =>
      bytes "invalid argument " ++ quoted value ++ bytes " for " ++ quoted flag.label
        ++ bytes " flag: " ++ fault.message value

/-! ## Reading -/

/-- The flags that were given, with their values, in order. -/
structure GivenFlags where
  /-- Names and values. -/
  entries : List (Text × Text) := []
  deriving Repr, DecidableEq

namespace GivenFlags

/-- The value of a flag: the last one given. -/
def value? (g : GivenFlags) (name : Text) : Option Text := g.entries.reverse.lookup name

/-- The text of a flag. -/
def word (g : GivenFlags) (name default : Text) : Text := (g.value? name).getD default

/-- Is a switch on? -/
def isOn (g : GivenFlags) (name : Text) : Bool := (g.value? name).any yesWords.contains

/-- The number of a flag. -/
def number (g : GivenFlags) (name : Text) (default : Int) : Int :=
  ((g.value? name).bind fun v => (Integer.read v).toOption).getD default

/-- The flags with one more, if it takes the value. -/
def give (g : GivenFlags) (f : Flag) (value : Text) : Except FlagFault GivenFlags :=
  match f.kind.refuses value with
  | some fault => .error (.refused value f fault)
  | none => .ok ⟨g.entries ++ [(f.name, value)]⟩

end GivenFlags

/-- The flag after two dashes, with its value if it has one. -/
def longFlag (flags : List Flag) (arg : Text) : Except FlagFault (Flag × Option Text) :=
  let body := arg.drop 2
  if body.isEmpty || startsWith [minus] body || startsWith [equals] body then
    .error (.malformed arg)
  else
    let (name, value) := match cutAt? equals body with
      | some (name, value) => (name, some value)
      | none => (body, none)
    match flags.find? fun f => f.name == name with
    | none => .error (.unknownName name)
    | some f =>
        if value.isNone && f.kind = .switch then .ok (f, some (bytes "true")) else .ok (f, value)

/-- The flags of a group of letters with their values; the last may lack one, and is then given
apart. -/
def letterFlags (flags : List Flag) :
    Text → Except FlagFault (List (Flag × Text) × Option (Flag × UInt8))
  | [] => .ok ([], none)
  | c :: rest =>
      match flags.find? fun f => f.letter == some c with
      | none => .error (.unknownLetter c (c :: rest))
      | some f =>
          if startsWith [equals] rest && 1 < rest.length then .ok ([(f, rest.drop 1)], none)
          else if f.kind = .switch then do
            let (more, last) ← letterFlags flags rest
            return ((f, bytes "true") :: more, last)
          else if rest.isEmpty then .ok ([], some (f, c))
          else .ok ([(f, rest)], none)

/-- A flag with the value it has, or else with the next argument, which is then used up. -/
def GivenFlags.giveOrTake (g : GivenFlags) (f : Flag) (value next : Option Text)
    (absent : FlagFault) : Except FlagFault (GivenFlags × Bool) :=
  match value, next with
  | some v, _ => (g.give f v).map (·, false)
  | none, some v => (g.give f v).map (·, true)
  | none, none => .error absent

/-- The flags of one argument, and whether the next argument is used up as a value. -/
def GivenFlags.giveArgument (flags : List Flag) (g : GivenFlags) (arg : Text) (next : Option Text) :
    Except FlagFault (GivenFlags × Bool) := do
  if startsWith [minus, minus] arg then
    let (f, value) ← longFlag flags arg
    g.giveOrTake f value next (.nameNeedsValue arg)
  else
    let (given, last) ← letterFlags flags (arg.drop 1)
    let g ← given.foldlM (fun g fv => g.give fv.1 fv.2) g
    match last with
    | none => return (g, false)
    | some (f, c) => g.giveOrTake f none next (.letterNeedsValue c [c])

/-- The given flags and the operands of a command line. -/
def readFlags (flags : List Flag) :
    GivenFlags → List Text → Except FlagFault (GivenFlags × List Text)
  | g, [] => .ok (g, [])
  | g, arg :: rest =>
      if !startsWith [minus] arg || arg.length = 1 then do
        let (g, operands) ← readFlags flags g rest
        return (g, arg :: operands)
      else if arg = [minus, minus] then .ok (g, rest)
      else do
        let (g, taken) ← g.giveArgument flags arg rest.head?
        match rest with
        | [] => return (g, [])
        | next :: more => if taken then readFlags flags g more else readFlags flags g (next :: more)

end GrammarLayout
