import GrammarLayout.Command.Flag
import GrammarLayout.Diagnostic.Basic
import GrammarLayout.Text.Case

/-!
# The command line

The first word of a command line that is neither a flag nor the value of one
names the command.  The flags of the tool itself may stand before or after it.
-/

namespace GrammarLayout

open Ascii Text

/-- The name of the tool. -/
def toolName : Text := bytes "raccfmt"

/-- What the tool can be asked to do. -/
inductive Command where
  /-- Nothing in particular. -/
  | root
  /-- Format grammars. -/
  | format
  /-- Write a configuration file. -/
  | init
  /-- Tell the version. -/
  | version
  /-- Tell how the tool is used. -/
  | help
  /-- Tell a shell how to complete command lines. -/
  | completion
  deriving Repr, DecidableEq

/-! ## Flags -/

/-- The flags of the tool itself. -/
def toolFlags : List Flag :=
  [ ⟨bytes "color", .word, none⟩, ⟨bytes "quiet", .switch, none⟩, ⟨bytes "trace", .word, none⟩,
    ⟨bytes "trace-level", .word, none⟩, ⟨bytes "trace-format", .word, none⟩,
    ⟨bytes "trace-mode", .word, none⟩, ⟨bytes "trace-ring-size", .number, none⟩,
    ⟨bytes "cpu-profile", .word, none⟩, ⟨bytes "mem-profile", .word, none⟩,
    ⟨bytes "runtime-trace", .word, none⟩ ]

/-- The flag that asks for help. -/
def helpFlag : Flag := ⟨bytes "help", .switch, some 0x68⟩

/-- The flag that asks for the version. -/
def versionFlag : Flag := ⟨bytes "version", .switch, some 0x76⟩

namespace Command

/-- The words that name a command. -/
def names : Command → List Text
  | root => []
  | format => [bytes "format", bytes "fmt"]
  | init => [bytes "init"]
  | version => [bytes "version"]
  | help => [bytes "help"]
  | completion => [bytes "completion"]

/-- The commands that have a name. -/
def named : List Command := [format, init, version, help, completion]

/-- The command that a word names. -/
def ofWord? (w : Text) : Option Command := named.find? fun c => c.names.contains w

/-- The flags of a command besides those of the tool. -/
def ownFlags : Command → List Flag
  | format =>
      [ ⟨bytes "config", .word, none⟩, ⟨bytes "write", .switch, some 0x77⟩,
        ⟨bytes "check", .switch, none⟩, ⟨bytes "stdout", .switch, none⟩,
        ⟨bytes "jobs", .number, some 0x6A⟩, ⟨bytes "cache", .switch, none⟩,
        ⟨bytes "ui", .word, none⟩, ⟨bytes "output", .word, none⟩,
        ⟨bytes "timings", .switch, none⟩ ]
  | version =>
      [ ⟨bytes "hash", .switch, none⟩, ⟨bytes "date", .switch, none⟩,
        ⟨bytes "full", .switch, none⟩, ⟨bytes "format", .word, none⟩ ]
  | root => [versionFlag]
  | _ => []

/-- All flags that a command takes. -/
def flags (c : Command) : List Flag := c.ownFlags ++ helpFlag :: toolFlags

/-- Why a command refuses so many operands, if it does. -/
def refusesCount (c : Command) (n : Nat) : Option Text :=
  match c with
  | format =>
      if n < 1 then some (bytes "requires at least 1 arg(s), only received " ++ Text.ofNat n)
      else none
  | init =>
      if 1 < n then some (bytes "accepts at most 1 arg(s), received " ++ Text.ofNat n) else none
  | _ => none

end Command

/-! ## Suggestions -/

/-- One more row of the table of distances: from a text with one more byte to every prefix of a
word.  `left` is the distance just computed, `above` the row before, from the prefix in hand on. -/
def distanceRow (c : UInt8) (left : Nat) : Text → List Nat → List Nat
  | w :: ws, corner :: up :: above =>
      let d := min (min (left + 1) (up + 1)) (if c = w then corner else corner + 1)
      d :: distanceRow c d ws (up :: above)
  | _, _ => []

/-- The fewest bytes to insert, delete or replace to get from one text to the other. -/
def editDistance (s t : Text) : Nat :=
  let first := List.range (t.length + 1)
  let step (row : List Nat) (c : UInt8) : List Nat :=
    let start := row.headD 0 + 1
    start :: distanceRow c start t row
  (s.foldl step first).getLastD 0

/-- The names of commands that a word may have been meant to name. -/
def suggestions (w : Text) : List Text :=
  let names := [Command.format, .init, .version, .completion].filterMap fun c => c.names.head?
  names.filter fun name => editDistance (fold w) name ≤ 2 || startsWith (fold w) name

/-- The message for a word that names no command. -/
def unknownCommand (w : Text) : Text :=
  let hint := suggestions w
  bytes "unknown command " ++ quoted w ++ bytes " for " ++ quoted toolName
    ++ (if hint.isEmpty then []
        else
          bytes "\n\nDid you mean this?\n"
            ++ hint.flatMap fun n => bytes "\t" ++ n ++ bytes "\n")

/-! ## Finding the command -/

/-- Does an argument take the next one as its value, as far as the flags of the tool tell?  Flags
that are not among them are taken to need a value. -/
def takesNext (arg : Text) : Bool :=
  let isSwitch (p : Flag → Bool) : Bool := toolFlags.any fun f => p f && f.kind = .switch
  if arg.contains equals then false
  else if startsWith [minus, minus] arg then !isSwitch fun f => f.name == arg.drop 2
  else
    match arg with
    | [a, b] => a = minus && !isSwitch fun f => f.letter == some b
    | _ => false

/-- Is the argument a word, not a flag? -/
def isBare (arg : Text) : Bool := !startsWith [minus] arg

/-- The first word among arguments; a value at the very end is not looked for. -/
def firstWord? : List Text → Option Text
  | [] => none
  | arg :: rest =>
      if arg = [minus, minus] then none
      else if takesNext arg then
        match rest with
        | _ :: next :: more => firstWord? (next :: more)
        | _ => none
      else if isBare arg && !arg.isEmpty then some arg
      else firstWord? rest

/-- The arguments without the first that is the word `w`. -/
def dropWord (w : Text) : List Text → List Text
  | [] => []
  | arg :: rest =>
      if arg = [minus, minus] then arg :: rest
      else if takesNext arg then
        match rest with
        | [] => [arg]
        | value :: more => arg :: value :: dropWord w more
      else if isBare arg && arg = w then rest
      else arg :: dropWord w rest

/-- The command of a command line and its arguments, or the word that names none. -/
def findCommand (args : List Text) : Except Text (Command × List Text) :=
  match firstWord? args with
  | none => .ok (.root, args)
  | some w =>
      match Command.ofWord? w with
      | some c => .ok (c, dropWord w args)
      | none => .error w

/-! ## Requests -/

/-- What a command line asks for. -/
inductive Request where
  /-- How a command is used. -/
  | usage (command : Command)
  /-- The version, in one line. -/
  | versionLine
  /-- A command with its flags and operands. -/
  | run (command : Command) (flags : GivenFlags) (operands : List Text)
  deriving Repr, DecidableEq

/-- What a command line asks for. -/
def Request.ofArguments (args : List Text) : Except Failure Request := do
  let (command, args) ← (findCommand args).mapError fun w => .plain (unknownCommand w)
  let (given, operands) ← (readFlags command.flags {} args).mapError fun f => .plain f.message
  if given.isOn helpFlag.name then return .usage command
  if command = .root && given.isOn versionFlag.name then return .versionLine
  match command with
  | .root => return .usage command
  | .help => return .usage command
  | .completion => return .usage command
  | _ =>
      match command.refusesCount operands.length with
      | some message => throw (.plain message)
      | none => return .run command given operands

end GrammarLayout
