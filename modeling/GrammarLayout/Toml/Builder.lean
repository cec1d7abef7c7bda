import GrammarLayout.Toml.Parser

/-!
# The table that a document describes

The statements of a document are carried out one after the other.  A key may be
given only once.  Tables that a longer key merely passes through are implied:
they may be opened once more by a statement of their own.  A key that holds an
array may be given again.
-/

namespace GrammarLayout

namespace Table

/-- The table at a key, through the latest element of each array of tables. -/
def reach? : List Text → Table → Option Table
  | [], t => some t
  | k :: ks, t =>
      match t.get? k with
      | some (.table sub) => reach? ks sub
      | some (.tables elements) => elements.getLast?.bind (reach? ks)
      | _ => none

/-- The table with the table at a key changed. -/
def change? (f : Table → Table) : List Text → Table → Option Table
  | [], t => some (f t)
  | k :: ks, t =>
      match t.get? k with
      | some (.table sub) => (change? f ks sub).map fun sub => t.set k (.table sub)
      | some (.tables elements) =>
          (elements.getLast?.bind (change? f ks)).map fun last =>
            t.set k (.tables (elements.dropLast ++ [last]))
      | _ => none

end Table

namespace Toml

/-- A document so far. -/
structure Builder where
  /-- What it describes. -/
  root : Table := []
  /-- The keys of implied tables. -/
  implied : List Key := []
  /-- The keys that hold arrays. -/
  arrays : List Key := []
  deriving Repr, Inhabited

namespace Builder

/-- Notes that a table is implied. -/
def imply (b : Builder) (key : Key) : Builder := { b with implied := key :: b.implied }

/-- Notes that a table is no longer implied. -/
def settle (b : Builder) (key : Key) : Builder :=
  { b with implied := b.implied.filter (· != key) }

/-- Notes whether a key holds an array.  An empty last part stands for the table around it. -/
def noteArray (b : Builder) (context : Key) (name : Text) (isArray : Bool) : Builder :=
  let key := if name.isEmpty then context else context ++ [name]
  let key := if key.isEmpty then [[]] else key
  let others := b.arrays.filter (· != key)
  { b with arrays := if isArray then key :: others else others }

/-- Sets the value of a name in the table at `context`. -/
def store? (b : Builder) (context : Key) (name : Text) (v : Setting) : Option Builder :=
  (b.root.change? (Table.set name v) context).map fun root => { b with root := root }

/-- Gives a name a value: it has to be new, or hold an array, or an implied table, which is kept. -/
def give? (b : Builder) (context : Key) (name : Text) (v : Setting) : Option Builder := do
  let t ← b.root.reach? context
  let key := context ++ [name]
  if (t.get? name).isNone then b.store? context name v
  else if b.arrays.contains key then (b.settle key).store? context name v
  else if b.implied.contains key then some (b.settle key)
  else none

/-- Makes the missing tables on the way to a key; they are implied. -/
def passThrough? : Builder → Key → Key → Option Builder
  | b, _, [] => some b
  | b, context, name :: names => do
      let t ← b.root.reach? context
      match t.get? name with
      | none =>
          let b ← (b.imply (context ++ [name])).store? context name (.table [])
          passThrough? b (context ++ [name]) names
      | some (.table _) => passThrough? b (context ++ [name]) names
      | some (.tables _) => passThrough? b (context ++ [name]) names
      | some _ => none

/-- Opens the table at a key. -/
def openTable? (b : Builder) (key : Key) : Option Builder := do
  let b ← b.passThrough? [] key.dropLast
  let name ← key.getLast?
  b.give? key.dropLast name (.table [])

/-- Opens a new element of the array of tables at a key. -/
def openElement? (b : Builder) (key : Key) : Option Builder := do
  let b ← b.passThrough? [] key.dropLast
  let name ← key.getLast?
  let t ← b.root.reach? key.dropLast
  match t.get? name with
  | none => b.store? key.dropLast name (.tables [[]])
  | some (.tables elements) => b.store? key.dropLast name (.tables (elements ++ [[]]))
  | some _ => none

/-- Opens the implied tables of the leading parts of a key below `context`. -/
def enter? : Builder → Key → Key → Option (Builder × Key)
  | b, context, [] => some (b, context)
  | b, context, name :: names => do
      let inner := context ++ [name]
      let b ← (b.imply inner).openTable? inner
      enter? b inner names

/-- Is a value an array? -/
def isArray : Literal → Bool
  | .array _ => true
  | _ => false

mutual

/-- Carries out what a value describes, and gives the value; `inArray` tells whether it is an
item of an array. -/
def value? (context : Key) (name : Text) (inArray : Bool) :
    Literal → Builder → Option (Builder × Setting)
  | .plain v, b => some (b, v)
  | .array items, b =>
      (items? context name items (b.noteArray context name true)).map fun r => (r.1, .list r.2)
  | .inline pairs, b => do
      let key := context ++ [name]
      let b ← if inArray then (b.imply key).openElement? key else (b.imply key).openTable? key
      let (b, entries) ← pairs? key pairs b []
      some (b, .table entries)

/-- The items of an array. -/
def items? (context : Key) (name : Text) :
    List Literal → Builder → Option (Builder × List Setting)
  | [], b => some (b, [])
  | item :: rest, b => do
      let (b, v) ← value? context name true item b
      let (b, vs) ← items? context name rest b
      some (b, v :: vs)

/-- The pairs of an inline table, after some entries. -/
def pairs? (context : Key) :
    List (Key × Literal) → Builder → Table → Option (Builder × Table)
  | [], b, entries => some (b, entries)
  | pair :: rest, b, entries => do
      let (b, name, v) ← pair? context pair b
      pairs? context rest b (entries.set name v)

/-- One key with its value: the last part of the key, and the value. -/
def pair? (context : Key) : Key × Literal → Builder → Option (Builder × Text × Setting)
  | (key, literal), b => do
      let name ← key.getLast?
      let (b, inner) ← b.enter? context key.dropLast
      let (b, v) ← value? inner name false literal b
      let b ← b.give? inner name v
      some (b.noteArray inner name (isArray literal), name, v)

end

/-- Carries out a statement below the table opened last. -/
def run? (b : Builder) (context : Key) : Statement → Option (Builder × Key)
  | .table key => do
      let b ← b.openTable? key
      some (b.noteArray key [] false, key)
  | .element key => do
      let b ← b.openElement? key
      some (b.noteArray key [] false, key)
  | .assign key literal => do
      let (b, _) ← b.pair? context (key, literal)
      some (b, context)

/-- Carries out statements one after the other. -/
def runAll? : Builder → Key → List Statement → Option Builder
  | b, _, [] => some b
  | b, context, s :: rest => do
      let (b, context) ← b.run? context s
      runAll? b context rest

end Builder

/-- The table that a document describes, if it is a TOML document. -/
def read? (s : Text) : Option Table := do
  let statements ← statements? s
  let b ← ({} : Builder).runAll? [] statements
  some b.root

end Toml

end GrammarLayout
