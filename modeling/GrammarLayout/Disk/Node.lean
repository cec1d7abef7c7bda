import GrammarLayout.Text.Basic

/-!
# Trees of files

A tree is a file or a directory of named trees.  A place in it is the list of
names on the way from the top: `Node.get?` finds what is there, `Node.put` and
`Node.erase` change it and leave every other place alone.
-/

namespace GrammarLayout

/-- A file or a directory. -/
inductive Node where
  /-- A file with its content. -/
  | file (content : Text)
  /-- A directory with its entries, each name once. -/
  | dir (entries : List (Text × Node))
  deriving Repr, Inhabited

/-- The names on the way from the top of a tree. -/
abbrev Location := List Text

/-- The entries of a directory with one set; a new name comes last. -/
def setEntry (name : Text) (n : Node) : List (Text × Node) → List (Text × Node)
  | [] => [(name, n)]
  | (k, old) :: rest => if k = name then (k, n) :: rest else (k, old) :: setEntry name n rest

namespace Node

/-- Is it a directory? -/
def isDir : Node → Bool
  | dir _ => true
  | file _ => false

/-- The content of a file. -/
def content? : Node → Option Text
  | file t => some t
  | dir _ => none

/-- The tree at a place. -/
def get? : Node → Location → Option Node
  | n, [] => some n
  | file _, _ :: _ => none
  | dir entries, name :: names => (entries.lookup name).bind fun n => n.get? names

/-- The tree with another tree put at a place; without a directory to hold it nothing changes. -/
def put : Node → Location → Node → Node
  | _, [], new => new
  | file t, _ :: _, _ => file t
  | dir entries, [name], new => dir (setEntry name new entries)
  | dir entries, name :: next :: names, new =>
      match entries.lookup name with
      | none => dir entries
      | some n => dir (setEntry name (n.put (next :: names) new) entries)

/-- The tree without what is at a place. -/
def erase : Node → Location → Node
  | n, [] => n
  | file t, _ :: _ => file t
  | dir entries, [name] => dir (entries.filter fun e => e.1 != name)
  | dir entries, name :: next :: names =>
      match entries.lookup name with
      | none => dir entries
      | some n => dir (setEntry name (erase n (next :: names)) entries)

end Node

mutual

/-- The files of a tree, with their places and contents. -/
def Node.files : Node → List (Location × Text)
  | .file t => [([], t)]
  | .dir entries => filesOfEntries entries

/-- The files of the entries of a directory. -/
def filesOfEntries : List (Text × Node) → List (Location × Text)
  | [] => []
  | entry :: rest => filesOfEntry entry ++ filesOfEntries rest

/-- The files of one entry of a directory. -/
def filesOfEntry : Text × Node → List (Location × Text)
  | (name, n) => n.files.map fun f => (name :: f.1, f.2)

end

end GrammarLayout
