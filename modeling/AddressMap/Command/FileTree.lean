import AddressMap.Command.PathName

/-!
# File trees

A file tree maps locations to directories and files. A path name is walked step by step from a
directory, and leads nowhere when it is too long or leaves a directory for what is none.
-/

namespace AddressMap

set_option autoImplicit false

inductive FileNode where
  | directory
  | text (content : String)
  /-- A file whose bytes are no text. -/
  | binary
deriving DecidableEq, Repr

abbrev Location := List String

/-- The entries below the top, which itself is a directory. -/
structure FileTree where
  nodes : List (Location × FileNode) := []
deriving DecidableEq, Repr

namespace FileTree

def node? (tree : FileTree) (location : Location) : Option FileNode :=
  if location.isEmpty then some .directory else tree.nodes.lookup location

def isDirectory (tree : FileTree) (location : Location) : Bool :=
  tree.node? location == some .directory

def put (tree : FileTree) (location : Location) (node : FileNode) : FileTree :=
  { nodes := (tree.nodes.filter fun entry => entry.1 != location) ++ [(location, node)] }

def entryNames (tree : FileTree) (location : Location) : List String :=
  tree.nodes.filterMap fun entry =>
    if entry.1.dropLast = location then entry.1.getLast? else none

def enter? (tree : FileTree) (location : Location) (step : String) : Option Location :=
  if PathName.stays step then some location
  else if step = ".." then some location.dropLast
  else
    let next := location ++ [step]
    if tree.isDirectory next then some next else none

def walk? (tree : FileTree) (workingDirectory : Location) (path : String) (steps : List String) :
    Option Location :=
  if path ≠ "" ∧ PathName.isLegal path then
    steps.foldlM tree.enter? (if PathName.isAbsolute path then [] else workingDirectory)
  else none

def directory? (tree : FileTree) (workingDirectory : Location) (path : String) : Option Location :=
  tree.walk? workingDirectory path (PathName.steps path)

/-- The location of an entry whose name is the last of these steps, whether it is there or not. -/
def entryOf? (tree : FileTree) (workingDirectory : Location) (path : String)
    (steps : List String) : Option Location := do
  let parent ← tree.walk? workingDirectory path steps.dropLast
  let name ← steps.getLast?
  if PathName.isName name then some (parent ++ [name]) else none

def entry? (tree : FileTree) (workingDirectory : Location) (path : String) : Option Location :=
  tree.entryOf? workingDirectory path (PathName.steps path)

def file? (tree : FileTree) (workingDirectory : Location) (path : String) : Option FileNode := do
  let location ← tree.entry? workingDirectory path
  match tree.node? location with
  | some .directory => none
  | node? => node?

def text? (tree : FileTree) (workingDirectory : Location) (path : String) : Option String := do
  match ← tree.file? workingDirectory path with
  | .text content => some content
  | _ => none

def save? (tree : FileTree) (workingDirectory : Location) (path : String) (node : FileNode) :
    Option FileTree := do
  let location ← tree.entry? workingDirectory path
  if tree.isDirectory location then none else some (tree.put location node)

/-- The tree with a directory made, or as it is if the directory is there. Empty steps at the end
of the path name do not count. -/
def makeDirectory? (tree : FileTree) (workingDirectory : Location) (path : String) :
    Option FileTree :=
  match tree.directory? workingDirectory path with
  | some _ => some tree
  | none => do
      let steps := ((PathName.steps path).reverse.dropWhile (· == "")).reverse
      let location ← tree.entryOf? workingDirectory path steps
      match tree.node? location with
      | some _ => none
      | none => some (tree.put location .directory)

def makeDirectories? (tree : FileTree) (workingDirectory : Location) (path : String) :
    Option FileTree :=
  (PathName.directories path).foldlM (·.makeDirectory? workingDirectory) tree

end FileTree

end AddressMap
