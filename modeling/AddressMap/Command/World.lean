import AddressMap.Command.FileTree
import AddressMap.Command.Host
import AddressMap.Output.Writer

/-!
# Worlds

A world is a host that is held in memory: a file tree with a working directory, and what has been
printed and told.
-/

namespace AddressMap

set_option autoImplicit false

structure World where
  tree : FileTree := {}
  workingDirectory : Location := []
  printed : Sink := {}
  warnings : String := ""
deriving DecidableEq, Repr

namespace World

def isDirectory (path : String) : StateM World Bool := do
  let world ← get
  return (world.tree.directory? world.workingDirectory path).isSome

def isFile (path : String) : StateM World Bool := do
  let world ← get
  return (world.tree.file? world.workingDirectory path).isSome

def refusal : String := "refused by the file tree"

def orRefusal {α : Type} (answer? : Option α) : Except String α :=
  answer?.elim (.error refusal) .ok

def listEntries (path : String) : StateM World (Except String (List String)) := do
  let world ← get
  return orRefusal ((world.tree.directory? world.workingDirectory path).map world.tree.entryNames)

def readText (path : String) : StateM World (Except String String) := do
  let world ← get
  return orRefusal (world.tree.text? world.workingDirectory path)

def update (tree? : Option FileTree) : StateM World (Except String Unit) := do
  match tree? with
  | some tree => do
      modify fun world => { world with tree }
      return .ok ()
  | none => return .error refusal

def makeDirectory (path : String) : StateM World (Except String Unit) := do
  let world ← get
  update (world.tree.makeDirectory? world.workingDirectory path)

def saveText (path text : String) : StateM World (Except String Unit) := do
  let world ← get
  update (world.tree.save? world.workingDirectory path (.text text))

def print (text : String) : StateM World (Except String Unit) := do
  let world ← get
  match world.printed.take text with
  | .ok printed => do
      set { world with printed }
      return .ok ()
  | .error error => return .error error.message

def warn (text : String) : StateM World Unit :=
  modify fun world => { world with warnings := world.warnings ++ text }

def host : Host (StateM World) :=
  { isDirectory, isFile, listEntries, readText, makeDirectory, saveText, print, warn }

end World

end AddressMap
