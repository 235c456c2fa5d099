import AddressMap.Command.PathName

/-!
# Hosts

A host is what a run needs of its surroundings: files to read and write, and places to print to.
Whatever fails is answered with the host's reason in words.
-/

namespace AddressMap

set_option autoImplicit false

structure Host (m : Type → Type) where
  isDirectory : String → m Bool
  /-- Whether a regular file is there. -/
  isFile : String → m Bool
  /-- The names of the entries of a directory, in any order. -/
  listEntries : String → m (Except String (List String))
  readText : String → m (Except String String)
  /-- Makes a directory, unless it is there. -/
  makeDirectory : String → m (Except String Unit)
  /-- Makes a file or replaces it. -/
  saveText : String → String → m (Except String Unit)
  /-- Prints a text as a whole or not at all. -/
  print : String → m (Except String Unit)
  /-- Tells the user something beside the output. -/
  warn : String → m Unit

namespace Host

variable {m : Type → Type} [Monad m]

def makeEach (host : Host m) : List String → m (Except String Unit)
  | [] => pure (.ok ())
  | path :: rest => do
      match ← host.makeDirectory path with
      | .ok () => makeEach host rest
      | .error reason => pure (.error reason)

def makeDirectories (host : Host m) (path : String) : m (Except String Unit) :=
  makeEach host (PathName.directories path)

def keepFiles (host : Host m) : List String → m (List String)
  | [] => pure []
  | path :: rest => do
      let isFile ← host.isFile path
      let others ← keepFiles host rest
      pure (if isFile then path :: others else others)

/-- Makes a file or replaces it. A path name that no system takes is refused before the host sees
it. -/
def save (host : Host m) (path text : String) : m (Except String Unit) :=
  if PathName.holdsZero path then
    pure (.error "file name contained an unexpected NUL byte")
  else host.saveText path text

end Host

end AddressMap
