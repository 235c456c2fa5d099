import AddressMap.Command.Program

/-!
# The program

The system as a host, and the command that runs on it.
-/

namespace AddressMap

set_option autoImplicit false

def attempt {α : Type} (action : IO α) : IO (Except String α) := do
  match ← action.toBaseIO with
  | .ok value => return .ok value
  | .error error => return .error (toString error)

def systemKind (path : String) : IO (Option IO.FS.FileType) := do
  let metadata ← attempt do
    let real ← IO.FS.realPath path
    real.metadata
  return metadata.toOption.map fun found => found.type

def systemEntries (path : String) : IO (List String) := do
  let entries ← (← IO.FS.realPath path).readDir
  return (entries.map fun entry => entry.fileName).toList

/-- Makes a directory. One that is there is no failure. -/
def systemMakeDirectory (path : String) : IO (Except String Unit) := do
  match ← attempt (IO.FS.createDir path) with
  | .ok () => return .ok ()
  | .error reason =>
      if (← systemKind path) == some .dir then return .ok () else return .error reason

def systemHost : Host IO where
  isDirectory path := do return (← systemKind path) == some .dir
  isFile path := do return (← systemKind path) == some .file
  listEntries path := attempt (systemEntries path)
  readText path := attempt (IO.FS.readFile path)
  makeDirectory := systemMakeDirectory
  saveText path text := attempt (IO.FS.writeFile path text)
  print text := attempt do
    let out ← IO.getStdout
    out.putStr text
    out.flush
  warn text := IO.eprint text

end AddressMap

def main (args : List String) : IO UInt32 := do
  let status ← AddressMap.command AddressMap.systemHost args
  return status.code
