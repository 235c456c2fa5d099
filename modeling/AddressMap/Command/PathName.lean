/-!
# Path names

A path name is a text of steps with slashes between them. An empty step and `.` stay where they are,
`..` goes up, and any other step names an entry. A file system takes a path name only within limits
on its size, and no character of it may be zero.
-/

namespace AddressMap.PathName

set_option autoImplicit false

def maxSize : Nat := 4095

def maxStepSize : Nat := 255

/-- Whether the zero character, which ends a text for the system, stands in the path name. -/
def holdsZero (path : String) : Bool :=
  path.toList.contains '\x00'

def isLegal (path : String) : Bool :=
  decide (path.utf8ByteSize ≤ maxSize) && !holdsZero path

def steps (path : String) : List String :=
  (path.toList.splitOnP (· == '/')).map String.ofList

def ofSteps (steps : List String) : String :=
  String.intercalate "/" steps

def stays (step : String) : Bool :=
  step == "" || step == "."

def isName (step : String) : Bool :=
  !stays step && step != ".." && decide (step.utf8ByteSize ≤ maxStepSize)

def isAbsolute (path : String) : Bool :=
  path.toList.head? == some '/'

/-- The path name of an entry of a directory. An entry that starts at the top leaves the directory
behind. -/
def join (dir name : String) : String :=
  if isAbsolute name then name
  else if dir = "" ∨ dir.toList.getLast? = some '/' then dir ++ name
  else dir ++ "/" ++ name

/-- The beginnings of a run of steps, behind the steps before it, that do not end where the walk
stays. -/
def beginnings (before : List String) : List String → List (List String)
  | [] => []
  | step :: rest =>
      let here := before ++ [step]
      if stays step then beginnings here rest else here :: beginnings here rest

/-- The directories to make for a path name, from the outermost in. The last is the path name as it
stands, so one that ends in `.` speaks of a directory that has to be there. -/
def directories (path : String) : List String :=
  match beginnings [] (steps path) with
  | [] => []
  | found => found.dropLast.map ofSteps ++ [path]

example : directories "a/./b/" = ["a", "a/./b/"] := by decide +kernel
example : directories "a/b/." = ["a", "a/b/."] ∧ directories "./" = [] := by decide +kernel

end AddressMap.PathName
