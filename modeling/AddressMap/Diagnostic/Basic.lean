import AddressMap.Elaboration.Error
import AddressMap.Element.Visit

/-!
# Diagnostics

A diagnostic is an error as it is shown: its code and message, where it is, and notes on what to do.
-/

namespace AddressMap

set_option autoImplicit false

structure Diagnostic where
  code : ErrorCode
  message : String := ""
  path? : Option Path := none
  /-- The file that the element was declared in. -/
  source? : Option String := none
  notes : List String := []
deriving DecidableEq, Repr

namespace Fault

def notes : Fault → List String
  | overlap .. | fieldRange .. => ["give the element an offset in free space, or omit it"]
  | undersized .. => ["omit `size` to have it inferred from the contents"]
  | unknownComponent name =>
      [s!"set `extern` to the name of a loaded component; `{name}` was not found"]
  | arraySize _ framesize count => [s!"omit `size` or set it to {framesize * count}"]
  | _ => []

end Fault

namespace Diagnostic

def ofBuildError (error : BuildError) : Diagnostic :=
  { code := error.code
    message := error.message
    path? := some error.path
    notes := error.fault.notes }

def ofVisitError (error : VisitError) : Diagnostic :=
  { code := match error with
      | .unhandled .. => .unhandledKind
      | .emit .. => .outputFailure
    message := error.message
    path? := some error.path }

def location? (diagnostic : Diagnostic) : Option String :=
  match diagnostic.source?, diagnostic.path? with
  | some source, some path => some s!"{source}: {path.text}"
  | some source, none => some source
  | none, some path => some path.text
  | none, none => none

/-- The diagnostic as it is printed, without a line break behind it. -/
def text (diagnostic : Diagnostic) : String :=
  let headline := s!"error [{diagnostic.code.text}]: {diagnostic.message}"
  let location := diagnostic.location?.toList.map fun place => s!"\n  --> {place}"
  let notes := diagnostic.notes.map fun note => s!"\n  = note: {note}"
  String.join (headline :: location ++ notes)

end Diagnostic

end AddressMap
