import AddressMap.Command.Run

/-!
# The command

The command reads its arguments, runs, tells the user what went wrong, and answers with a status.
-/

namespace AddressMap

set_option autoImplicit false

inductive ExitStatus where
  | success
  | failure
  | misuse
deriving DecidableEq, Repr

def ExitStatus.code : ExitStatus → UInt32
  | success => 0
  | failure => 1
  | misuse => 2

/-- Whether the arguments ask how the command is used. So does an empty command line. -/
def asksForHelp (args : List String) : Bool :=
  args.isEmpty || args.contains "-h" || args.contains "--help"

section Program

variable {m : Type → Type} [Monad m]

def warnEach (host : Host m) : List Diagnostic → m Unit
  | [] => pure ()
  | diagnostic :: rest => do
      host.warn (diagnostic.text ++ "\n")
      warnEach host rest

def runCommand (host : Host m) (options : Options) : m ExitStatus := do
  match ← (options.run host).run with
  | .ok report => do
      warnEach host report.failures
      pure (if report.succeeded then .success else .failure)
  | .error (.build diagnostic) => do
      host.warn (diagnostic.text ++ "\n")
      pure .failure
  | .error error => do
      host.warn ("error: " ++ error.message ++ "\n")
      pure .failure

def command (host : Host m) (args : List String) : m ExitStatus := do
  if asksForHelp args then
    let _ ← host.print (usage ++ "\n")
    pure .success
  else
    match Options.read args with
    | .error error => do
        host.warn ("error: " ++ error.message ++ "\n\n" ++ usage ++ "\n")
        pure .misuse
    | .ok options => runCommand host options

end Program

end AddressMap
