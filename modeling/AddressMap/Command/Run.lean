import AddressMap.Command.Host
import AddressMap.Command.Options
import AddressMap.Decl.Json
import AddressMap.Diagnostic.Basic
import AddressMap.Elaboration.Design

/-!
# Runs

A run loads the declarations of its source, builds them, and makes one output for each root and
format. Until everything is built nothing is written or printed. After that an output that fails is
reported and does not hinder the others.
-/

namespace AddressMap

set_option autoImplicit false

inductive RunError where
  | unreadable (path reason : String)
  | malformed (path : String)
  | noSources (path : String)
  | build (diagnostic : Diagnostic)
  | outputDir (path reason : String)
deriving DecidableEq, Repr

namespace RunError

def message : RunError → String
  | unreadable path reason => s!"cannot read `{path}`: {reason}"
  | malformed path => s!"`{path}` is not a valid declaration file"
  | noSources path => s!"no declaration files found in `{path}`"
  | build diagnostic => diagnostic.text
  | outputDir path reason => s!"cannot create output directory `{path}`: {reason}"

end RunError

structure Source where
  path : String
  decl : Decl

structure Job where
  root : Element
  format : OutputFormat
deriving DecidableEq, Repr

inductive JobResult where
  | written (path : String)
  | printed
  | failed (error : VisitError)
deriving DecidableEq, Repr

namespace JobResult

def path? : JobResult → Option String
  | written path => some path
  | _ => none

def error? : JobResult → Option VisitError
  | failed error => some error
  | _ => none

end JobResult

/-- What became of all jobs, each list in the order of the jobs. -/
structure Report where
  written : List String := []
  failures : List Diagnostic := []
deriving DecidableEq, Repr

namespace Report

def succeeded (report : Report) : Bool :=
  report.failures.isEmpty

def ofResults (results : List JobResult) : Report :=
  { written := results.filterMap JobResult.path?
    failures := (results.filterMap JobResult.error?).map Diagnostic.ofVisitError }

end Report

/-- Declaration files have the extension `json`; a name that is nothing but an extension has
none. -/
def isDeclarationFile (name : String) : Bool :=
  ".json".toList.isSuffixOf name.toList && name != ".json"

namespace Job

def all (design : Design) (formats : List OutputFormat) : List Job :=
  design.roots.flatMap fun root => formats.map (Job.mk root)

def fileName (job : Job) : String :=
  job.root.name ++ job.format.extension

end Job

section Load

variable {m : Type → Type} [Monad m]

namespace Source

/-- The declaration files of a directory in the order of their names, or the path itself. -/
def files (host : Host m) (path : String) : ExceptT RunError m (List String) := do
  if ← host.isDirectory path then
    match ← host.listEntries path with
    | .error reason => throw (.unreadable path reason)
    | .ok names =>
        let ordered := (names.filter isDeclarationFile).mergeSort (· ≤ ·)
        host.keepFiles (ordered.map (PathName.join path))
  else pure [path]

def load (host : Host m) (path : String) : ExceptT RunError m Source := do
  match ← host.readText path with
  | .error reason => throw (.unreadable path reason)
  | .ok text =>
      match Decl.ofJson? text with
      | some decl => pure { path, decl }
      | none => throw (.malformed path)

def loadEach (host : Host m) : List String → ExceptT RunError m (List Source)
  | [] => pure []
  | path :: rest => do
      let source ← load host path
      let sources ← loadEach host rest
      pure (source :: sources)

def loadAll (host : Host m) (path : String) : ExceptT RunError m (List Source) := do
  let paths ← files host path
  if paths.isEmpty then throw (.noSources path)
  else loadEach host paths

def diagnostic (sources : List Source) (error : DesignError) : Diagnostic :=
  { Diagnostic.ofBuildError error.error with source? := sources[error.index]?.map path }

def build (defaults : MapDefaults) (sources : List Source) : Except RunError Design :=
  (Design.ofDecls defaults (sources.map decl)).mapError fun error =>
    .build (diagnostic sources error)

end Source

end Load

section Perform

variable {m : Type → Type} [Monad m]

namespace Job

def perform (host : Host m) (dir? : Option String) (job : Job) : m JobResult := do
  match renderText job.format job.root with
  | .error error => pure (.failed error)
  | .ok text =>
      match dir? with
      | some dir =>
          let path := PathName.join dir job.fileName
          match ← host.save path text with
          | .ok () => pure (.written path)
          | .error reason => pure (.failed (.emit job.root.path reason))
      | none =>
          match ← host.print text with
          | .ok () => pure .printed
          | .error reason => pure (.failed (.emit Path.empty reason))

def performEach (host : Host m) (dir? : Option String) : List Job → m (List JobResult)
  | [] => pure []
  | job :: rest => do
      let result ← job.perform host dir?
      let results ← performEach host dir? rest
      pure (result :: results)

end Job

namespace Options

def makeOutputDir (host : Host m) (options : Options) : ExceptT RunError m Unit := do
  match options.outputDir? with
  | none => pure ()
  | some dir =>
      match ← host.makeDirectories dir with
      | .ok () => pure ()
      | .error reason => throw (.outputDir dir reason)

def run (host : Host m) (options : Options) : ExceptT RunError m Report := do
  let sources ← Source.loadAll host options.source
  let design ← ExceptT.mk (pure (Source.build options.defaults sources))
  options.makeOutputDir host
  let jobs := Job.all design options.formats
  let results ← (Job.performEach host options.outputDir? jobs : m (List JobResult))
  pure (Report.ofResults results)

end Options

end Perform

end AddressMap
