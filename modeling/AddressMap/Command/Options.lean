import AddressMap.Elaboration.MemoryMap
import AddressMap.Output.Render

/-!
# Options

A command line is a list of arguments: two positional ones, for the formats and the source, and
options among them. An option may stand anywhere, and of several occurrences the last one counts.
-/

namespace AddressMap

set_option autoImplicit false

structure Options where
  /-- A declaration file, or a directory of such files. -/
  source : String
  formats : List OutputFormat
  /-- Where to write one file for each root and format; without it, output is printed. -/
  outputDir? : Option String := none
  verbose : Bool := false
  /-- Whether outputs may be made at the same time. Here they are always made in turn. -/
  parallel : Bool := true
  defaults : MapDefaults := {}
deriving DecidableEq, Repr

inductive UsageError where
  | missingDirectory (option : String)
  | invalidBase (text : String)
  | invalidBusWidth (text : String)
  | unknownOption (text : String)
  | positionalCount
  | unknownFormat (text : String)
deriving DecidableEq, Repr

namespace UsageError

def message : UsageError → String
  | missingDirectory option => s!"`{option}` needs a directory"
  | invalidBase text => s!"invalid base address `{text}`"
  | invalidBusWidth text => s!"invalid bus width `{text}`"
  | unknownOption text => s!"unknown option `{text}`"
  | positionalCount => "expected an output format list and a source path"
  | unknownFormat text => OutputFormat.unknownMessage text

end UsageError

def usage : String :=
  String.intercalate "\n"
    ["Usage: rmapc <formats> <source> [options]",
      "",
      "Formats (comma-separated): tree, explicit",
      "Source: a declaration file (.json) or a directory of them",
      "",
      "Options:",
      "  -o, --output <dir>   Write one file per root and format (default: stdout)",
      "  --base=<addr>        Default memory-map base (default: 0x8000_0000)",
      "  --bus-width=<bits>   Default memory-map bus width (default: 32)",
      "  --no-parallel        Run traversals sequentially",
      "  -v, --verbose        Trace construction to stderr"]

/-- One argument, an option taken together with its value. -/
inductive Argument where
  | positional (text : String)
  /-- Where to write; nowhere means to print. -/
  | outputDir (dir? : Option String)
  | base (address : Nat)
  | busWidth (bits : Nat)
  | sequential
  | verbose
deriving DecidableEq, Repr

namespace Argument

def behind? (lead text : String) : Option String :=
  if lead.toList.isPrefixOf text.toList then
    some (String.ofList (text.toList.drop lead.toList.length))
  else none

/-- The directory that is named. A single dash stands for printing. -/
def directory (name : String) : Argument :=
  outputDir (if name = "-" then none else some name)

def readBusWidth? (text : String) : Option Nat := do
  let bits ← readNumeral? text
  if bits < wordWidthBound then some bits else none

def ofText (text : String) : Except UsageError Argument :=
  match behind? "--output=" text, behind? "--base=" text, behind? "--bus-width=" text with
  | some name, _, _ => .ok (directory name)
  | none, some address, _ => (readNumeral? address).elim (.error (.invalidBase address)) (.ok ∘ base)
  | none, none, some bits =>
      (readBusWidth? bits).elim (.error (.invalidBusWidth bits)) (.ok ∘ busWidth)
  | none, none, none =>
      if text = "--no-parallel" then .ok sequential
      else if text = "-v" ∨ text = "--verbose" then .ok verbose
      else if text.toList.head? = some '-' ∧ text ≠ "-" then .error (.unknownOption text)
      else .ok (positional text)

def readAll : List String → Except UsageError (List Argument)
  | [] => .ok []
  | text :: rest =>
      if text = "-o" ∨ text = "--output" then
        match rest with
        | [] => .error (.missingDirectory text)
        | name :: rest => do
            let others ← readAll rest
            .ok (directory name :: others)
      else do
        let argument ← ofText text
        let others ← readAll rest
        .ok (argument :: others)

def positional? : Argument → Option String
  | positional text => some text
  | _ => none

def outputDir? : Argument → Option (Option String)
  | outputDir dir? => some dir?
  | _ => none

def base? : Argument → Option Nat
  | base address => some address
  | _ => none

def busWidth? : Argument → Option Nat
  | busWidth bits => some bits
  | _ => none

end Argument

namespace OutputFormat

def readList (text : String) : Except UsageError (List OutputFormat) :=
  (text.toList.splitOnP (· == ',')).mapM fun chars =>
    let name := String.ofList chars
    (ofName? name).elim (.error (.unknownFormat name)) .ok

end OutputFormat

namespace Options

def last {α : Type} (pick : Argument → Option α) (arguments : List Argument) (otherwise : α) : α :=
  (arguments.filterMap pick).getLastD otherwise

def ofArguments (arguments : List Argument) : Except UsageError Options := do
  match arguments.filterMap Argument.positional? with
  | [formats, source] =>
      let formats ← OutputFormat.readList formats
      let standard : MapDefaults := {}
      .ok
        { source
          formats
          outputDir? := last Argument.outputDir? arguments none
          verbose := arguments.contains .verbose
          parallel := !arguments.contains .sequential
          defaults :=
            { base := last Argument.base? arguments standard.base
              busWidth := last Argument.busWidth? arguments standard.busWidth } }
  | _ => .error .positionalCount

def read (texts : List String) : Except UsageError Options := do
  let arguments ← Argument.readAll texts
  ofArguments arguments

end Options

end AddressMap
