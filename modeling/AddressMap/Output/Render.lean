import AddressMap.Output.Frozen
import AddressMap.Output.Outline

/-!
# Rendering

A root is rendered in one of two formats into a sink. A sink that refuses gives an error with the
path of the root.
-/

namespace AddressMap

set_option autoImplicit false

inductive OutputFormat where
  | tree
  | explicit
deriving DecidableEq, Repr

namespace OutputFormat

def all : List OutputFormat := [tree, explicit]

def name : OutputFormat → String
  | tree => "tree"
  | explicit => "explicit"

def extension : OutputFormat → String
  | tree => ".txt"
  | explicit => ".json"

def ofName? (text : String) : Option OutputFormat :=
  all.find? (·.name == text)

def unknownMessage (text : String) : String :=
  s!"unknown output format `{text}` (expected one of: tree, explicit)"

def write {ω : Type} [Writer ω] (format : OutputFormat) (writer : ω) (root : Element) :
    Except VisitError ω :=
  match format with
  | tree => Outline.write writer root
  | explicit => .ok (Frozen.write writer root)

end OutputFormat

/-- Writes a root to a sink, all of it or with an error. -/
def render (format : OutputFormat) (root : Element) (sink : Sink) : Except VisitError Sink := do
  let writer ← format.write (SinkWriter.mk sink none) root
  writer.finish.mapError fun error => .emit root.path error.message

def renderText (format : OutputFormat) (root : Element) : Except VisitError String := do
  let sink ← render format root {}
  .ok sink.content

end AddressMap
