/-!
# Writers

Output is written as texts, line breaks and indents. A `TextBuffer` holds all of it. A `SinkWriter`
passes it on to a sink, which may refuse it: after the first refusal nothing more is written, and
`finish` reports it.
-/

namespace AddressMap

set_option autoImplicit false

class Writer (ω : Type) where
  text : ω → String → ω
  lineBreak : ω → ω
  /-- Writes four blanks for each level. -/
  indent : ω → Nat → ω

namespace Writer

variable {ω : Type} [Writer ω]

def line (writer : ω) (level : Nat) (text : String) : ω :=
  lineBreak (Writer.text (indent writer level) text)

end Writer

structure TextBuffer where
  content : String := ""
deriving DecidableEq, Repr

namespace TextBuffer

def push (buffer : TextBuffer) (c : Char) : TextBuffer :=
  { content := buffer.content.push c }

instance : Writer TextBuffer where
  text buffer text := { content := buffer.content ++ text }
  lineBreak buffer := buffer.push '\n'
  indent buffer level := Nat.repeat (·.push ' ') (level * 4) buffer

end TextBuffer

inductive SinkError where
  | full
  | flush
deriving DecidableEq, Repr

def SinkError.message : SinkError → String
  | full => "disk full"
  | flush => "flush failed"

/-- A place for output that may have a limit. -/
structure Sink where
  content : String := ""
  /-- The greatest number of bytes that it takes. -/
  limit? : Option Nat := none
  flushFails : Bool := false
deriving DecidableEq, Repr

namespace Sink

def hasRoom (sink : Sink) (bytes : Nat) : Bool :=
  match sink.limit? with
  | none => true
  | some limit => decide (sink.content.utf8ByteSize + bytes ≤ limit)

def append (sink : Sink) (text : String) : Sink :=
  { sink with content := sink.content ++ text }

/-- Takes a text as a whole or not at all. -/
def take (sink : Sink) (text : String) : Except SinkError Sink :=
  if sink.hasRoom text.utf8ByteSize then .ok (sink.append text) else .error .full

def flush (sink : Sink) : Except SinkError Sink :=
  if sink.flushFails then .error .flush else .ok sink

end Sink

structure SinkWriter where
  sink : Sink
  /-- The first refusal. -/
  error? : Option SinkError := none
deriving DecidableEq, Repr

namespace SinkWriter

/-- Passes a text on, unless the sink has refused one or refuses this one. -/
def push (writer : SinkWriter) (text : String) : SinkWriter :=
  match writer with
  | ⟨sink, some error⟩ => ⟨sink, some error⟩
  | ⟨sink, none⟩ =>
      if sink.hasRoom text.utf8ByteSize then ⟨sink.append text, none⟩ else ⟨sink, some .full⟩

/-- The sink once all is written and flushed, or the first refusal. -/
def finish (writer : SinkWriter) : Except SinkError Sink :=
  match writer.error? with
  | some error => .error error
  | none => writer.sink.flush

instance : Writer SinkWriter where
  text := push
  lineBreak writer := writer.push "\n"
  indent writer level := Nat.repeat (·.push "    ") level writer

end SinkWriter

end AddressMap
