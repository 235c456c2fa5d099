import AddressMap.Proofs.Output.Sinks

/-!
# Writers and devices

A writer is called with texts, line breaks, indents and lines. The text buffer takes them character
by character, the writer behind which a sink stands passes them on in larger pieces. Here the sink
may be any device that takes a piece as a whole, or fails, perhaps with a beginning of the piece
taken. The main statement is that what the device holds is a beginning of the text in the buffer,
and all of it unless a piece was refused; that nothing is written behind that piece; and that
finishing reports it.
-/

namespace AddressMap

set_option autoImplicit false

inductive Call where
  | text (shown : String)
  | lineBreak
  | indent (level : Nat)
  | line (level : Nat) (shown : String)
deriving DecidableEq, Repr

namespace Call

def run {ω : Type} [Writer ω] (writer : ω) : Call → ω
  | text shown => Writer.text writer shown
  | lineBreak => Writer.lineBreak writer
  | indent level => Writer.indent writer level
  | line level shown => Writer.line writer level shown

def pieces : Call → List String
  | text shown => [shown]
  | lineBreak => ["\n"]
  | indent level => List.replicate level "    "
  | line level shown => (OutlineLine.mk level shown).pieces

end Call

namespace Writer

variable {ω : Type} [Writer ω]

def runAll (writer : ω) (calls : List Call) : ω :=
  calls.foldl Call.run writer

theorem run_all_append (writer : ω) (calls more : List Call) :
    runAll writer (calls ++ more) = runAll (runAll writer calls) more :=
  List.foldl_append

theorem run_all_map {other : Type} [Writer other] (map : ω → other)
    (text : ∀ writer shown, map (Writer.text writer shown) = Writer.text (map writer) shown)
    (lineBreak : ∀ writer, map (Writer.lineBreak writer) = Writer.lineBreak (map writer))
    (indent : ∀ writer level, map (Writer.indent writer level) = Writer.indent (map writer) level)
    (writer : ω) (calls : List Call) : map (runAll writer calls) = runAll (map writer) calls := by
  induction calls generalizing writer with
  | nil => rfl
  | cons call rest ih =>
      have here : map (call.run writer) = call.run (map writer) := by
        cases call with
        | text shown => exact text writer shown
        | lineBreak => exact lineBreak writer
        | indent level => exact indent writer level
        | line level shown =>
            show map (Writer.lineBreak _) = Writer.lineBreak _
            rw [lineBreak, text, indent]
      exact (ih (call.run writer)).trans (congrArg (runAll · rest) here)

end Writer

namespace TextBuffer

variable (buffer : TextBuffer)

theorem content_indent (level : Nat) :
    (Writer.indent buffer level).content =
      buffer.content ++ String.join (List.replicate level "    ") := by
  induction level with
  | zero =>
      rw [List.replicate_zero, String.join_nil, String.append_empty]
      rfl
  | succ level ih =>
      have four (content : String) :
          (((content.push ' ').push ' ').push ' ').push ' ' = content ++ "    " := by
        simp only [String.push_eq_append, String.append_assoc]
        rfl
      have step : (Writer.indent buffer (level + 1)).content =
          (Writer.indent buffer level).content ++ "    " := by
        show (Nat.repeat (·.push ' ') ((level + 1) * 4) buffer).content = _
        rw [Nat.succ_mul]
        exact four _
      rw [step, ih, List.replicate_succ', String.join_append, String.append_assoc]
      rfl

theorem content_run (call : Call) :
    (call.run buffer).content = buffer.content ++ String.join call.pieces := by
  cases call with
  | text shown =>
      rw [Call.pieces, String.join_cons, String.join_nil, String.append_empty]
      rfl
  | lineBreak => exact String.push_eq_append '\n'
  | indent level => exact buffer.content_indent level
  | line level shown =>
      rw [Call.pieces, OutlineLine.pieces, String.join_append, ← String.append_assoc,
        ← content_indent]
      exact (String.push_eq_append '\n').trans String.append_assoc

theorem content_run_all (calls : List Call) :
    (Writer.runAll buffer calls).content =
      buffer.content ++ String.join (calls.flatMap Call.pieces) := by
  induction calls generalizing buffer with
  | nil => exact String.append_empty.symm
  | cons call rest ih =>
      rw [List.flatMap_cons, String.join_append, ← String.append_assoc, ← content_run]
      exact ih (call.run buffer)

end TextBuffer

def bytes (text : String) : List UInt8 :=
  text.toByteArray.data.toList

@[simp]
theorem bytes_empty : bytes "" = [] :=
  rfl

@[simp]
theorem bytes_append (first second : String) :
    bytes (first ++ second) = bytes first ++ bytes second := by
  rw [bytes, String.toByteArray_append, ByteArray.toList_data_append]
  rfl

/-- A sink of any kind. It takes a text whole, or fails and may have taken a beginning of it. -/
class Device (δ : Type) (ε : outParam Type) where
  /-- The bytes that are in it. -/
  content : δ → List UInt8
  write : δ → String → δ × Option ε
  flush : δ → Except ε δ
  content_of_taken : ∀ device text, (write device text).2 = none →
    content (write device text).1 = content device ++ bytes text
  content_of_written : ∀ device text, ∃ taken, taken <+: bytes text ∧
    content (write device text).1 = content device ++ taken

structure DeviceWriter (δ ε : Type) where
  device : δ
  /-- The first refusal. -/
  error? : Option ε := none

namespace Device

variable {δ ε : Type} [Device δ ε]

/-- The device takes the pieces one after the other. -/
inductive Takes : δ → List String → δ → Prop
  | nil (device : δ) : Takes device [] device
  | cons {device next last : δ} {piece : String} {rest : List String}
      (taken : write device piece = (next, none)) (others : Takes next rest last) :
      Takes device (piece :: rest) last

theorem content_of_takes {device last : δ} {pieces : List String}
    (takes : Takes device pieces last) :
    content last = content device ++ bytes (String.join pieces) := by
  induction takes with
  | nil device => rw [String.join_nil, bytes_empty, List.append_nil]
  | @cons device next last piece rest taken others ih =>
      have here := content_of_taken device piece (congrArg Prod.snd taken)
      rw [taken] at here
      rw [ih, here, String.join_cons, bytes_append, List.append_assoc]

end Device

namespace DeviceWriter

variable {δ ε : Type} [Device δ ε]

def push (writer : DeviceWriter δ ε) (text : String) : DeviceWriter δ ε :=
  match writer with
  | ⟨device, some error⟩ => ⟨device, some error⟩
  | ⟨device, none⟩ => ⟨(Device.write device text).1, (Device.write device text).2⟩

def finish (writer : DeviceWriter δ ε) : Except ε δ :=
  match writer.error? with
  | some error => .error error
  | none => Device.flush writer.device

instance : Writer (DeviceWriter δ ε) where
  text := push
  lineBreak writer := writer.push "\n"
  indent writer level := Nat.repeat (·.push "    ") level writer

theorem run_eq (writer : DeviceWriter δ ε) (call : Call) :
    call.run writer = call.pieces.foldl push writer := by
  cases call with
  | text shown => rfl
  | lineBreak => rfl
  | indent level => exact (foldl_replicate_eq_repeat push writer "    " level).symm
  | line level shown =>
      rw [Call.pieces, OutlineLine.pieces, List.foldl_append, foldl_replicate_eq_repeat]
      rfl

theorem run_all_eq (writer : DeviceWriter δ ε) (calls : List Call) :
    Writer.runAll writer calls = (calls.flatMap Call.pieces).foldl push writer := by
  rw [List.foldl_flatMap]
  exact congrArg (fun step => calls.foldl step writer) (funext₂ run_eq)

/-- Nothing is passed on behind the first refusal. -/
theorem push_each_of_refused (device : δ) (error : ε) (pieces : List String) :
    pieces.foldl push ⟨device, some error⟩ = ⟨device, some error⟩ := by
  induction pieces with
  | nil => rfl
  | cons piece rest ih => exact ih

/-- How it ends to write pieces one after the other: all of them are taken and the device is
flushed, or the first that is refused is the last that is passed on, and is reported. -/
inductive Ends (device : δ) (pieces : List String) : DeviceWriter δ ε → Except ε δ → Prop
  | whole {last : δ} (taken : Device.Takes device pieces last) :
      Ends device pieces ⟨last, none⟩ (Device.flush last)
  | refused {taken rest : List String} {piece : String} {before after : δ} {error : ε}
      (split : pieces = taken ++ piece :: rest) (first : Device.Takes device taken before)
      (refusal : Device.write before piece = (after, some error)) :
      Ends device pieces ⟨after, some error⟩ (.error error)

theorem ends_push_each (device : δ) (pieces : List String) :
    Ends device pieces (pieces.foldl push ⟨device, none⟩)
      (pieces.foldl push ⟨device, none⟩).finish := by
  induction pieces generalizing device with
  | nil => exact .whole (.nil device)
  | cons piece rest ih =>
      rw [List.foldl_cons]
      rcases written : Device.write device piece with ⟨next, error?⟩
      have first : (DeviceWriter.mk device none).push piece = ⟨next, error?⟩ := by
        show DeviceWriter.mk (Device.write device piece).1 _ = _
        rw [written]
      rw [first]
      cases error? with
      | some error =>
          rw [push_each_of_refused]
          exact .refused (rfl : _ = [] ++ piece :: rest) (.nil device) written
      | none =>
          have behind := ih next
          generalize rest.foldl push ⟨next, none⟩ = left at behind
          generalize left.finish = answer at behind
          cases behind with
          | whole taken => exact .whole (.cons written taken)
          | refused split some refusal =>
              exact .refused (congrArg (piece :: ·) split) (.cons written some) refusal

def ofCalls (device : δ) (calls : List Call) : DeviceWriter δ ε :=
  Writer.runAll (DeviceWriter.mk device none) calls

/-- What becomes of calls that go to a device, beside the text that a buffer has of them. Pieces are
written up to the first that is refused, and finishing reports that one, or else flushes. The device
holds a beginning of the text, and all of it if no piece was refused. Nothing that is called
afterwards changes a device that refused. -/
structure Agrees (device : δ) (calls : List Call) (text : String) : Prop where
  ends : Ends device (calls.flatMap Call.pieces) (ofCalls device calls)
    (ofCalls device calls).finish
  beginning : Device.content (ofCalls device calls).device <+: Device.content device ++ bytes text
  whole : (ofCalls device calls).error? = none →
    Device.content (ofCalls device calls).device = Device.content device ++ bytes text
  accepting : (∀ (other : δ) (piece : String), (Device.write other piece).2 = none) →
    (ofCalls device calls).error? = none
  stopped : (ofCalls device calls).error? ≠ none →
    ∀ more, ofCalls device (calls ++ more) = ofCalls device calls

theorem content_of_ends {device : δ} {pieces : List String} {left : DeviceWriter δ ε}
    {answer : Except ε δ} (ends : Ends device pieces left answer) :
    Device.content left.device <+: Device.content device ++ bytes (String.join pieces) ∧
      (left.error? = none →
        Device.content left.device = Device.content device ++ bytes (String.join pieces)) := by
  cases ends with
  | whole taken =>
      have all := Device.content_of_takes taken
      exact ⟨all ▸ List.prefix_rfl, fun _ => all⟩
  | @refused taken rest piece before after error split first refusal =>
      obtain ⟨part, within, held⟩ := Device.content_of_written before piece
      rw [refusal, Device.content_of_takes first, List.append_assoc] at held
      refine ⟨?_, nofun⟩
      rw [held, split, String.join_append, String.join_cons, bytes_append, bytes_append]
      apply (List.prefix_append_right_inj _).2
      apply (List.prefix_append_right_inj _).2
      exact within.trans (List.prefix_append _ _)

theorem run_all_of_refused {writer : DeviceWriter δ ε} (refused : writer.error? ≠ none)
    (calls : List Call) : Writer.runAll writer calls = writer := by
  obtain ⟨device, error?⟩ := writer
  cases error? with
  | none => exact absurd rfl refused
  | some error => rw [run_all_eq, push_each_of_refused]

theorem agrees_buffer (device : δ) (calls : List Call) :
    Agrees device calls (Writer.runAll ({} : TextBuffer) calls).content := by
  have ends : Ends device (calls.flatMap Call.pieces) (ofCalls device calls)
      (ofCalls device calls).finish := by
    rw [ofCalls, run_all_eq]
    exact ends_push_each device _
  have text := TextBuffer.content_run_all {} calls
  rw [String.empty_append] at text
  have content := content_of_ends ends
  rw [← text] at content
  refine ⟨ends, content.1, content.2, fun accepts => ?_, fun refused more => ?_⟩
  · generalize ofCalls device calls = left at ends
    cases ends with
    | whole taken => rfl
    | @refused taken rest piece before after error split first refusal =>
        have taken := accepts before piece
        rw [refusal] at taken
        contradiction
  · rw [ofCalls, Writer.run_all_append]
    exact run_all_of_refused refused more

end DeviceWriter

namespace SinkWriter

instance : Device Sink SinkError where
  content sink := bytes sink.content
  write sink text :=
    if sink.hasRoom text.utf8ByteSize then (sink.append text, none) else (sink, some .full)
  flush := Sink.flush
  content_of_taken sink text taken := by
    split at taken
    next room =>
      rw [if_pos room]
      exact bytes_append _ _
    next => contradiction
  content_of_written sink text := by
    split
    · exact ⟨bytes text, List.prefix_rfl, bytes_append _ _⟩
    · exact ⟨[], List.nil_prefix, (List.append_nil _).symm⟩

def onDevice (writer : SinkWriter) : DeviceWriter Sink SinkError :=
  ⟨writer.sink, writer.error?⟩

theorem push_on_device (writer : SinkWriter) (text : String) :
    (writer.push text).onDevice = writer.onDevice.push text := by
  obtain ⟨sink, error?⟩ := writer
  cases error? with
  | some error => rfl
  | none =>
      show _ = DeviceWriter.mk (Device.write sink text).1 (Device.write sink text).2
      cases room : sink.hasRoom text.utf8ByteSize with
      | true =>
          have written : Device.write sink text = (sink.append text, none) := if_pos room
          rw [push_of_room room, written]
          rfl
      | false =>
          have written : Device.write sink text = (sink, some .full) :=
            if_neg (Bool.eq_false_iff.1 room)
          rw [push_of_no_room room, written]
          rfl

theorem run_all_on_device (writer : SinkWriter) (calls : List Call) :
    (Writer.runAll writer calls).onDevice = Writer.runAll writer.onDevice calls := by
  apply Writer.run_all_map
  · exact push_on_device
  · exact fun writer => push_on_device writer "\n"
  · intro writer level
    induction level with
    | zero => rfl
    | succ level ih => exact (push_on_device _ _).trans (congrArg (DeviceWriter.push · "    ") ih)

theorem finish_on_device (writer : SinkWriter) : writer.onDevice.finish = writer.finish := by
  obtain ⟨sink, error?⟩ := writer
  cases error? <;> rfl

/-- A sink without a limit takes what a buffer takes. -/
theorem run_all_unlimited (flushFails : Bool) (buffer : TextBuffer) (calls : List Call) :
    SinkWriter.mk { content := (Writer.runAll buffer calls).content, flushFails } none =
      Writer.runAll (SinkWriter.mk { content := buffer.content, flushFails } none) calls := by
  apply Writer.run_all_map fun buffer : TextBuffer =>
    SinkWriter.mk { content := buffer.content, flushFails } none
  · exact fun _ _ => rfl
  · intro buffer
    have content : (Writer.lineBreak buffer).content = buffer.content ++ "\n" :=
      String.push_eq_append '\n'
    rw [content]
    rfl
  · intro buffer level
    rw [TextBuffer.content_indent]
    have taken := @push_each_of_room { content := buffer.content, flushFails }
      (List.replicate level "    ") rfl
    rw [foldl_replicate_eq_repeat] at taken
    exact taken.symm

end SinkWriter

/-- Whatever is called, a writer to a device agrees with the text buffer. A sink with a limit is
such a device, and one without a limit holds the text in the end. -/
theorem writers_agree {δ ε : Type} [Device δ ε] (calls : List Call) :
    (∀ device : δ,
      DeviceWriter.Agrees device calls (Writer.runAll ({} : TextBuffer) calls).content) ∧
    (∀ sink : Sink,
      DeviceWriter.Agrees sink calls (Writer.runAll ({} : TextBuffer) calls).content ∧
      (Writer.runAll (SinkWriter.mk sink none) calls).onDevice = DeviceWriter.ofCalls sink calls ∧
      (Writer.runAll (SinkWriter.mk sink none) calls).finish =
        (DeviceWriter.ofCalls sink calls).finish) ∧
    ∀ flushFails, Writer.runAll (SinkWriter.mk { flushFails } none) calls =
      ⟨{ content := (Writer.runAll ({} : TextBuffer) calls).content, flushFails }, none⟩ := by
  refine ⟨fun device => DeviceWriter.agrees_buffer device calls, fun sink => ?_, fun flushFails => ?_⟩
  · have same := SinkWriter.run_all_on_device ⟨sink, none⟩ calls
    refine ⟨DeviceWriter.agrees_buffer sink calls, same, ?_⟩
    exact (SinkWriter.finish_on_device _).symm.trans (congrArg DeviceWriter.finish same)
  · exact (SinkWriter.run_all_unlimited flushFails {} calls).symm

end AddressMap
