import AddressMap.Output.Render
import AddressMap.Proofs.Output.Listing

/-!
# What a sink takes

An output is written to a sink piece by piece. The sink takes the pieces up to the first one that
would pass its limit, and is given nothing behind that one. It takes all of them exactly if it has
room for the whole text, so an output is rendered whole or ends with the first refusal, and what the
sink holds is the beginning of the text in either case.
-/

namespace AddressMap

set_option autoImplicit false

theorem foldl_replicate_eq_repeat {ω : Type} (push : ω → String → ω) (writer : ω) (piece : String)
    (count : Nat) :
    (List.replicate count piece).foldl push writer = Nat.repeat (push · piece) count writer := by
  induction count with
  | zero => rfl
  | succ count ih =>
      rw [List.replicate_succ', List.foldl_append, ih]
      rfl

namespace Sink

variable {sink : Sink}

theorem append_empty (sink : Sink) : sink.append "" = sink := by
  rw [append, String.append_empty]

theorem append_append (sink : Sink) (first second : String) :
    (sink.append first).append second = sink.append (first ++ second) := by
  simp only [append, String.append_assoc]

theorem has_room_append (sink : Sink) (text : String) (bytes : Nat) :
    (sink.append text).hasRoom bytes = sink.hasRoom (text.utf8ByteSize + bytes) := by
  unfold hasRoom append
  cases sink.limit? with
  | none => rfl
  | some limit => rw [String.utf8ByteSize_append, Nat.add_assoc]

theorem has_room_of_le {fewer bytes : Nat} (le : fewer ≤ bytes) (room : sink.hasRoom bytes = true) :
    sink.hasRoom fewer = true := by
  unfold hasRoom at room ⊢
  cases limited : sink.limit? with
  | none => rfl
  | some limit =>
      simp only [limited, decide_eq_true_eq] at room ⊢
      omega

end Sink

namespace SinkWriter

variable {sink : Sink} {pieces : List String}

theorem push_of_room {text : String} (room : sink.hasRoom text.utf8ByteSize = true) :
    (SinkWriter.mk sink none).push text = ⟨sink.append text, none⟩ :=
  if_pos room

theorem push_of_no_room {text : String} (full : sink.hasRoom text.utf8ByteSize = false) :
    (SinkWriter.mk sink none).push text = ⟨sink, some .full⟩ := by
  rw [push, full]
  rfl

theorem push_each_of_refused (error : SinkError) :
    pieces.foldl push ⟨sink, some error⟩ = ⟨sink, some error⟩ := by
  induction pieces with
  | nil => rfl
  | cons piece rest ih => exact ih

theorem push_each_of_room (room : sink.hasRoom (String.join pieces).utf8ByteSize = true) :
    pieces.foldl push ⟨sink, none⟩ = ⟨sink.append (String.join pieces), none⟩ := by
  induction pieces generalizing sink with
  | nil => exact congrArg (SinkWriter.mk · none) sink.append_empty.symm
  | cons piece rest ih =>
      rw [String.join_cons, String.utf8ByteSize_append] at room
      have first : sink.hasRoom piece.utf8ByteSize = true :=
        Sink.has_room_of_le (Nat.le_add_right _ _) room
      rw [← Sink.has_room_append] at room
      rw [List.foldl_cons, push_of_room first, ih room, Sink.append_append, String.join_cons]

/-- A sink without room for all pieces takes those before the first for which it has no room. -/
theorem push_each_of_no_room (within : sink.hasRoom 0 = true)
    (full : sink.hasRoom (String.join pieces).utf8ByteSize = false) :
    ∃ taken rest, pieces = taken ++ rest ∧
      pieces.foldl push ⟨sink, none⟩ = ⟨sink.append (String.join taken), some .full⟩ := by
  induction pieces generalizing sink with
  | nil =>
      rw [String.join_nil, String.utf8ByteSize_empty, within] at full
      contradiction
  | cons piece rest ih =>
      cases room : sink.hasRoom piece.utf8ByteSize with
      | false =>
          refine ⟨[], piece :: rest, rfl, ?_⟩
          rw [List.foldl_cons, push_of_no_room room, push_each_of_refused, String.join_nil,
            Sink.append_empty]
      | true =>
          rw [String.join_cons, String.utf8ByteSize_append, ← Sink.has_room_append] at full
          have still : (sink.append piece).hasRoom 0 = true := by
            rw [Sink.has_room_append]
            exact room
          obtain ⟨taken, refused, rfl, left⟩ := ih still full
          refine ⟨piece :: taken, refused, rfl, ?_⟩
          rw [List.foldl_cons, push_of_room room, left, Sink.append_append, String.join_cons]

end SinkWriter

namespace OutlineLine

def pieces (line : OutlineLine) : List String :=
  List.replicate line.level "    " ++ [line.text, "\n"]

theorem write_pieces (writer : SinkWriter) (line : OutlineLine) :
    Writer.line writer line.level line.text = line.pieces.foldl SinkWriter.push writer := by
  rw [pieces, List.foldl_append, foldl_replicate_eq_repeat]
  rfl

end OutlineLine

namespace OutputFormat

def pieces (format : OutputFormat) (root : Element) : List String :=
  match format with
  | tree => (root.linesFrom 0).flatMap OutlineLine.pieces
  | explicit => Frozen.pieces root

theorem write_pieces (format : OutputFormat) (root : Element) (writer : SinkWriter) :
    format.write writer root = .ok ((format.pieces root).foldl SinkWriter.push writer) := by
  cases format with
  | explicit => rfl
  | tree =>
      show Outline.write writer root = _
      rw [Outline.write_eq, pieces, List.foldl_flatMap, Writer.lines]
      simp only [OutlineLine.write_pieces]

def text (format : OutputFormat) (root : Element) : String :=
  String.join (format.pieces root)

end OutputFormat

theorem render_text_eq (format : OutputFormat) (root : Element) :
    renderText format root = .ok (format.text root) := by
  have written : format.write (SinkWriter.mk {} none) root =
      .ok ⟨Sink.append {} (format.text root), none⟩ := by
    rw [format.write_pieces, SinkWriter.push_each_of_room rfl]
    rfl
  have whole : render format root {} = .ok (Sink.append {} (format.text root)) := by
    rw [render, written]
    rfl
  rw [renderText, whole]
  show Except.ok ("" ++ format.text root) = _
  rw [String.empty_append]

/-- Rendering ends as the writer does that all pieces are pushed to. -/
theorem render_eq_finish (format : OutputFormat) (root : Element) (sink : Sink) :
    render format root sink =
      (((format.pieces root).foldl SinkWriter.push ⟨sink, none⟩).finish.mapError fun error =>
        .emit root.path error.message) := by
  rw [render, format.write_pieces]
  rfl

/-- A root is rendered whole into a sink that has room for its text and can be flushed. Any other
sink holds a beginning of the text in the end, and the answer is the first refusal. -/
theorem rendered_whole_or_refused (format : OutputFormat) (root : Element) (limit : Nat)
    (flushFails : Bool) :
    ∃ text left,
      renderText format root = .ok text ∧
      format.write (SinkWriter.mk { limit? := some limit, flushFails } none) root = .ok left ∧
      left.sink.content.toList <+: text.toList ∧
      render format root { limit? := some limit, flushFails } =
        if text.utf8ByteSize ≤ limit ∧ flushFails = false then
          .ok { content := text, limit? := some limit, flushFails }
        else
          .error (.emit root.path
            (if text.utf8ByteSize ≤ limit then SinkError.flush else SinkError.full).message) := by
  refine ⟨format.text root, _, render_text_eq format root, format.write_pieces root _, ?_⟩
  rw [render_eq_finish]
  have room (bytes : Nat) :
      Sink.hasRoom { limit? := some limit, flushFails } bytes = decide (bytes ≤ limit) := by
    rw [Sink.hasRoom, String.utf8ByteSize_empty, Nat.zero_add]
  by_cases fits : (format.text root).utf8ByteSize ≤ limit
  · have whole := SinkWriter.push_each_of_room ((room _).trans (decide_eq_true fits))
    rw [whole]
    show ("" ++ format.text root).toList <+: _ ∧ (Sink.flush _).mapError _ = _
    rw [String.empty_append]
    refine ⟨List.prefix_rfl, ?_⟩
    cases flushFails with
    | true =>
        rw [if_neg (by simp), if_pos fits]
        rfl
    | false =>
        rw [if_pos ⟨fits, rfl⟩, Sink.append, String.empty_append]
        rfl
  · obtain ⟨taken, rest, cut, left⟩ := SinkWriter.push_each_of_no_room
      ((room 0).trans (decide_eq_true (Nat.zero_le limit))) ((room _).trans (decide_eq_false fits))
    rw [left, if_neg fun whole => fits whole.1, if_neg fits]
    refine ⟨?_, rfl⟩
    rw [OutputFormat.text, cut, String.join_append, Sink.append, String.empty_append,
      String.toList_append]
    exact List.prefix_append _ _

end AddressMap
