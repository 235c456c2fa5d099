import AddressMap.Output.Outline
import AddressMap.Proofs.Element.Visiting

/-!
# Outlines as lists of lines

The lines of an outline are those of its root, with its description and then its children one level
deeper. Writing an outline writes these lines one after the other, whatever it is written to, and
never ends with an error.
-/

namespace AddressMap

set_option autoImplicit false

structure OutlineLine where
  level : Nat
  text : String
deriving DecidableEq, Repr

namespace Element

def linesFrom : Element → Nat → List OutlineLine :=
  fold fun element below level =>
    ⟨level, element.outlineLine⟩ ::
      ((element.descriptionLines (level + 1)).map (OutlineLine.mk (level + 1)) ++
        below.flatMap fun lines => lines (level + 1))

theorem lines_from_eq (element : Element) (level : Nat) :
    element.linesFrom level =
      ⟨level, element.outlineLine⟩ ::
        ((element.descriptionLines (level + 1)).map (OutlineLine.mk (level + 1)) ++
          element.children.flatMap fun child => child.linesFrom (level + 1)) := by
  unfold linesFrom
  rw [fold_eq, List.flatMap_map]

end Element

namespace Writer

variable {ω : Type} [Writer ω]

def lines (writer : ω) (listed : List OutlineLine) : ω :=
  listed.foldl (fun writer next => Writer.line writer next.level next.text) writer

theorem lines_append (writer : ω) (first second : List OutlineLine) :
    lines writer (first ++ second) = lines (lines writer first) second :=
  List.foldl_append

end Writer

namespace Outline

variable {ω : Type} [Writer ω] (writer : ω) (level : Nat)

theorem run_put (text : String) :
    (put text).run (State.mk writer level) = (.ok (), ⟨Writer.line writer level text, level⟩) :=
  rfl

theorem run_put_all (texts : List String) :
    (putAll texts).run (State.mk writer level) =
      (.ok (), ⟨Writer.lines writer (texts.map (OutlineLine.mk level)), level⟩) := by
  induction texts generalizing writer with
  | nil => rfl
  | cons text rest ih =>
      rw [putAll, Visit.run_bind_of_ok _ (run_put writer level text)]
      exact ih (Writer.line writer level text)

theorem run_visit_each {α : Type} {visits : List α} {visit : α → Visit (State ω) Unit}
    {listed : α → List OutlineLine}
    (each : ∀ item ∈ visits, ∀ writer : ω, (visit item).run ⟨writer, level⟩ =
      (.ok (), ⟨Writer.lines writer (listed item), level⟩)) :
    ∃ answers, (visitEach (visits.map visit)).run (State.mk writer level) =
      (.ok answers, ⟨Writer.lines writer (visits.flatMap listed), level⟩) := by
  induction visits generalizing writer with
  | nil => exact ⟨[], rfl⟩
  | cons item rest ih =>
      have here := each item List.mem_cons_self writer
      obtain ⟨answers, behind⟩ := ih (Writer.lines writer (listed item)) fun other member =>
        each other (List.mem_cons_of_mem item member)
      refine ⟨() :: answers, ?_⟩
      rw [List.map_cons, visitEach, Visit.run_bind_of_ok _ here, Visit.run_bind_of_ok _ behind,
        List.flatMap_cons, Writer.lines_append]
      rfl

/-- A visit writes the lines of the element and comes back to the level at which it began. -/
theorem run_visit (element : Element) :
    (visitor.visit element).run (State.mk writer level) =
      (.ok (), ⟨Writer.lines writer (element.linesFrom level), level⟩) := by
  induction element using Element.induction_on_children generalizing writer level with
  | step element ih =>
      obtain ⟨answers, children⟩ := run_visit_each
        (Writer.lines (Writer.line writer level element.outlineLine)
          ((element.descriptionLines (level + 1)).map (OutlineLine.mk (level + 1))))
        (level + 1) fun child member writer => ih child member writer (level + 1)
      have deeper : (deeper : Visit (State ω) Unit).run
          ⟨Writer.line writer level element.outlineLine, level⟩ = (.ok (), ⟨_, level + 1⟩) := rfl
      have asked : (get : Visit (State ω) (State ω)).run
          ⟨Writer.line writer level element.outlineLine, level + 1⟩ = (.ok ⟨_, level + 1⟩, _) := rfl
      rw [Visitor.visit_eq]
      show (handle element _).run _ = _
      rw [handle, Visit.run_bind_of_ok _ (run_put writer level element.outlineLine),
        Visit.run_bind_of_ok _ deeper, Visit.run_bind_of_ok _ asked,
        Visit.run_bind_of_ok _ (run_put_all _ (level + 1) _), Visit.run_bind_of_ok _ children,
        Element.lines_from_eq, ← Writer.lines_append]
      rfl

theorem write_eq (root : Element) :
    Outline.write writer root = .ok (Writer.lines writer (root.linesFrom 0)) := by
  have started : (traversal.start root : Visit (State ω) Unit).run ⟨writer, 0⟩ =
      (.ok (), ⟨writer, 0⟩) := rfl
  have visited : (traversal.visitor.visit root).run ⟨writer, 0⟩ =
      (.ok (), ⟨Writer.lines writer (root.linesFrom 0), 0⟩) := run_visit writer 0 root
  rw [Outline.write, Traversal.run, Visit.run_bind_of_ok _ started, Visit.run_bind_of_ok _ visited]
  rfl

end Outline

end AddressMap
