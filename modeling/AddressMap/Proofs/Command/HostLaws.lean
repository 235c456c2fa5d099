import AddressMap.Command.World
import AddressMap.Proofs.Command.Recording
import AddressMap.Proofs.Output.Sinks

/-!
# Laws of hosts

A host that shows what it prints has at the end shown all texts that it accepted, in order. A host
that forgets what it refuses answers jobs alike, whether or not it has refused one before. Worlds
are such hosts.
-/

namespace AddressMap

set_option autoImplicit false

def Effect.accepted? : Effect → Option String
  | print text (.ok ()) => some text
  | _ => none

section

variable {σ α β : Type}

namespace Host

variable {host : Host (StateM σ)}

/-- What is shown grows by the texts of accepted prints and by nothing else. -/
def Shows (host : Host (StateM σ)) (shown : σ → String) : Prop :=
  ∀ start effects stop, host.Step start effects stop →
    shown stop = shown start ++ String.join (effects.filterMap Effect.accepted?)

theorem Steps.shown_eq {shown : σ → String} (shows : host.Shows shown) {start stop : σ}
    {effects : List Effect} (steps : host.Steps start effects stop) :
    shown stop = shown start ++ String.join (effects.filterMap Effect.accepted?) := by
  induction steps with
  | done state =>
      rw [List.filterMap_nil, String.join_nil, String.append_empty]
  | step step _ ih =>
      rw [ih, shows _ _ _ step, List.filterMap_append, String.join_append, String.append_assoc]

end Host

/-- States that are alike get the same answer and lead to states that are alike. -/
def AnswersAlike (alike : σ → σ → Prop) (program : StateM σ α) : Prop :=
  ∀ here there, alike here there → ∃ answer after otherAfter,
    program.run here = (answer, after) ∧ program.run there = (answer, otherAfter) ∧
      alike after otherAfter

namespace AnswersAlike

variable {alike : σ → σ → Prop}

theorem pure (answer : α) : AnswersAlike alike (Pure.pure answer) :=
  fun here there same => ⟨answer, here, there, rfl, rfl, same⟩

theorem bind {program : StateM σ α} {further : α → StateM σ β}
    (before : AnswersAlike alike program) (after : ∀ answer, AnswersAlike alike (further answer)) :
    AnswersAlike alike (program >>= further) := by
  intro here there same
  obtain ⟨answer, middle, otherMiddle, first, other, still⟩ := before here there same
  obtain ⟨result, stop, otherStop, second, otherSecond, last⟩ :=
    after answer middle otherMiddle still
  refine ⟨result, stop, otherStop, ?_, ?_, last⟩
  · rw [StateT.run_bind, first]
    exact second
  · rw [StateT.run_bind, other]
    exact otherSecond

end AnswersAlike

/-- A refusal leads to a state that is alike. Some of a refused text may be left behind, if that
does not matter to what comes after. -/
structure Host.ForgetsRefusals (host : Host (StateM σ)) (alike : σ → σ → Prop) : Prop where
  refl : ∀ state, alike state state
  saves : ∀ path text, AnswersAlike alike (host.saveText path text)
  prints : ∀ text, AnswersAlike alike (host.print text)
  after_save : ∀ path text reason here there,
    (host.saveText path text).run here = (.error reason, there) → alike here there
  after_print : ∀ text reason here there,
    (host.print text).run here = (.error reason, there) → alike here there

namespace Host.ForgetsRefusals

variable {host : Host (StateM σ)} {alike : σ → σ → Prop}

theorem saves_checked (forgets : host.ForgetsRefusals alike) (path text : String) :
    AnswersAlike alike (host.save path text) := by
  unfold Host.save
  split
  · exact .pure _
  · exact forgets.saves path text

theorem after_checked_save (forgets : host.ForgetsRefusals alike) {path text reason : String}
    {here there : σ} (refused : (host.save path text).run here = (.error reason, there)) :
    alike here there := by
  unfold Host.save at refused
  split at refused
  · cases refused
    exact forgets.refl here
  · exact forgets.after_save path text reason here there refused

end Host.ForgetsRefusals

namespace Job

variable {host : Host (StateM σ)} {alike : σ → σ → Prop}

theorem perform_alike (forgets : host.ForgetsRefusals alike) (dir? : Option String) (job : Job) :
    AnswersAlike alike (job.perform host dir?) := by
  cases dir? with
  | none =>
      simp only [perform, render_text_eq]
      apply (forgets.prints _).bind
      rintro (reason | ⟨⟩) <;> exact .pure _
  | some dir =>
      simp only [perform, render_text_eq]
      apply (forgets.saves_checked _ _).bind
      rintro (reason | ⟨⟩) <;> exact .pure _

theorem perform_each_alike (forgets : host.ForgetsRefusals alike) (dir? : Option String)
    (jobs : List Job) : AnswersAlike alike (performEach host dir? jobs) := by
  induction jobs with
  | nil => exact .pure []
  | cons job rest ih =>
      apply (perform_alike forgets dir? job).bind
      intro result
      exact ih.bind fun results => .pure (result :: results)

/-- A job that fails leaves the host as if it had not been there. -/
theorem alike_of_failed (forgets : host.ForgetsRefusals alike) {dir? : Option String} {job : Job}
    {error : VisitError} {here there : σ}
    (failed : (job.perform host dir?).run here = (.failed error, there)) : alike here there := by
  cases dir? with
  | none =>
      simp only [perform, render_text_eq] at failed
      cases printed : (host.print (job.format.text job.root)).run here with
      | mk answer stop =>
          rw [StateT.run_bind, printed] at failed
          rcases answer with reason | ⟨⟩ <;> cases failed
          exact forgets.after_print _ _ _ _ printed
  | some dir =>
      simp only [perform, render_text_eq] at failed
      cases saved : (host.save (PathName.join dir job.fileName) (job.format.text job.root)).run
          here with
      | mk answer stop =>
          rw [StateT.run_bind, saved] at failed
          rcases answer with reason | ⟨⟩ <;> cases failed
          exact forgets.after_checked_save saved

end Job

end

namespace World

theorem update_printed (tree? : Option FileTree) (world : World) :
    ((update tree?).run world).2.printed = world.printed := by
  cases tree? <;> rfl

theorem update_of_refused {tree? : Option FileTree} {reason : String} {world after : World}
    (refused : (update tree?).run world = (.error reason, after)) : world = after := by
  cases tree? with
  | none => exact (Prod.mk.inj refused).2
  | some tree => cases refused

theorem run_print (text : String) (world : World) :
    (print text).run world =
      match world.printed.take text with
      | .ok printed => (.ok (), { world with printed })
      | .error error => (.error error.message, world) := by
  show StateT.run (match world.printed.take text with | .ok _ => _ | .error _ => _) world = _
  cases world.printed.take text <;> rfl

/-- A world shows what it has printed. -/
theorem shows_printed : host.Shows (·.printed.content) := by
  intro start effects stop step
  have unchanged : start.printed.content = start.printed.content ++ String.join [] :=
    String.append_empty.symm
  cases step with
  | isDirectory path | isFile path | listEntries path | readText path | warn text =>
      exact unchanged
  | makeDirectory path =>
      have printed := update_printed (start.tree.makeDirectory? start.workingDirectory path) start
      exact (congrArg Sink.content printed).trans unchanged
  | saveText path text =>
      have printed :=
        update_printed (start.tree.save? start.workingDirectory path (.text text)) start
      exact (congrArg Sink.content printed).trans unchanged
  | print text =>
      show ((print text).run start).2.printed.content = _ ++
        String.join ([.print text ((print text).run start).1].filterMap Effect.accepted?)
      rw [run_print, Sink.take]
      cases start.printed.hasRoom text.utf8ByteSize with
      | true =>
          show start.printed.content ++ text = _ ++ String.join [text]
          rw [String.join_cons, String.join_nil, String.append_empty]
      | false => exact unchanged

theorem answers_alike {α : Type} (program : StateM World α) : AnswersAlike (· = ·) program :=
  fun _ _ same => ⟨_, _, _, rfl, same ▸ rfl, rfl⟩

/-- What a world refuses leaves no trace in it. -/
theorem forgets_refusals : host.ForgetsRefusals (· = ·) where
  refl _ := rfl
  saves _ _ := answers_alike _
  prints _ := answers_alike _
  after_save _ _ _ _ _ refused := update_of_refused refused
  after_print text reason here there refused := by
    have answer := (run_print text here).symm.trans refused
    split at answer
    · cases answer
    · exact (Prod.mk.inj answer).2

end World

end AddressMap
