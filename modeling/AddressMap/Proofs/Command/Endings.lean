import AddressMap.Proofs.Command.HostLaws
import AddressMap.Proofs.Command.OutputPaths

/-!
# How jobs end

A job asks the host once for its whole text, unless no system takes its path name. It ends with the
path, with the text printed or with an error. Jobs are performed in order, whatever becomes of those
before. If the host forgets what it refuses, then the others end as they do without the job that
fails.
-/

namespace AddressMap

set_option autoImplicit false

/-- What is asked of the host for a job with this text, and how the job ends. -/
inductive Job.Ends (dir? : Option String) (job : Job) (text : String) :
    List Effect → JobResult → Prop
  | written {dir : String} (into : dir? = some dir) :
      Ends dir? job text [.saveText (job.path dir) text (.ok ())] (.written (job.path dir))
  | unwritten {dir reason : String} (into : dir? = some dir) :
      Ends dir? job text [.saveText (job.path dir) text (.error reason)]
        (.failed (.emit job.root.path reason))
  | misnamed {dir : String} (into : dir? = some dir)
      (zero : PathName.holdsZero (job.path dir) = true) :
      Ends dir? job text []
        (.failed (.emit job.root.path "file name contained an unexpected NUL byte"))
  | printed (nowhere : dir? = none) : Ends dir? job text [.print text (.ok ())] .printed
  | unprinted {reason : String} (nowhere : dir? = none) :
      Ends dir? job text [.print text (.error reason)] (.failed (.emit Path.empty reason))

theorem Job.Ends.accepted_eq {dir? : Option String} {job : Job} {text : String}
    {effects : List Effect} {result : JobResult} (ends : job.Ends dir? text effects result) :
    effects.filterMap Effect.accepted? = if result = .printed then [text] else [] := by
  cases ends <;> rfl

theorem JobResult.error?_eq_some {result : JobResult} {error : VisitError} :
    result.error? = some error ↔ result = .failed error := by
  cases result <;> simp [error?]

structure Ending where
  job : Job
  text : String
  effects : List Effect
  result : JobResult

namespace Ending

def Sound (dir? : Option String) (ending : Ending) : Prop :=
  renderText ending.job.format ending.job.root = .ok ending.text ∧
    ending.job.Ends dir? ending.text ending.effects ending.result

def printedTexts (endings : List Ending) : List String :=
  (endings.filter (·.result = .printed)).map text

variable {dir? : Option String} {endings : List Ending}

theorem accepted_eq (sound : ∀ ending ∈ endings, ending.Sound dir?) :
    (endings.flatMap effects).filterMap Effect.accepted? = printedTexts endings := by
  induction endings with
  | nil => rfl
  | cons ending rest ih =>
      obtain ⟨⟨-, ends⟩, others⟩ := List.forall_mem_cons.1 sound
      rw [List.flatMap_cons, List.filterMap_append, ih others, ends.accepted_eq]
      by_cases printed : ending.result = .printed <;> simp [printedTexts, printed]

theorem length_eq_sum (endings : List Ending) :
    (endings.filterMap (·.result.path?)).length + (printedTexts endings).length +
      (endings.filterMap (·.result.error?)).length = endings.length := by
  induction endings with
  | nil => rfl
  | cons ending rest ih =>
      obtain ⟨job, text, effects, result⟩ := ending
      unfold printedTexts at ih ⊢
      cases result <;>
        simp [JobResult.path?, JobResult.error?] at ih ⊢ <;> omega

end Ending

section

variable {σ : Type}

namespace Host

variable (host : Host (StateM σ))

theorem exists_make_directory (path : String) (start : σ) :
    ∃ answer stop, Records host (host.makeDirectory path) (host.recorded.makeDirectory path)
      start answer stop [.makeDirectory path answer] :=
  ⟨_, _, .of_step (fun answer => [.makeDirectory path answer]) (.makeDirectory path start)⟩

theorem exists_save_text (path text : String) (start : σ) :
    ∃ answer stop, Records host (host.saveText path text) (host.recorded.saveText path text)
      start answer stop [.saveText path text answer] :=
  ⟨_, _, .of_step (fun answer => [.saveText path text answer]) (.saveText path text start)⟩

theorem exists_print (text : String) (start : σ) :
    ∃ answer stop, Records host (host.print text) (host.recorded.print text)
      start answer stop [.print text answer] :=
  ⟨_, _, .of_step (fun answer => [.print text answer]) (.print text start)⟩

theorem exists_warn (text : String) (start : σ) :
    ∃ stop, Records host (host.warn text) (host.recorded.warn text) start () stop [.warn text] :=
  ⟨_, .of_step (fun _ => [.warn text]) (.warn text start)⟩

theorem records_make_each {paths : List String} {start stop : σ}
    (made : (host.makeEach paths).run start = (.ok (), stop)) :
    Records host (host.makeEach paths) (host.recorded.makeEach paths) start (.ok ()) stop
      (paths.map (Effect.makeDirectory · (.ok ()))) := by
  induction paths generalizing start with
  | nil =>
      obtain ⟨-, rfl⟩ := Prod.mk.inj made
      exact .pure (Except.ok ()) start
  | cons path rest ih =>
      obtain ⟨answer, middle, first⟩ := host.exists_make_directory path start
      rw [makeEach, StateT.run_bind, first.plain] at made
      rcases answer with reason | ⟨⟩
      · cases made
      · exact first.bind (ih made)

end Host

namespace Job

variable (host : Host (StateM σ))

theorem exists_ends (dir? : Option String) {job : Job} {text : String}
    (rendered : renderText job.format job.root = .ok text) (start : σ) :
    ∃ effects result stop, job.Ends dir? text effects result ∧
      Records host (job.perform host dir?) (job.perform host.recorded dir?) start result stop
        effects := by
  cases dir? with
  | none =>
      simp only [perform, rendered]
      obtain ⟨answer, stop, records⟩ := host.exists_print text start
      rcases answer with reason | ⟨⟩
      · exact ⟨_, _, stop, .unprinted rfl, records.bind (.pure _ stop)⟩
      · exact ⟨_, _, stop, .printed rfl, records.bind (.pure _ stop)⟩
  | some dir =>
      simp only [perform, rendered, Host.save]
      by_cases zero : PathName.holdsZero (PathName.join dir job.fileName) = true
      · refine ⟨_, _, start, .misnamed rfl zero, ?_⟩
        rw [if_pos zero, if_pos zero]
        exact .pure _ start
      · rw [if_neg zero, if_neg zero]
        obtain ⟨answer, stop, records⟩ :=
          host.exists_save_text (PathName.join dir job.fileName) text start
        rcases answer with reason | ⟨⟩
        · exact ⟨_, _, stop, .unwritten rfl, records.bind (.pure _ stop)⟩
        · exact ⟨_, _, stop, .written rfl, records.bind (.pure _ stop)⟩

/-- All jobs in turn, whatever becomes of those before. -/
theorem exists_endings (dir? : Option String) (jobs : List Job) (start : σ) :
    ∃ (endings : List Ending) (stop : σ),
      endings.map Ending.job = jobs ∧ (∀ ending ∈ endings, ending.Sound dir?) ∧
      Records host (performEach host dir? jobs) (performEach host.recorded dir? jobs) start
        (endings.map Ending.result) stop (endings.flatMap Ending.effects) := by
  induction jobs generalizing start with
  | nil => exact ⟨[], start, rfl, List.forall_mem_nil _, .pure [] start⟩
  | cons job rest ih =>
      obtain ⟨text, rendered⟩ : ∃ text, renderText job.format job.root = .ok text :=
        ⟨_, render_text_eq job.format job.root⟩
      obtain ⟨effects, result, middle, ends, first⟩ := exists_ends host dir? rendered start
      obtain ⟨endings, stop, others, sound, second⟩ := ih middle
      refine ⟨⟨job, text, effects, result⟩ :: endings, stop, congrArg (List.cons job) others,
        List.forall_mem_cons.2 ⟨⟨rendered, ends⟩, sound⟩, ?_⟩
      rw [← List.append_nil (List.flatMap _ _), List.flatMap_cons, List.append_assoc]
      exact first.bind (second.bind (.pure _ stop))

variable {host} {dir? : Option String} {start middle stop : σ} {results others : List JobResult}

theorem perform_each_cons {job : Job} {rest : List Job} {result : JobResult}
    (here : (job.perform host dir?).run start = (result, middle))
    (after : (performEach host dir? rest).run middle = (others, stop)) :
    (performEach host dir? (job :: rest)).run start = (result :: others, stop) := by
  rw [performEach, StateT.run_bind, here]
  show StateT.run (_ >>= _) middle = _
  rw [StateT.run_bind, after]
  rfl

theorem perform_each_append {first rest : List Job}
    (before : (performEach host dir? first).run start = (results, middle))
    (after : (performEach host dir? rest).run middle = (others, stop)) :
    (performEach host dir? (first ++ rest)).run start = (results ++ others, stop) := by
  have split : performEach host dir? (first ++ rest) =
      performEach host dir? first >>= fun results =>
        (results ++ ·) <$> performEach host dir? rest := by
    clear before
    induction first with
    | nil => simp [performEach]
    | cons job first ih => simp [performEach, ih]
  rw [split, StateT.run_bind, before]
  show StateT.run (_ <$> _) middle = _
  rw [StateT.run_map, after]
  rfl

theorem length_perform_each {jobs : List Job}
    (performed : (performEach host dir? jobs).run start = (results, stop)) :
    results.length = jobs.length := by
  obtain ⟨endings, _, same, -, records⟩ := exists_endings host dir? jobs start
  obtain ⟨rfl, -⟩ := Prod.mk.inj (records.plain.symm.trans performed)
  rw [List.length_map, ← same, List.length_map]

/-- If the host forgets what it refuses, then the other jobs end as they do without the job that
fails. -/
theorem perform_each_without {alike : σ → σ → Prop} (forgets : host.ForgetsRefusals alike)
    {before after : List Job} {job : Job} {error : VisitError}
    (count : results.length = before.length)
    (performed : (performEach host dir? (before ++ job :: after)).run start =
      (results ++ .failed error :: others, stop)) :
    ∃ other, (performEach host dir? (before ++ after)).run start = (results ++ others, other) ∧
      alike other stop := by
  rcases first : (performEach host dir? before).run start with ⟨firstResults, middle⟩
  rcases here : (job.perform host dir?).run middle with ⟨result, left⟩
  rcases last : (performEach host dir? after).run left with ⟨lastResults, final⟩
  have whole := perform_each_append first (perform_each_cons here last)
  obtain ⟨same, rfl⟩ := Prod.mk.inj (whole.symm.trans performed)
  obtain ⟨rfl, tail⟩ := List.append_inj same ((length_perform_each first).trans count.symm)
  obtain ⟨rfl, rfl⟩ := List.cons.inj tail
  -- With and without the failed job, those behind it start from states that are alike.
  obtain ⟨answer, other, otherFinal, alone, rest, still⟩ :=
    perform_each_alike forgets dir? after _ _ (alike_of_failed forgets here)
  obtain ⟨rfl, rfl⟩ := Prod.mk.inj (rest.symm.trans last)
  exact ⟨other, perform_each_append first alone, still⟩

end Job

end

end AddressMap
