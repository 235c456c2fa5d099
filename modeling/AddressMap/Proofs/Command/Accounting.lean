import AddressMap.Command.Program
import AddressMap.Proofs.Command.Endings
import AddressMap.Proofs.Elaboration.Making

/-!
# What becomes of all jobs

A run that cannot load or build its sources asks the host for nothing but reading, and the user is
told why. Any other run performs one job for each root and format, in order, and accounts for each
of them in its report or in what it prints, whatever the host refuses.
-/

namespace AddressMap

set_option autoImplicit false

def RunError.told : RunError → String
  | build diagnostic => diagnostic.text ++ "\n"
  | error => "error: " ++ error.message ++ "\n"

section

variable {σ : Type}

namespace Options

variable {host : Host (StateM σ)} {options : Options} {start loaded made : σ}
  {answer : Except RunError (List Source)}

/-- What is asked of a host that makes the directory for the outputs. -/
def makings (options : Options) : List Effect :=
  match options.outputDir? with
  | none => []
  | some dir => (PathName.directories dir).map (Effect.makeDirectory · (.ok ()))

theorem run_make_output_dir {m : Type → Type} [Monad m] [LawfulMonad m] (host : Host m)
    (options : Options) :
    (options.makeOutputDir host).run =
      match options.outputDir? with
      | none => pure (.ok ())
      | some dir => Except.mapError (.outputDir dir) <$> host.makeDirectories dir := by
  unfold makeOutputDir
  cases options.outputDir? with
  | none => rfl
  | some dir =>
      have lifted : (liftM (host.makeDirectories dir) : ExceptT RunError m _).run =
        Except.ok <$> host.makeDirectories dir := rfl
      rw [ExceptT.run_bind, lifted, bind_map_left]
      show _ = Except.mapError _ <$> _
      rw [← bind_pure_comp]
      apply bind_congr
      rintro (reason | ⟨⟩) <;> rfl

theorem records_make_output_dir
    (dir : (options.makeOutputDir host).run.run loaded = (.ok (), made)) :
    Records host (options.makeOutputDir host).run (options.makeOutputDir host.recorded).run loaded
      (.ok ()) made options.makings := by
  rw [run_make_output_dir] at dir ⊢
  rw [run_make_output_dir, makings]
  cases into : options.outputDir? with
  | none =>
      simp only [into] at dir ⊢
      obtain ⟨-, rfl⟩ := Prod.mk.inj dir
      exact .pure (Except.ok ()) loaded
  | some path =>
      simp only [into] at dir ⊢
      cases run : (host.makeDirectories path).run loaded with
      | mk answer stop =>
          rw [StateT.run_map, run] at dir
          rcases answer with reason | ⟨⟩ <;> cases dir
          exact (host.records_make_each run).map _

theorem records_run_of_error {error : RunError}
    (load : (Source.loadAll host options.source).run.run start = (answer, loaded))
    (fails : answer.bind (Source.build options.defaults) = .error error) :
    Records host (options.run host).run (options.run host.recorded).run start (.error error) loaded
      [] := by
  have reads := (Source.reads_load_all host options.source).records load
  cases answer with
  | error refusal =>
      obtain rfl := Except.error.inj fails
      exact reads.bind_error
  | ok sources =>
      have build : Source.build options.defaults sources = .error error := fails
      apply reads.bind_ok
      rw [build]
      exact Records.bind_error (.pure (Except.error error) loaded)

theorem exists_run {sources : List Source} {design : Design}
    (load : (Source.loadAll host options.source).run.run start = (.ok sources, loaded))
    (built : Source.build options.defaults sources = .ok design)
    (dir : (options.makeOutputDir host).run.run loaded = (.ok (), made)) :
    ∃ (endings : List Ending) (stop : σ),
      endings.map Ending.job = Job.all design options.formats ∧
      (∀ ending ∈ endings, ending.Sound options.outputDir?) ∧
      (Job.performEach host options.outputDir? (Job.all design options.formats)).run made =
        (endings.map Ending.result, stop) ∧
      Records host (options.run host).run (options.run host.recorded).run start
        (.ok (Report.ofResults (endings.map Ending.result))) stop
        (options.makings ++ endings.flatMap Ending.effects) := by
  have reads := (Source.reads_load_all host options.source).records load
  have makes := records_make_output_dir dir
  obtain ⟨endings, stop, jobs, sound, performs⟩ :=
    Job.exists_endings host options.outputDir? (Job.all design options.formats) made
  refine ⟨endings, stop, jobs, sound, performs.plain, ?_⟩
  -- Neither loading nor building adds to the record.
  show Records _ _ _ _ _ _ ([] ++ (options.makings ++ _))
  apply reads.bind_ok
  rw [built]
  show Records _ _ _ _ _ _ ([] ++ (options.makings ++ _))
  apply (Records.pure (Except.ok design) loaded).bind_ok
  apply makes.bind_ok
  rw [← List.append_nil (List.flatMap _ _)]
  exact (performs.map Except.ok).bind_ok (.pure (Except.ok _) stop)

end Options

section Command

variable {host : Host (StateM σ)} {options : Options} {start stop : σ} {effects : List Effect}

theorem exists_warn_each (host : Host (StateM σ)) (diagnostics : List Diagnostic) (start : σ) :
    ∃ stop, Records host (warnEach host diagnostics) (warnEach host.recorded diagnostics) start ()
      stop (diagnostics.map fun diagnostic => .warn (diagnostic.text ++ "\n")) := by
  induction diagnostics generalizing start with
  | nil => exact ⟨start, .pure () start⟩
  | cons diagnostic rest ih =>
      obtain ⟨middle, first⟩ := host.exists_warn (diagnostic.text ++ "\n") start
      obtain ⟨stop, others⟩ := ih middle
      exact ⟨stop, first.bind others⟩

theorem exists_exit {report : Report}
    (run : Records host (options.run host).run (options.run host.recorded).run start (.ok report)
      stop effects) :
    ∃ status final,
      Records host (runCommand host options) (runCommand host.recorded options) start status final
        (effects ++ report.failures.map fun failure => .warn (failure.text ++ "\n")) ∧
      (status.code = 0 ↔ report.failures = []) := by
  obtain ⟨final, warned⟩ := exists_warn_each host report.failures stop
  refine ⟨if report.succeeded then .success else .failure, final, ?_, ?_⟩
  · rw [← List.append_nil (List.map _ _)]
    exact run.bind (warned.bind (.pure _ final))
  · unfold Report.succeeded
    cases report.failures with
    | nil => exact iff_of_true rfl rfl
    | cons failure rest =>
        have fails : ExitStatus.failure.code ≠ 0 := by decide
        exact iff_of_false fails (List.cons_ne_nil failure rest)

theorem exists_exit_of_error {error : RunError}
    (run : Records host (options.run host).run (options.run host.recorded).run start
      (.error error) stop effects) :
    ∃ final, Records host (runCommand host options) (runCommand host.recorded options) start
      .failure final (effects ++ [.warn error.told]) := by
  obtain ⟨final, warned⟩ := host.exists_warn error.told stop
  refine ⟨final, run.bind ?_⟩
  cases error <;> exact warned.bind (.pure _ final)

end Command

namespace Options

/-- What is told of a run, and what the host has been asked, when all jobs have ended. -/
structure Accounts (host : Host (StateM σ)) (options : Options) (sources : List Source)
    (design : Design) (start made final : σ) (endings : List Ending) (report : Report) : Prop where
  /-- Components come first and then memory maps, each in the order of the sources. -/
  roots : List.Forall₂ (fun decl root => root.kind = decl.kind ∧ decl.elementName? = some root.name)
    ((sources.map Source.decl).filter (·.kind = .component) ++
      (sources.map Source.decl).filter (·.kind = .memoryMap)) design.roots
  jobs : endings.map Ending.job =
    design.roots.flatMap fun root => options.formats.map (Job.mk root)
  sound : ∀ ending ∈ endings, ending.Sound options.outputDir?
  written : report.written = endings.filterMap (·.result.path?)
  failures : report.failures =
    (endings.filterMap (·.result.error?)).map Diagnostic.ofVisitError
  counts : report.written.length + (Ending.printedTexts endings).length + report.failures.length =
    endings.length
  run : ∃ stop, Records host (options.run host).run (options.run host.recorded).run start
    (.ok report) stop (options.makings ++ endings.flatMap Ending.effects)
  exits : ∃ status, (status.code = 0 ↔ report.failures = []) ∧
    Records host (runCommand host options) (runCommand host.recorded options) start status final
      (options.makings ++ endings.flatMap Ending.effects ++
        report.failures.map fun failure => .warn (failure.text ++ "\n"))
  accepted : (endings.flatMap Ending.effects).filterMap Effect.accepted? =
    Ending.printedTexts endings
  shown : ∀ shown, host.Shows shown →
    shown final = shown start ++ String.join (Ending.printedTexts endings)
  /-- Without a job that fails the others end as they do with it. -/
  alone : ∀ alike, host.ForgetsRefusals alike → ∀ before lost after error,
    endings = before ++ lost :: after → lost.result = .failed error →
    ∃ other stop,
      (Job.performEach host options.outputDir? ((before ++ after).map Ending.job)).run made =
        ((before ++ after).map Ending.result, other) ∧
      (Job.performEach host options.outputDir? (endings.map Ending.job)).run made =
        (endings.map Ending.result, stop) ∧ alike other stop

variable {host : Host (StateM σ)} {options : Options}

theorem accepted_makings (options : Options) : options.makings.filterMap Effect.accepted? = [] := by
  unfold makings
  cases options.outputDir? with
  | none => rfl
  | some dir => simp [Effect.accepted?, List.filterMap_eq_nil_iff]

theorem exists_accounts {sources : List Source} {design : Design} {start loaded made : σ}
    (load : (Source.loadAll host options.source).run.run start = (.ok sources, loaded))
    (built : Source.build options.defaults sources = .ok design)
    (dir : (options.makeOutputDir host).run.run loaded = (.ok (), made)) :
    ∃ endings report final,
      Accounts host options sources design start made final endings report := by
  obtain ⟨endings, stop, jobs, sound, performed, run⟩ := exists_run load built dir
  obtain ⟨status, final, exits, zero⟩ := exists_exit run
  have accepted := Ending.accepted_eq sound
  refine ⟨endings, .ofResults (endings.map Ending.result), final, ?_⟩
  have written : (Report.ofResults (endings.map Ending.result)).written =
      endings.filterMap (·.result.path?) := List.filterMap_map
  have failures : (Report.ofResults (endings.map Ending.result)).failures =
      (endings.filterMap (·.result.error?)).map Diagnostic.ofVisitError :=
    congrArg (List.map _) List.filterMap_map
  constructor
  case roots =>
    have made := Design.become_in_order_of_built (map_error_eq_ok.1 built)
    exact made.imp fun _ _ becomes => ⟨becomes.here.kind, becomes.here.named⟩
  case jobs => exact jobs
  case sound => exact sound
  case written => exact written
  case failures => exact failures
  case counts =>
    rw [written, failures, List.length_map]
    exact Ending.length_eq_sum endings
  case run => exact ⟨stop, run⟩
  case exits => exact ⟨status, zero, exits⟩
  case accepted => exact accepted
  case shown =>
    intro shown shows
    -- Neither the directories nor the diagnostics are output.
    have warnings : ((Report.ofResults (endings.map Ending.result)).failures.map fun failure =>
        Effect.warn (failure.text ++ "\n")).filterMap Effect.accepted? = [] := by
      simp [Effect.accepted?]
    rw [exits.steps.shown_eq shows, List.filterMap_append, List.filterMap_append, warnings,
      accepted_makings, accepted, List.nil_append, List.append_nil]
  case alone =>
    intro alike forgets before lost after error split failed
    have whole := performed
    rw [← jobs] at whole
    rw [← jobs, split, List.map_append, List.map_cons, List.map_append, List.map_cons,
      failed] at performed
    obtain ⟨other, others, still⟩ :=
      Job.perform_each_without forgets (by simp) performed
    refine ⟨other, stop, ?_, whole, still⟩
    rw [List.map_append, List.map_append]
    exact others

/-- A run that cannot load or build its sources does nothing but read and tell the user why. Any
other run, if the directory for its outputs can be made, accounts for every job, whatever the host
refuses. -/
theorem every_job_accounted_for (host : Host (StateM σ)) (options : Options) (start : σ) :
    ∃ answer loaded,
      (Source.loadAll host options.source).run.run start = (answer, loaded) ∧
      (∀ error, answer.bind (Source.build options.defaults) = .error error →
        Records host (options.run host).run (options.run host.recorded).run start (.error error)
          loaded [] ∧
        (∃ final, Records host (runCommand host options) (runCommand host.recorded options) start
          .failure final [.warn error.told]) ∧
        ∀ (ω : Type) (view : σ → ω),
          (∀ here there, host.Step here [] there → view there = view here) →
          view loaded = view start) ∧
      ∀ sources design made, answer = .ok sources →
        Source.build options.defaults sources = .ok design →
        (options.makeOutputDir host).run.run loaded = (.ok (), made) →
        ∃ endings report final,
          Accounts host options sources design start made final endings report := by
  obtain ⟨answer, loaded, reads⟩ := Source.reads_load_all host options.source start
  refine ⟨answer, loaded, reads.plain, ?_, ?_⟩
  · intro error fails
    have run := records_run_of_error reads.plain fails
    exact ⟨run, exists_exit_of_error run, fun _ view reading => reads.steps.unchanged reading⟩
  · rintro sources design made rfl built dir
    exact exists_accounts reads.plain built dir

/-- A world that has room for an outline but not for a frozen text. -/
def sampleWorld : World :=
  { tree := { nodes := [(["timer.json"], .text
      "\x7b\"kind\":\"component\",\"attrs\":\x7b\"name\":\"timer\",\"width\":\"32\"\x7d\x7d")] }
    printed := { limit? := some 40 } }

def sampleOptions : Options :=
  { source := "timer.json", formats := [.explicit, .tree] }

/-- The frozen text is refused, and the outline printed as if it had been the only output. -/
theorem jobs_of_sample_accounted_for :
    ∃ sources design endings report final,
      Accounts World.host sampleOptions sources design sampleWorld sampleWorld final endings
        report ∧
      report = { failures := [.ofVisitError (.emit Path.empty "disk full")] } ∧
      final.printed.content = "component timer (size=0)\n" ∧
      final.printed.content = String.join (Ending.printedTexts endings) ∧
      ∃ before lost after other, endings = before ++ lost :: after ∧
        (Job.performEach World.host none ((before ++ after).map Ending.job)).run sampleWorld =
          ((before ++ after).map Ending.result, other) := by
  obtain ⟨answer, loaded, load, -, settled⟩ :=
    every_job_accounted_for World.host sampleOptions sampleWorld
  have loads : ((Source.loadAll World.host sampleOptions.source).run.run sampleWorld).2 =
      sampleWorld := by decide +kernel
  have builds : (((Source.loadAll World.host sampleOptions.source).run.run sampleWorld).1.bind
      (Source.build {})).isOk = true := by decide +kernel
  have reports : ((sampleOptions.run World.host).run.run sampleWorld).1 =
      .ok { failures := [.ofVisitError (.emit Path.empty "disk full")] } := by decide +kernel
  have prints : ((runCommand World.host sampleOptions).run sampleWorld).2.printed.content =
      "component timer (size=0)\n" := by decide +kernel
  rw [load] at loads builds
  obtain rfl : loaded = sampleWorld := loads
  obtain ⟨design, built⟩ := exists_eq_ok_of_is_ok builds
  obtain ⟨sources, rfl, built⟩ := bind_eq_ok.1 built
  obtain ⟨endings, report, final, accounts⟩ := settled sources design _ rfl built rfl
  obtain ⟨stop, run⟩ := accounts.run
  obtain ⟨status, -, exits⟩ := accounts.exits
  rw [run.plain] at reports
  rw [exits.plain] at prints
  obtain rfl := Except.ok.inj reports
  have shown := accounts.shown _ World.shows_printed
  obtain ⟨error, failed⟩ := List.exists_mem_of_ne_nil
    (endings.filterMap (·.result.error?)) fun none => by
      have failures := accounts.failures
      rw [none] at failures
      cases failures
  obtain ⟨lost, member, failed⟩ := List.mem_filterMap.1 failed
  obtain ⟨before, after, split⟩ := List.append_of_mem member
  obtain ⟨other, -, alone, -⟩ := accounts.alone _ World.forgets_refusals before lost after error
    split (JobResult.error?_eq_some.1 failed)
  exact ⟨sources, design, endings, _, final, accounts, rfl, prints,
    shown.trans String.empty_append, before, lost, after, other, split, alone⟩

end Options

end

end AddressMap
