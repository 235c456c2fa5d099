import AddressMap.Command.Run

/-!
# Runs with a record

A program asks the host for one thing after another. What it asks for beyond reading is recorded
together with the host's answers. Keeping the record changes neither the answers nor the states, and
loading the sources leaves it empty.
-/

namespace AddressMap

set_option autoImplicit false

/-- What is asked of a host beyond reading, with the answer. -/
inductive Effect where
  | makeDirectory (path : String) (answer : Except String Unit)
  | saveText (path text : String) (answer : Except String Unit)
  | print (text : String) (answer : Except String Unit)
  | warn (text : String)

structure Recorded (σ : Type) where
  state : σ
  effects : List Effect := []

section

variable {σ α β ε : Type}

/-- Does the same, and adds to the record what the answer gives. -/
def recording (note : α → List Effect) (program : StateM σ α) : StateM (Recorded σ) α :=
  fun recorded =>
    let (answer, state) := program.run recorded.state
    (answer, { state, effects := recorded.effects ++ note answer })

namespace Host

variable (host : Host (StateM σ))

def recorded : Host (StateM (Recorded σ)) where
  isDirectory path := recording (fun _ => []) (host.isDirectory path)
  isFile path := recording (fun _ => []) (host.isFile path)
  listEntries path := recording (fun _ => []) (host.listEntries path)
  readText path := recording (fun _ => []) (host.readText path)
  makeDirectory path := recording (fun answer => [.makeDirectory path answer])
    (host.makeDirectory path)
  saveText path text := recording (fun answer => [.saveText path text answer])
    (host.saveText path text)
  print text := recording (fun answer => [.print text answer]) (host.print text)
  warn text := recording (fun _ => [.warn text]) (host.warn text)

inductive Step : σ → List Effect → σ → Prop
  | isDirectory (path : String) (state : σ) : Step state [] ((host.isDirectory path).run state).2
  | isFile (path : String) (state : σ) : Step state [] ((host.isFile path).run state).2
  | listEntries (path : String) (state : σ) : Step state [] ((host.listEntries path).run state).2
  | readText (path : String) (state : σ) : Step state [] ((host.readText path).run state).2
  | makeDirectory (path : String) (state : σ) :
      Step state [.makeDirectory path ((host.makeDirectory path).run state).1]
        ((host.makeDirectory path).run state).2
  | saveText (path text : String) (state : σ) :
      Step state [.saveText path text ((host.saveText path text).run state).1]
        ((host.saveText path text).run state).2
  | print (text : String) (state : σ) :
      Step state [.print text ((host.print text).run state).1] ((host.print text).run state).2
  | warn (text : String) (state : σ) : Step state [.warn text] ((host.warn text).run state).2

inductive Steps : σ → List Effect → σ → Prop
  | done (state : σ) : Steps state [] state
  | step {start middle stop : σ} {first rest : List Effect} (step : host.Step start first middle)
      (steps : Steps middle rest stop) : Steps start (first ++ rest) stop

variable {host}

theorem Steps.trans {start middle stop : σ} {first rest : List Effect}
    (before : host.Steps start first middle) (after : host.Steps middle rest stop) :
    host.Steps start (first ++ rest) stop := by
  induction before with
  | done state => exact after
  | step step _ ih =>
      rw [List.append_assoc]
      exact .step step (ih after)

/-- What reading leaves as it is, is left as it is where nothing is recorded. -/
theorem Steps.unchanged {ω : Type} {view : σ → ω} {start stop : σ}
    (reading : ∀ here there, host.Step here [] there → view there = view here)
    (steps : host.Steps start [] stop) : view stop = view start := by
  generalize nothing : ([] : List Effect) = effects at steps
  induction steps with
  | done state => rfl
  | step step _ ih =>
      obtain ⟨rfl, rfl⟩ := List.append_eq_nil_iff.1 nothing.symm
      exact (ih rfl).trans (reading _ _ step)

end Host

/-- A program on a host goes from one state to another by operations of the host with these effects.
The same program on the host with a record answers the same and adds the effects to the record. -/
structure Records (host : Host (StateM σ)) (plain : StateM σ α)
    (recorded : StateM (Recorded σ) α) (start : σ) (answer : α) (stop : σ)
    (effects : List Effect) : Prop where
  plain : plain.run start = (answer, stop)
  recorded : ∀ earlier,
    recorded.run { state := start, effects := earlier } =
      (answer, { state := stop, effects := earlier ++ effects })
  steps : host.Steps start effects stop

namespace Records

variable {host : Host (StateM σ)} {start middle stop : σ} {first rest : List Effect}

theorem pure (answer : α) (start : σ) :
    Records host (Pure.pure answer) (Pure.pure answer) start answer start [] where
  plain := rfl
  recorded earlier := by
    rw [List.append_nil]
    rfl
  steps := .done start

theorem bind {plain : StateM σ α} {recorded : StateM (Recorded σ) α} {further : α → StateM σ β}
    {recordedFurther : α → StateM (Recorded σ) β} {answer : α} {last : β}
    (before : Records host plain recorded start answer middle first)
    (after : Records host (further answer) (recordedFurther answer) middle last stop rest) :
    Records host (plain >>= further) (recorded >>= recordedFurther) start last stop
      (first ++ rest) where
  plain := by
    rw [StateT.run_bind, before.plain]
    exact after.plain
  recorded earlier := by
    rw [StateT.run_bind, before.recorded, ← List.append_assoc]
    exact after.recorded _
  steps := before.steps.trans after.steps

theorem of_step {plain : StateM σ α} (note : α → List Effect)
    (step : host.Step start (note (plain.run start).1) (plain.run start).2) :
    Records host plain (recording note plain) start (plain.run start).1 (plain.run start).2
      (note (plain.run start).1) where
  plain := rfl
  recorded _ := rfl
  steps := by
    rw [← List.append_nil (note _)]
    exact .step step (.done _)

theorem map {plain : StateM σ α} {recorded : StateM (Recorded σ) α} (f : α → β) {answer : α}
    (before : Records host plain recorded start answer stop first) :
    Records host (f <$> plain) (f <$> recorded) start (f answer) stop first := by
  rw [← bind_pure_comp, ← bind_pure_comp, ← List.append_nil first]
  exact before.bind (.pure (f answer) stop)

section Except

variable {plain : ExceptT ε (StateM σ) α} {recorded : ExceptT ε (StateM (Recorded σ)) α}
  {further : α → ExceptT ε (StateM σ) β} {recordedFurther : α → ExceptT ε (StateM (Recorded σ)) β}

theorem bind_ok {answer : α} {last : Except ε β}
    (before : Records host plain.run recorded.run start (.ok answer) middle first)
    (after : Records host (further answer).run (recordedFurther answer).run middle last stop rest) :
    Records host (plain >>= further).run (recorded >>= recordedFurther).run start last stop
      (first ++ rest) := by
  rw [ExceptT.run_bind, ExceptT.run_bind]
  exact before.bind after

theorem bind_error {error : ε}
    (before : Records host plain.run recorded.run start (.error error) stop first) :
    Records host (plain >>= further).run (recorded >>= recordedFurther).run start (.error error)
      stop first := by
  rw [ExceptT.run_bind, ExceptT.run_bind, ← List.append_nil first]
  exact before.bind (.pure (Except.error error) stop)

end Except

end Records

def Reads (host : Host (StateM σ)) (plain : StateM σ α) (recorded : StateM (Recorded σ) α) : Prop :=
  ∀ start, ∃ answer stop, Records host plain recorded start answer stop []

namespace Reads

variable {host : Host (StateM σ)}

theorem pure (answer : α) : Reads host (Pure.pure answer) (Pure.pure answer) :=
  fun start => ⟨answer, start, .pure answer start⟩

theorem of_step {plain : StateM σ α}
    (step : ∀ start, host.Step start [] (plain.run start).2) :
    Reads host plain (recording (fun _ => []) plain) :=
  fun start => ⟨_, _, .of_step (fun _ => []) (step start)⟩

theorem bind {plain : StateM σ α} {recorded : StateM (Recorded σ) α} {further : α → StateM σ β}
    {recordedFurther : α → StateM (Recorded σ) β} (before : Reads host plain recorded)
    (after : ∀ answer, Reads host (further answer) (recordedFurther answer)) :
    Reads host (plain >>= further) (recorded >>= recordedFurther) := by
  intro start
  obtain ⟨answer, middle, first⟩ := before start
  obtain ⟨last, stop, second⟩ := after answer middle
  exact ⟨last, stop, first.bind second⟩

theorem records {plain : StateM σ α} {recorded : StateM (Recorded σ) α} {start stop : σ}
    {answer : α} (reads : Reads host plain recorded) (here : plain.run start = (answer, stop)) :
    Records host plain recorded start answer stop [] := by
  obtain ⟨_, _, records⟩ := reads start
  obtain ⟨rfl, rfl⟩ := Prod.mk.inj (records.plain.symm.trans here)
  exact records

theorem lift {plain : StateM σ α} {recorded : StateM (Recorded σ) α}
    (reads : Reads host plain recorded) :
    Reads host (ExceptT.lift plain : ExceptT ε (StateM σ) α).run (ExceptT.lift recorded).run := by
  intro start
  obtain ⟨answer, stop, records⟩ := reads start
  exact ⟨.ok answer, stop, records.map Except.ok⟩

theorem bind_except {plain : ExceptT ε (StateM σ) α} {recorded : ExceptT ε (StateM (Recorded σ)) α}
    {further : α → ExceptT ε (StateM σ) β}
    {recordedFurther : α → ExceptT ε (StateM (Recorded σ)) β}
    (before : Reads host plain.run recorded.run)
    (after : ∀ answer, Reads host (further answer).run (recordedFurther answer).run) :
    Reads host (plain >>= further).run (recorded >>= recordedFurther).run := by
  rw [ExceptT.run_bind, ExceptT.run_bind]
  apply before.bind
  rintro (error | answer)
  · exact .pure (Except.error error)
  · exact after answer

end Reads

namespace Host

variable (host : Host (StateM σ))

theorem reads_is_directory (path : String) :
    Reads host (host.isDirectory path) (host.recorded.isDirectory path) :=
  .of_step fun start => .isDirectory path start

theorem reads_is_file (path : String) :
    Reads host (host.isFile path) (host.recorded.isFile path) :=
  .of_step fun start => .isFile path start

theorem reads_list_entries (path : String) :
    Reads host (host.listEntries path) (host.recorded.listEntries path) :=
  .of_step fun start => .listEntries path start

theorem reads_read_text (path : String) :
    Reads host (host.readText path) (host.recorded.readText path) :=
  .of_step fun start => .readText path start

theorem reads_keep_files (paths : List String) :
    Reads host (host.keepFiles paths) (host.recorded.keepFiles paths) := by
  induction paths with
  | nil => exact .pure []
  | cons path rest ih =>
      apply (host.reads_is_file path).bind
      intro isFile
      exact ih.bind fun others => .pure _

end Host

namespace Source

variable (host : Host (StateM σ))

theorem reads_files (path : String) :
    Reads host (files host path).run (files host.recorded path).run := by
  apply (host.reads_is_directory path).lift.bind_except
  rintro (_ | _)
  · exact .pure (Except.ok [path])
  · apply (host.reads_list_entries path).lift.bind_except
    rintro (reason | names)
    · exact .pure (Except.error (RunError.unreadable path reason))
    · exact (host.reads_keep_files _).lift

theorem reads_load (path : String) :
    Reads host (load host path).run (load host.recorded path).run := by
  apply (host.reads_read_text path).lift.bind_except
  rintro (reason | text)
  · exact .pure (Except.error (RunError.unreadable path reason))
  · cases read : Decl.ofJson? text with
    | none =>
        simp only [read]
        exact .pure (Except.error (RunError.malformed path))
    | some decl =>
        simp only [read]
        exact .pure (Except.ok (Source.mk path decl))

theorem reads_load_each (paths : List String) :
    Reads host (loadEach host paths).run (loadEach host.recorded paths).run := by
  induction paths with
  | nil => exact .pure (Except.ok [])
  | cons path rest ih =>
      apply (reads_load host path).bind_except
      intro source
      exact ih.bind_except fun sources => .pure (Except.ok (source :: sources))

/-- Loading the sources only reads. -/
theorem reads_load_all (path : String) :
    Reads host (loadAll host path).run (loadAll host.recorded path).run := by
  apply (reads_files host path).bind_except
  intro paths
  by_cases none : paths.isEmpty = true
  · simp only [none, ↓reduceIte]
    exact .pure (Except.error (RunError.noSources path))
  · simp only [none]
    exact reads_load_each host paths

end Source

end

end AddressMap
