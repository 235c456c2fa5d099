import AddressMap.Command.World
import AddressMap.Command.Run
import AddressMap.Proofs.Command.PathSteps
import AddressMap.Proofs.Element.Paths

/-!
# Where outputs are written

Each job of a run writes to a path of its own that is a direct entry of the output directory,
exactly if no root has a slash in its name and no format is asked for twice. Names are not checked
for slashes, so the outputs of two roots may meet in one file.
-/

namespace AddressMap

set_option autoImplicit false

def OutputFormat.lastChar : OutputFormat → Char
  | tree => 't'
  | explicit => 'n'

namespace Job

variable {job other : Job} {dir : String}

def path (dir : String) (job : Job) : String :=
  PathName.join dir job.fileName

theorem last_of_file_name (job : Job) :
    job.fileName.toList.getLast? = some job.format.lastChar := by
  rw [fileName, String.toList_append]
  cases job.format <;> simp [OutputFormat.extension, OutputFormat.lastChar]

theorem file_name_moves (job : Job) : PathName.stays job.fileName = false := by
  have last := last_of_file_name job
  rw [PathName.stays, Bool.or_eq_false_iff, beq_eq_false_iff_ne, beq_eq_false_iff_ne]
  constructor <;> intro same <;> rw [same] at last <;> revert last <;> cases job.format <;> decide

theorem file_name_descends (job : Job) : job.fileName ≠ ".." := by
  intro same
  have last := last_of_file_name job
  rw [same] at last
  revert last
  cases job.format <;> decide

theorem is_step_file_name_iff (job : Job) :
    PathName.IsStep job.fileName ↔ PathName.IsStep job.root.name := by
  have plain : '/' ∉ job.format.extension.toList := by cases job.format <;> decide
  rw [PathName.IsStep, fileName, String.toList_append, List.mem_append, not_or]
  exact and_iff_left plain

theorem file_name_injective (same : job.fileName = other.fileName) :
    job.root.name = other.root.name ∧ job.format = other.format := by
  have last : some job.format.lastChar = some other.format.lastChar := by
    rw [← last_of_file_name, ← last_of_file_name, same]
  have format : job.format = other.format := by
    revert last
    cases job.format <;> cases other.format <;> decide
  rw [fileName, fileName, format, String.append_left_inj] at same
  exact ⟨same, format⟩

/-- The paths of all jobs differ, and each is that of a direct entry of the directory. -/
def LandApart (dir : String) (jobs : List Job) : Prop :=
  (jobs.map (path dir)).Nodup ∧ ∀ job ∈ jobs, PathName.IsEntry dir job.fileName (job.path dir)

theorem is_entry_path_iff (job : Job) :
    PathName.IsEntry dir job.fileName (job.path dir) ↔ PathName.IsStep job.root.name :=
  (PathName.is_entry_join_iff job.file_name_moves job.file_name_descends).trans
    job.is_step_file_name_iff

theorem path_injective (same : job.path dir = other.path dir)
    (plain : PathName.IsStep job.root.name) (otherPlain : PathName.IsStep other.root.name) :
    job.root.name = other.root.name ∧ job.format = other.format :=
  file_name_injective (PathName.join_injective ((is_step_file_name_iff job).2 plain)
    ((is_step_file_name_iff other).2 otherPlain) same)

/-- Of roots without slashes in their names, no two paths agree unless a format is repeated. -/
theorem nodup_paths_iff {design : Design} {formats : List OutputFormat}
    (distinct : (design.roots.map Element.name).Nodup)
    (plain : ∀ root ∈ design.roots, PathName.IsStep root.name) :
    ((all design formats).map (path dir)).Nodup ↔ formats.Nodup ∨ design.roots = [] := by
  have repeats : ∀ root ∈ design.roots,
      ((formats.map (Job.mk root)).map (path dir)).Nodup ↔ formats.Nodup := by
    intro root member
    rw [List.map_map]
    apply List.nodup_map_iff
    intro first second same
    have paths : (Job.mk root first).path dir = (Job.mk root second).path dir := same
    exact (path_injective paths (plain root member) (plain root member)).2
  have apart : design.roots.Pairwise
      (Function.onFun List.Disjoint fun root => (formats.map (Job.mk root)).map (path dir)) := by
    apply (List.pairwise_map.1 distinct).imp_of_mem
    intro first second here there different found inFirst inSecond
    simp only [List.map_map, List.mem_map] at inFirst inSecond
    obtain ⟨format, -, rfl⟩ := inFirst
    obtain ⟨later, -, same⟩ := inSecond
    have paths : (Job.mk second later).path dir = (Job.mk first format).path dir := same
    exact different (path_injective paths (plain second there) (plain first here)).1.symm
  rw [all, List.map_flatMap, List.nodup_flatMap]
  constructor
  · rintro ⟨each, -⟩
    by_cases none : design.roots = []
    · exact .inr none
    · obtain ⟨root, member⟩ := List.exists_mem_of_ne_nil _ none
      exact .inl ((repeats root member).1 (each root member))
  · rintro (once | none)
    · exact ⟨fun root member => (repeats root member).2 once, apart⟩
    · simp [none]

theorem mem_all {design : Design} {formats : List OutputFormat} :
    job ∈ all design formats ↔ job.root ∈ design.roots ∧ job.format ∈ formats := by
  obtain ⟨root, format⟩ := job
  simp [all]

end Job

namespace Options

variable {args : List String} {options : Options}

theorem formats_ne_nil (read : Options.read args = .ok options) : options.formats ≠ [] := by
  obtain ⟨arguments, -, made⟩ := bind_eq_ok.1 read
  unfold ofArguments at made
  split at made
  next text source _ =>
    obtain ⟨formats, listed, built⟩ := bind_eq_ok.1 made
    obtain rfl := Except.ok.inj built
    obtain ⟨first, rest, pieces⟩ := List.exists_cons_of_ne_nil
      (List.splitOnP_ne_nil (· == ',') text.toList)
    rw [OutputFormat.readList, pieces, List.mapM_cons] at listed
    obtain ⟨format, -, others⟩ := bind_eq_ok.1 listed
    obtain ⟨later, -, same⟩ := bind_eq_ok.1 others
    obtain rfl := Except.ok.inj same
    exact List.cons_ne_nil format later
  · contradiction

/-- The outputs of a run have paths of their own, each directly in the output directory, exactly if
no name of a root holds a slash and no format is repeated. Without slashes they lead nowhere else in
any file tree. -/
theorem outputs_land_apart_iff {dir : String} {decls : List Decl} {design : Design}
    (read : Options.read args = .ok options)
    (built : Design.ofDecls options.defaults decls = .ok design) :
    (Job.LandApart dir (Job.all design options.formats) ↔
      (∀ root ∈ design.roots, PathName.IsStep root.name) ∧
        (options.formats.Nodup ∨ design.roots = [])) ∧
      ∀ tree workingDirectory location,
        FileTree.inside? tree workingDirectory dir = some location →
        ∀ job ∈ Job.all design options.formats, PathName.IsStep job.root.name →
        ∀ found, tree.entry? workingDirectory (job.path dir) = some found →
          found = location ++ [job.fileName] := by
  have distinct := Design.root_names_distinct (Design.well_formed_of_built built)
  constructor
  · constructor
    · rintro ⟨apart, entries⟩
      have plain : ∀ root ∈ design.roots, PathName.IsStep root.name := by
        intro root member
        obtain ⟨format, asked⟩ := List.exists_mem_of_ne_nil _ (formats_ne_nil read)
        have job : Job.mk root format ∈ Job.all design options.formats :=
          Job.mem_all.2 ⟨member, asked⟩
        exact (Job.is_entry_path_iff _).1 (entries _ job)
      exact ⟨plain, (Job.nodup_paths_iff distinct plain).1 apart⟩
    · rintro ⟨plain, once⟩
      refine ⟨(Job.nodup_paths_iff distinct plain).2 once, ?_⟩
      intro job member
      exact (Job.is_entry_path_iff job).2 (plain job.root (Job.mem_all.1 member).1)
  · intro tree workingDirectory location known job _ plain found speaks
    exact tree.eq_of_entry?_join workingDirectory ((Job.is_step_file_name_iff job).2 plain) known
      speaks

theorem outputs_of_sample_land_apart :
    ∃ options design,
      Options.read ["tree,explicit", "src", "-o", "out"] = .ok options ∧
      Design.ofDecls options.defaults Design.sampleDecls = .ok design ∧
      Job.LandApart "out" (Job.all design options.formats) ∧
      ∀ job ∈ Job.all design options.formats,
        ∀ found, FileTree.entry? { nodes := [(["out"], .directory)] } [] (job.path "out") =
          some found → found = ["out", job.fileName] := by
  have read : Options.read ["tree,explicit", "src", "-o", "out"] =
      .ok { source := "src", formats := [.tree, .explicit], outputDir? := some "out" } := by
    decide +kernel
  have names : (Design.ofDecls {} Design.sampleDecls).map (fun design =>
      decide (∀ root ∈ design.roots, PathName.IsStep root.name)) = .ok true := by decide +kernel
  obtain ⟨design, built, checked⟩ := exists_of_map_eq_ok names
  have plain := of_decide_eq_true checked
  obtain ⟨apart, inside⟩ := @outputs_land_apart_iff _ _ "out" _ _ read built
  refine ⟨_, design, read, built, apart.2 ⟨plain, .inl (by decide)⟩, ?_⟩
  intro job member
  exact inside _ [] ["out"] (by decide +kernel) job member
    (plain job.root (Job.mem_all.1 member).1)

/-- Two components of which one has a slash in its name. -/
def twinDecls : List Decl :=
  [{ kind := .component, attrs := .ofList [("name", "C"), ("width", "32")] },
    { kind := .component, attrs := .ofList [("name", "./C"), ("width", "8")] }]

/-- What becomes of jobs that write into a directory, where there is nothing else. -/
def performInto (dir : String) (jobs : List Job) : List JobResult × World :=
  (Job.performEach World.host (some dir) jobs).run { tree := { nodes := [([dir], .directory)] } }

/-- The output of the second component replaces that of the first. -/
theorem outputs_of_twins_in_one_file :
    ∃ options design,
      Options.read ["tree", "src", "-o", "out"] = .ok options ∧
      Design.ofDecls options.defaults twinDecls = .ok design ∧
      ¬Job.LandApart "out" (Job.all design options.formats) ∧
      performInto "out" (Job.all design options.formats) =
        ([.written "out/C.txt", .written "out/./C.txt"],
          { tree := { nodes :=
            [(["out"], .directory), (["out", "C.txt"], .text "component ./C (size=0)\n")] } }) := by
  have read : Options.read ["tree", "src", "-o", "out"] =
      .ok { source := "src", formats := [.tree], outputDir? := some "out" } := by decide +kernel
  have performed : (Design.ofDecls {} twinDecls).map (fun design =>
      performInto "out" (Job.all design [.tree])) =
        .ok ([.written "out/C.txt", .written "out/./C.txt"],
          { tree := { nodes :=
            [(["out"], .directory), (["out", "C.txt"], .text "component ./C (size=0)\n")] } }) := by
    decide +kernel
  have misnamed : (Design.ofDecls {} twinDecls).map (fun design =>
      decide (∃ root ∈ design.roots, ¬PathName.IsStep root.name)) = .ok true := by decide +kernel
  obtain ⟨design, built, done⟩ := exists_of_map_eq_ok performed
  rw [built] at misnamed
  refine ⟨_, design, read, built, ?_, done⟩
  obtain ⟨root, member, slashed⟩ := of_decide_eq_true (Except.ok.inj misnamed)
  rintro ⟨-, entries⟩
  have job : Job.mk root .tree ∈ Job.all design [.tree] :=
    Job.mem_all.2 ⟨member, List.mem_singleton_self _⟩
  exact slashed ((Job.is_entry_path_iff _).1 (entries _ job))

end Options

end AddressMap
