import AddressMap.Command.Options
import AddressMap.Proofs.Elaboration.Reading
import Mathlib.Data.List.Forall2
import Mathlib.Data.List.Perm.Basic

/-!
# The order of options

A command line is cut into parts, an option with its value in one. What is read from it depends on
its positional arguments in their order, and on the value that each option has last. So options may
stand anywhere among the other parts.
-/

namespace AddressMap

set_option autoImplicit false

theorem map_m_eq_ok {ε α β : Type} {read : α → Except ε β} {list : List α} {answers : List β} :
    list.mapM read = .ok answers ↔
      List.Forall₂ (fun entry answer => read entry = .ok answer) list answers := by
  induction list generalizing answers with
  | nil =>
      rw [List.mapM_nil, List.forall₂_nil_left_iff]
      exact ⟨fun same => (Except.ok.inj same).symm, fun none => none ▸ rfl⟩
  | cons entry rest ih =>
      rw [List.mapM_cons, bind_eq_ok, List.forall₂_cons_left_iff]
      simp only [bind_eq_ok, ih]
      constructor
      · rintro ⟨answer, here, others, later, same⟩
        exact ⟨answer, others, here, later, (Except.ok.inj same).symm⟩
      · rintro ⟨answer, others, here, later, rfl⟩
        exact ⟨answer, here, others, later, rfl⟩

inductive OptionName where
  | outputDir
  | base
  | busWidth
  | sequential
  | verbose
deriving DecidableEq, Repr

/-- The option that a text alone is, and its value. An option that is only present or absent has an
empty one. -/
def OptionName.ofText? (text : String) : Option (OptionName × String) :=
  match Argument.behind? "--output=" text, Argument.behind? "--base=" text,
      Argument.behind? "--bus-width=" text with
  | some name, _, _ => some (outputDir, name)
  | none, some address, _ => some (base, address)
  | none, none, some bits => some (busWidth, bits)
  | none, none, none =>
      if text = "--no-parallel" then some (sequential, "")
      else if text = "-v" ∨ text = "--verbose" then some (verbose, "")
      else none

namespace OptionName

def read : OptionName → String → Except UsageError Argument
  | outputDir, name => .ok (Argument.directory name)
  | base, address =>
      (readNumeral? address).elim (.error (.invalidBase address)) (.ok ∘ Argument.base)
  | busWidth, bits =>
      (Argument.readBusWidth? bits).elim (.error (.invalidBusWidth bits)) (.ok ∘ Argument.busWidth)
  | sequential, _ => .ok Argument.sequential
  | verbose, _ => .ok Argument.verbose

end OptionName

namespace Argument

variable {text : String} {argument : Argument}

def name? : Argument → Option OptionName
  | positional _ => none
  | outputDir _ => some .outputDir
  | base _ => some .base
  | busWidth _ => some .busWidth
  | sequential => some .sequential
  | verbose => some .verbose

theorem exists_of_elim {α : Type} {wrap : α → Argument} {failure : UsageError}
    {value? : Option α}
    (read : value?.elim (.error failure) (.ok ∘ wrap) = Except.ok argument) :
    ∃ value, value? = some value ∧ argument = wrap value := by
  cases value? with
  | none => contradiction
  | some value => exact ⟨value, rfl, (Except.ok.inj read).symm⟩

theorem name?_of_read {name : OptionName} {value : String}
    (read : name.read value = .ok argument) : argument.name? = some name := by
  cases name with
  | base =>
      obtain ⟨address, -, rfl⟩ := exists_of_elim read
      rfl
  | busWidth =>
      obtain ⟨bits, -, rfl⟩ := exists_of_elim read
      rfl
  | outputDir | sequential | verbose =>
      obtain rfl := Except.ok.inj read
      rfl

/-- A text is read as the option that it is. Otherwise it is a positional argument, unless it looks
like an option. -/
theorem of_text_eq (text : String) :
    ofText text =
      match OptionName.ofText? text with
      | some (name, value) => name.read value
      | none =>
          if text.toList.head? = some '-' ∧ text ≠ "-" then .error (.unknownOption text)
          else .ok (positional text) := by
  unfold ofText OptionName.ofText?
  cases behind? "--output=" text with
  | some name => rfl
  | none =>
      cases behind? "--base=" text with
      | some address => rfl
      | none =>
          cases behind? "--bus-width=" text with
          | some bits => rfl
          | none =>
              dsimp only
              by_cases alone : text = "--no-parallel"
              · rw [if_pos alone, if_pos alone]
                rfl
              · rw [if_neg alone, if_neg alone]
                by_cases tells : text = "-v" ∨ text = "--verbose"
                · rw [if_pos tells, if_pos tells]
                  rfl
                · rw [if_neg tells, if_neg tells]

theorem eq_positional_of_read (plain : OptionName.ofText? text = none)
    (read : ofText text = .ok argument) : argument = positional text := by
  rw [of_text_eq, plain] at read
  dsimp only at read
  split at read
  · contradiction
  · exact (Except.ok.inj read).symm

end Argument

/-- A part of a command line as it is typed. -/
inductive Part where
  | alone (text : String)
  /-- An option whose value is the next text. -/
  | withValue (option value : String)
deriving DecidableEq, Repr

namespace Part

def TakesNext (text : String) : Prop :=
  text = "-o" ∨ text = "--output"

instance (text : String) : Decidable (TakesNext text) :=
  inferInstanceAs (Decidable (text = "-o" ∨ text = "--output"))

def texts : Part → List String
  | alone text => [text]
  | withValue option value => [option, value]

/-- Takes an option together with the text behind it, if that one is its value. -/
def split : List String → List Part
  | [] => []
  | [text] => [alone text]
  | text :: next :: rest =>
      if TakesNext text then withValue text next :: split rest
      else alone text :: split (next :: rest)

theorem split_alone {text : String} (stops : ¬TakesNext text) (rest : List String) :
    split (text :: rest) = alone text :: split rest := by
  cases rest with
  | nil => rfl
  | cons next rest => exact if_neg stops

def given? : Part → Option (OptionName × String)
  | alone text => OptionName.ofText? text
  | withValue _ value => some (.outputDir, value)

def value? (name : OptionName) (part : Part) : Option String :=
  part.given?.bind fun given => if given.1 = name then some given.2 else none

def positional? (part : Part) : Option String :=
  if part.given? = none then part.texts.head? else none

def values (name : OptionName) (parts : List Part) : List String :=
  parts.filterMap (value? name)

def last? (parts : List Part) (name : OptionName) : Option String :=
  (values name parts).getLast?

def positionals (parts : List Part) : List String :=
  parts.filterMap positional?

/-- An option can go past these parts: other occurrences of it among them say the same. -/
structure MayPass (option : Part) (passed : List Part) : Prop where
  isOption : option.given? ≠ none
  keepsOrder : ∀ other ∈ passed, other.given?.map Prod.fst = option.given?.map Prod.fst →
    other.given? = option.given?

/-- An option goes with its value to a place behind or before some other parts. -/
inductive Moves : List Part → List Part → Prop
  | later {option : Part} {passed : List Part} (front back : List Part)
      (may : MayPass option passed) :
      Moves (front ++ option :: passed ++ back) (front ++ passed ++ option :: back)
  | earlier {option : Part} {passed : List Part} (front back : List Part)
      (may : MayPass option passed) :
      Moves (front ++ passed ++ option :: back) (front ++ option :: passed ++ back)

/-- The same parts, in an order that is the same for the positional arguments and for the values of
each option. -/
structure Reordered (before after : List Part) : Prop where
  perm : after.Perm before
  positionals : positionals after = positionals before
  values (name : OptionName) : values name after = values name before

theorem Reordered.symm {before after : List Part} (reordered : Reordered before after) :
    Reordered after before :=
  ⟨reordered.perm.symm, reordered.positionals.symm, fun name => (reordered.values name).symm⟩

theorem positional?_of_given {part : Part} (isOption : part.given? ≠ none) :
    part.positional? = none :=
  if_neg isOption

theorem value?_eq_some {name : OptionName} {part : Part} {value : String} :
    part.value? name = some value ↔ part.given? = some (name, value) := by
  rw [value?, Option.bind_eq_some_iff]
  constructor
  · rintro ⟨⟨other, same⟩, given, rest⟩
    obtain ⟨rfl, rfl⟩ : other = name ∧ same = value := by simpa using rest
    exact given
  · exact fun given => ⟨_, given, by simp⟩

theorem value?_eq_none {name : OptionName} {part : Part} :
    part.value? name = none ↔ part.given?.map Prod.fst ≠ some name := by
  rw [Option.eq_none_iff_forall_ne_some]
  simp [value?_eq_some]

theorem positionals_append (first second : List Part) :
    positionals (first ++ second) = positionals first ++ positionals second :=
  List.filterMap_append

theorem values_append (name : OptionName) (first second : List Part) :
    values name (first ++ second) = values name first ++ values name second :=
  List.filterMap_append

namespace MayPass

variable {option : Part} {passed : List Part}

theorem positionals_cons (may : MayPass option passed) :
    positionals (option :: passed) = positionals (passed ++ [option]) := by
  have free := positional?_of_given may.isOption
  simp [positionals, free]

theorem values_cons (may : MayPass option passed) (name : OptionName) :
    values name (option :: passed) = values name (passed ++ [option]) := by
  rw [values_append]
  cases has : option.value? name with
  | none => simp [values, has]
  | some value =>
      have given := value?_eq_some.1 has
      have same : ∀ text ∈ values name passed, text = value := by
        intro text member
        obtain ⟨other, inside, holds⟩ := List.mem_filterMap.1 member
        have gives := value?_eq_some.1 holds
        have agrees := may.keepsOrder other inside (by rw [gives, given]; rfl)
        rw [gives, given] at agrees
        exact congrArg Prod.snd (Option.some.inj agrees)
      have alone : values name [option] = [value] := List.filterMap_cons_some has
      have first : values name (option :: passed) = value :: values name passed :=
        List.filterMap_cons_some has
      -- All these values are one, so that it does not show where a further one stands.
      rw [first, alone, List.eq_replicate_of_mem same]
      exact List.replicate_succ'

theorem reordered (may : MayPass option passed) (front back : List Part) :
    Reordered (front ++ option :: passed ++ back) (front ++ passed ++ option :: back) := by
  have unfolded : front ++ passed ++ option :: back = front ++ (passed ++ [option]) ++ back := by
    simp
  rw [unfolded]
  constructor
  · exact ((List.perm_append_singleton option passed).append_left front).append_right back
  · simp only [positionals_append front, positionals_append _ back, may.positionals_cons]
  · intro name
    simp only [values_append name front, values_append name _ back, may.values_cons]

end MayPass

theorem Moves.reordered {before after : List Part} (moves : Moves before after) :
    Reordered before after := by
  cases moves with
  | later front back may => exact may.reordered front back
  | earlier front back may => exact (may.reordered front back).symm

def read : Part → Except UsageError Argument
  | withValue _ value => .ok (Argument.directory value)
  | alone text =>
      if TakesNext text then .error (.missingDirectory text) else Argument.ofText text

/-- An option with its value is one part, also if its value looks like an option. -/
theorem read_all_eq (texts : List String) : Argument.readAll texts = (split texts).mapM read := by
  -- The reader tests a text before it looks for another one, and the cut does so afterwards.
  fun_induction split texts with
  | case1 => rfl
  | case2 text =>
      rw [Argument.readAll, List.mapM_cons, List.mapM_nil, read]
      by_cases takes : TakesNext text
      · rw [if_pos takes]
        exact if_pos takes
      · rw [if_neg takes]
        exact if_neg takes
  | case3 text next rest takes ih =>
      rw [Argument.readAll, List.mapM_cons, read, ← ih]
      exact if_pos takes
  | case4 text next rest stops ih =>
      rw [Argument.readAll, List.mapM_cons, read, if_neg stops, ← ih]
      exact if_neg stops

theorem texts_split (texts : List String) : (split texts).flatMap Part.texts = texts := by
  fun_induction split texts with
  | case1 => rfl
  | case2 text => rfl
  | case3 text next rest takes ih => rw [List.flatMap_cons, ih]; rfl
  | case4 text next rest stops ih => rw [List.flatMap_cons, ih]; rfl

/-- A part as it is cut from a command line that goes on behind it. Only the last text can be an
option that lacks its value. -/
def Whole : Part → Prop
  | alone text => ¬TakesNext text
  | withValue option _ => TakesNext option

theorem split_texts {parts : List Part} (whole : ∀ part ∈ parts, part.Whole) :
    split (parts.flatMap Part.texts) = parts := by
  induction parts with
  | nil => rfl
  | cons part rest ih =>
      obtain ⟨here, later⟩ := List.forall_mem_cons.1 whole
      rw [List.flatMap_cons]
      cases part with
      | withValue option value =>
          have cut : split (option :: value :: rest.flatMap Part.texts) =
              withValue option value :: split (rest.flatMap Part.texts) := if_pos here
          exact cut.trans (congrArg _ (ih later))
      | alone text =>
          exact (split_alone here _).trans (congrArg _ (ih later))

theorem whole_of_read {texts : List String} {part : Part} {argument : Argument}
    (member : part ∈ split texts) (read : part.read = .ok argument) : part.Whole := by
  fun_induction split texts with
  | case1 => contradiction
  | case2 text =>
      obtain rfl := List.mem_singleton.1 member
      intro takes
      rw [Part.read, if_pos takes] at read
      contradiction
  | case3 text next rest takes ih =>
      rcases List.mem_cons.1 member with rfl | later
      · exact takes
      · exact ih later
  | case4 text next rest stops ih =>
      rcases List.mem_cons.1 member with rfl | later
      · exact stops
      · exact ih later

section Reading

variable {part : Part} {argument : Argument}

theorem read_alone {text : String} (read : (alone text).read = .ok argument) :
    Argument.ofText text = .ok argument := by
  rw [Part.read] at read
  split at read
  · contradiction
  · exact read

theorem read_of_given {name : OptionName} {value : String}
    (given : part.given? = some (name, value)) (read : part.read = .ok argument) :
    name.read value = .ok argument := by
  cases part with
  | withValue option text =>
      obtain ⟨rfl, rfl⟩ := Prod.mk.inj (Option.some.inj given)
      exact read
  | alone text =>
      have spelled : OptionName.ofText? text = some (name, value) := given
      rw [← read_alone read, Argument.of_text_eq, spelled]

theorem positional_of_read (plain : part.given? = none) (read : part.read = .ok argument) :
    ∃ text, part = alone text ∧ argument = .positional text := by
  cases part with
  | withValue option value => contradiction
  | alone text => exact ⟨text, rfl, Argument.eq_positional_of_read plain (read_alone read)⟩

theorem name?_of_read (read : part.read = .ok argument) :
    argument.name? = part.given?.map Prod.fst := by
  cases given : part.given? with
  | some option => exact Argument.name?_of_read (read_of_given given read)
  | none =>
      obtain ⟨text, -, rfl⟩ := positional_of_read given read
      rfl

theorem positional?_of_read (read : part.read = .ok argument) :
    argument.positional? = part.positional? := by
  cases given : part.given? with
  | some option =>
      have named := Argument.name?_of_read (read_of_given given read)
      rw [positional?_of_given (by rw [given]; exact nofun)]
      cases argument with
      | positional text => contradiction
      | outputDir | base | busWidth | sequential | verbose => rfl
  | none =>
      obtain ⟨text, rfl, rfl⟩ := positional_of_read given read
      exact (if_pos given).symm

/-- The arguments that are read from each part of a command line. -/
def ReadAs (parts : List Part) (arguments : List Argument) : Prop :=
  List.Forall₂ (fun part argument => part.read = .ok argument) parts arguments

variable {parts : List Part} {arguments : List Argument}

theorem exists_read_of_mem (readAs : ReadAs parts arguments) :
    ∀ part ∈ parts, ∃ argument, part.read = .ok argument := by
  induction readAs with
  | nil => exact nofun
  | @cons part argument rest others here later ih =>
      exact List.forall_mem_cons.2 ⟨⟨argument, here⟩, ih⟩

theorem positionals_of_read_as (read : ReadAs parts arguments) :
    arguments.filterMap Argument.positional? = positionals parts := by
  induction read with
  | nil => rfl
  | cons head tail ih =>
      rw [List.filterMap_cons, ih, positional?_of_read head]
      exact List.filterMap_cons.symm

theorem values_of_read_as (read : ReadAs parts arguments) (name : OptionName) :
    (arguments.filter (·.name? = some name)).map .ok = (values name parts).map name.read := by
  induction read with
  | nil => rfl
  | @cons part argument rest others head tail ih =>
      have named := name?_of_read head
      cases has : part.value? name with
      | none =>
          have other : argument.name? ≠ some name := named ▸ value?_eq_none.1 has
          rw [List.filter_cons_of_neg (by simpa using other), ih]
          exact congrArg _ (List.filterMap_cons_none has).symm
      | some value =>
          have given := value?_eq_some.1 has
          have same : argument.name? = some name := by rw [named, given]; rfl
          rw [List.filter_cons_of_pos (by simpa using same), List.map_cons, ih,
            ← read_of_given given head]
          exact congrArg (List.map name.read) (List.filterMap_cons_some has).symm

end Reading

end Part

namespace Options

/-- The last argument that is read from an option. -/
def lastNamed (name : OptionName) (arguments : List Argument) : Option Argument :=
  (arguments.filter (·.name? = some name)).getLast?

section Last

variable {α : Type} {pick : Argument → Option α} {name : OptionName}

theorem find_some?_eq
    (picks : ∀ argument, (pick argument).isSome = decide (argument.name? = some name))
    (arguments : List Argument) :
    arguments.findSome? pick = (arguments.find? (·.name? = some name)).bind pick := by
  induction arguments with
  | nil => rfl
  | cons argument rest ih =>
      have picked := picks argument
      rw [List.findSome?_cons, List.find?_cons]
      cases value : pick argument with
      | none =>
          rw [value] at picked
          rw [← picked, ih]
          rfl
      | some text =>
          rw [value] at picked
          rw [← picked]
          exact value.symm

theorem last_eq
    (picks : ∀ argument, (pick argument).isSome = decide (argument.name? = some name))
    (arguments : List Argument) (otherwise : α) :
    last pick arguments otherwise = ((lastNamed name arguments).bind pick).getD otherwise := by
  rw [last, List.getLastD_eq_getLast?, List.getLast?_filterMap, find_some?_eq picks, lastNamed,
    List.getLast?_filter]

theorem contains_eq {argument : Argument}
    (only : ∀ other, other.name? = some name ↔ other = argument) (arguments : List Argument) :
    arguments.contains argument = (lastNamed name arguments).isSome := by
  rw [lastNamed, List.getLast?_filter, List.isSome_find?, List.any_reverse]
  simp [only, List.any_eq]

end Last

/-- The options for two positional arguments and the value that each option has in the end. -/
def ofGiven (positionals : List String) (last? : OptionName → Option String) :
    Except UsageError Options :=
  match positionals with
  | [formats, source] => do
      let formats ← OutputFormat.readList formats
      let standard : MapDefaults := {}
      .ok
        { source
          formats
          outputDir? := (last? .outputDir).bind fun name => if name = "-" then none else some name
          verbose := (last? .verbose).isSome
          parallel := (last? .sequential).isNone
          defaults :=
            { base := ((last? .base).bind readNumeral?).getD standard.base
              busWidth :=
                ((last? .busWidth).bind Argument.readBusWidth?).getD standard.busWidth } }
  | _ => .error .positionalCount

section Parts

variable {parts otherParts : List Part} {arguments : List Argument}

theorem read_eq_ok {texts : List String} {options : Options} :
    read texts = .ok options ↔
      ∃ arguments, Part.ReadAs (Part.split texts) arguments ∧
        ofArguments arguments = .ok options := by
  rw [read, bind_eq_ok, Part.read_all_eq]
  simp only [map_m_eq_ok, Part.ReadAs]

theorem last_named_of_read_as (readAs : Part.ReadAs parts arguments) (name : OptionName) :
    (lastNamed name arguments).map .ok = (Part.last? parts name).map name.read := by
  rw [lastNamed, ← List.getLast?_map, Part.values_of_read_as readAs, List.getLast?_map, Part.last?]

theorem is_some_last_named (readAs : Part.ReadAs parts arguments) (name : OptionName) :
    (lastNamed name arguments).isSome = (Part.last? parts name).isSome := by
  have same := congrArg Option.isSome (last_named_of_read_as readAs name)
  rwa [Option.isSome_map, Option.isSome_map] at same

theorem last_of_read_as {α : Type} {pick : Argument → Option α} {name : OptionName}
    {decode : String → Option α}
    (picks : ∀ argument, (pick argument).isSome = decide (argument.name? = some name))
    (decodes : ∀ value argument, name.read value = .ok argument → pick argument = decode value)
    (readAs : Part.ReadAs parts arguments) (otherwise : α) :
    last pick arguments otherwise = ((Part.last? parts name).bind decode).getD otherwise := by
  rw [last_eq picks]
  apply congrArg (Option.getD · otherwise)
  have same := last_named_of_read_as readAs name
  cases value : Part.last? parts name with
  | none =>
      rw [value, Option.map_none, Option.map_eq_none_iff] at same
      rw [same]
      rfl
  | some text =>
      rw [value, Option.map_some, Option.map_eq_some_iff] at same
      obtain ⟨argument, found, read⟩ := same
      rw [found]
      exact decodes text argument read.symm

theorem last_output_dir (readAs : Part.ReadAs parts arguments) :
    last Argument.outputDir? arguments none =
      (Part.last? parts .outputDir).bind fun name => if name = "-" then none else some name := by
  have picked := @last_of_read_as _ _ _ Argument.outputDir? .outputDir
    (fun name => some (if name = "-" then none else some name))
    (fun other => by cases other <;> rfl)
    (fun value argument read => by rw [← Except.ok.inj read]; rfl) readAs none
  rw [picked]
  cases Part.last? parts .outputDir <;> rfl

theorem last_base (readAs : Part.ReadAs parts arguments) (otherwise : Nat) :
    last Argument.base? arguments otherwise =
      ((Part.last? parts .base).bind readNumeral?).getD otherwise := by
  apply last_of_read_as (fun other => by cases other <;> rfl) _ readAs
  intro value argument read
  obtain ⟨address, found, rfl⟩ := Argument.exists_of_elim read
  exact found.symm

theorem last_bus_width (readAs : Part.ReadAs parts arguments) (otherwise : Nat) :
    last Argument.busWidth? arguments otherwise =
      ((Part.last? parts .busWidth).bind Argument.readBusWidth?).getD otherwise := by
  apply last_of_read_as (fun other => by cases other <;> rfl) _ readAs
  intro value argument read
  obtain ⟨bits, found, rfl⟩ := Argument.exists_of_elim read
  exact found.symm

theorem contains_verbose (readAs : Part.ReadAs parts arguments) :
    arguments.contains .verbose = (Part.last? parts .verbose).isSome := by
  rw [← is_some_last_named readAs]
  exact contains_eq (fun other => by cases other <;> simp [Argument.name?]) arguments

theorem contains_sequential (readAs : Part.ReadAs parts arguments) :
    arguments.contains .sequential = (Part.last? parts .sequential).isSome := by
  rw [← is_some_last_named readAs]
  exact contains_eq (fun other => by cases other <;> simp [Argument.name?]) arguments

/-- The arguments count only for what is positional and for the last value of each option. -/
theorem of_arguments_eq (readAs : Part.ReadAs parts arguments) :
    ofArguments arguments = ofGiven (Part.positionals parts) (Part.last? parts) := by
  unfold ofArguments
  simp only [Part.positionals_of_read_as readAs, last_output_dir readAs, last_base readAs,
    last_bus_width readAs, contains_verbose readAs, contains_sequential readAs, Option.not_isSome]
  rfl

theorem exists_positionals {positionals : List String} {last? : OptionName → Option String}
    {options : Options} (given : ofGiven positionals last? = .ok options) :
    ∃ formats, positionals = [formats, options.source] := by
  unfold ofGiven at given
  split at given
  next formats source =>
    obtain ⟨listed, -, built⟩ := bind_eq_ok.1 given
    obtain rfl := Except.ok.inj built
    exact ⟨formats, rfl⟩
  · contradiction

theorem exists_read_as_of_reordered (reordered : Part.Reordered parts otherParts)
    (readAs : Part.ReadAs parts arguments) :
    ∃ others, Part.ReadAs otherParts others ∧ ofArguments others = ofArguments arguments := by
  obtain ⟨others, readOthers, -⟩ := List.perm_comp_forall₂ reordered.perm readAs
  have lasts : Part.last? otherParts = Part.last? parts := by
    funext name
    rw [Part.last?, Part.last?, reordered.values]
  refine ⟨others, readOthers, ?_⟩
  rw [of_arguments_eq readAs, of_arguments_eq readOthers, reordered.positionals, lasts]

end Parts

/-- What is read from a command line that is accepted is determined by its two positional arguments
and the last value of each option. An option may stand, with its value, wherever it does not come
between another option and its value. -/
theorem options_stand_anywhere {texts : List String} {options : Options}
    (accepted : read texts = .ok options) :
    (Part.split texts).flatMap Part.texts = texts ∧
    (∃ formats, Part.positionals (Part.split texts) = [formats, options.source]) ∧
    ofGiven (Part.positionals (Part.split texts)) (Part.last? (Part.split texts)) = .ok options ∧
    (∀ otherTexts otherOptions, read otherTexts = .ok otherOptions →
      Part.positionals (Part.split otherTexts) = Part.positionals (Part.split texts) →
      (∀ name, Part.last? (Part.split otherTexts) name = Part.last? (Part.split texts) name) →
      otherOptions = options) ∧
    ∀ moved, Part.Moves (Part.split texts) moved →
      Part.split (moved.flatMap Part.texts) = moved ∧
        read (moved.flatMap Part.texts) = .ok options := by
  obtain ⟨arguments, readAs, made⟩ := read_eq_ok.1 accepted
  have given := (of_arguments_eq readAs).symm.trans made
  refine ⟨Part.texts_split texts, exists_positionals given, given, ?_, ?_⟩
  · intro otherTexts otherOptions acceptedOther positionals lasts
    obtain ⟨others, readOthers, madeOther⟩ := read_eq_ok.1 acceptedOther
    rw [of_arguments_eq readOthers, positionals, funext lasts, given] at madeOther
    exact (Except.ok.inj madeOther).symm
  · intro moved moves
    have reordered := moves.reordered
    have whole : ∀ part ∈ moved, part.Whole := by
      intro part member
      have typed := reordered.perm.subset member
      obtain ⟨argument, read⟩ := Part.exists_read_of_mem readAs part typed
      exact Part.whole_of_read typed read
    have same := Part.split_texts whole
    obtain ⟨others, readOthers, madeOther⟩ := exists_read_as_of_reordered reordered readAs
    rw [← same] at readOthers
    exact ⟨same, read_eq_ok.2 ⟨others, readOthers, madeOther.trans made⟩⟩

/-- An option whose value looks like another option goes behind that option and both positional
arguments. -/
theorem options_of_sample_stand_anywhere :
    ∃ options,
      read ["-o", "-v", "-v", "tree", "maps", "--base=0x4000", "--output=out"] = .ok options ∧
      read ["-v", "tree", "maps", "-o", "-v", "--base=0x4000", "--output=out"] = .ok options := by
  have accepted : read ["-o", "-v", "-v", "tree", "maps", "--base=0x4000", "--output=out"] =
      .ok { source := "maps", formats := [.tree], outputDir? := some "out", verbose := true,
            defaults := { base := 0x4000 } } := by decide +kernel
  obtain ⟨-, -, -, -, moves⟩ := options_stand_anywhere accepted
  have may : Part.MayPass (.withValue "-o" "-v") [.alone "-v", .alone "tree", .alone "maps"] :=
    ⟨by decide +kernel, by decide +kernel⟩
  have moved := moves _ (Part.Moves.later [] [.alone "--base=0x4000", .alone "--output=out"] may)
  exact ⟨_, accepted, moved.2⟩

end Options

end AddressMap
