import AddressMap.Diagnostic.Code
import AddressMap.Kind
import AddressMap.Path
import AddressMap.Space.Error

/-!
# Faults of a description

A build error is a fault with the path of the element that has it. Faults are causes; `message` is
the one place that words them.
-/

namespace AddressMap

set_option autoImplicit false

inductive OffsetFault where
  /-- None is stated, and the placer chooses none. -/
  | notStated (size : Nat)
  /-- The range would pass the largest address. -/
  | overflow (start size : Nat)
  /-- The element counts its offset in another unit than the container. -/
  | otherUnit (child : Kind) (inner : AddressUnit) (container : Kind) (outer : AddressUnit)
deriving DecidableEq, Repr

inductive WidthFault where
  | notWord
  | notInWord (wordWidth : Nat)
deriving DecidableEq, Repr

inductive RangeFault where
  | overlap (start stop blockerStart blockerStop : Nat)
  | outside (start stop width : Nat)
  | reset (value width : Nat)
  | value (value size : Nat)
  /-- The largest value is taken, and none follows it. -/
  | noValueLeft
  | other (reason : String)
deriving DecidableEq, Repr

inductive AttributeFault where
  | unknown (kind : Kind)
  | notNumber (text : String)
  | zero
  | notTruth (text : String)
  | notFormat (text : String)
  /-- Neither reading nor writing would be left. -/
  | bothRestrictions
  | registerSize (size : Nat)
  | framesOverflow (count framesize : Nat)
  | componentTooLarge (name : String)
  | other (reason : String)
deriving DecidableEq, Repr

inductive StructureFault where
  | missing (kind : Kind) (attr : Attribute)
  | missingCount
  | otherKind (expected found : Kind)
  | notRoot (kind : Kind)
  | misplaced (child container : Kind)
  | templateCount (template : Kind) (found : Nat)
  | namelessArray
  | other (reason : String)
deriving DecidableEq, Repr

inductive Fault where
  | overlap (start size blockerStart blockerSize : Nat)
  | undersized (declared required : Nat)
  | unresolvableOffset (cause : OffsetFault)
  | invalidWidth (width : Nat) (cause : WidthFault)
  | fieldRange (cause : RangeFault)
  | duplicateName (name : String)
  | unknownComponent (name : String)
  | arraySize (declared framesize count : Nat)
  | invalidAttribute (key : String) (cause : AttributeFault)
  | invalidStructure (cause : StructureFault)
deriving DecidableEq, Repr

structure BuildError where
  path : Path
  fault : Fault
deriving DecidableEq, Repr

/-- A value, or the first error on the way to it. -/
abbrev Build (α : Type) := Except BuildError α

namespace OffsetFault

def message : OffsetFault → String
  | notStated size => (SpaceError.unresolvableOffset size).message
  | overflow start size => (SpaceError.addressOverflow start size).message
  | otherUnit child inner container outer =>
      s!"a {child.keyword} is addressed in {inner.text} but a {container.keyword} " ++
        s!"is addressed in {outer.text}"

end OffsetFault

namespace WidthFault

def message : WidthFault → String
  | notWord => "must be a power of two of at least 8"
  | notInWord wordWidth => s!"must be between 1 and the word width {wordWidth}"

end WidthFault

namespace RangeFault

def message : RangeFault → String
  | overlap start stop blockerStart blockerStop =>
      s!"bits {start}..{stop} overlap bits {blockerStart}..{blockerStop}"
  | outside start stop width => s!"bits {start}..{stop} exceed the {width}-bit register"
  | reset given width => s!"reset value {hex given} does not fit in {width} bits"
  | value given size => s!"value {given} does not fit in the {size}-bit field"
  | noValueLeft => "no value left after the largest so far"
  | other reason => reason

end RangeFault

namespace AttributeFault

def message : AttributeFault → String
  | unknown kind => s!"not an attribute of a {kind.keyword}"
  | notNumber text => s!"`{text}` is not an unsigned integer"
  | zero => "must be at least 1"
  | notTruth text => s!"`{text}` is not a boolean"
  | notFormat text => s!"`{text}` is not one of bits, signed, unsigned"
  | bothRestrictions => "an element cannot be both readOnly and writeOnly"
  | registerSize size => s!"a register occupies exactly one word, not {size}"
  | framesOverflow count framesize =>
      s!"{count} frames of {framesize} overflow the address space"
  | componentTooLarge name => s!"component `{name}` does not fit in a 64-bit byte address space"
  | other reason => reason

end AttributeFault

namespace StructureFault

def message : StructureFault → String
  | missing kind attr => s!"a {kind.keyword} requires the `{attr.key}` attribute"
  | missingCount => "an array requires the `count` attribute"
  | otherKind expected found => s!"expected a {expected.keyword}, found a {found.keyword}"
  | notRoot kind => s!"a {kind.keyword} cannot be a root; only components and memory maps can"
  | misplaced child container =>
      s!"a {child.keyword} cannot appear inside a {container.keyword}"
  | templateCount template found =>
      s!"an array needs exactly one {template.keyword} template, found {found}"
  | namelessArray => "an array needs a name, either its own or its template's"
  | other reason => reason

end StructureFault

namespace Fault

/-- The fault of the element that a space could not place, or whose space it could not size. -/
def ofSpaceError : SpaceError → Fault
  | .overlap start size blockerStart blockerSize => overlap start size blockerStart blockerSize
  | .undersized declared required => undersized declared required
  | .unresolvableOffset size => unresolvableOffset (.notStated size)
  | .addressOverflow start size => unresolvableOffset (.overflow start size)

def code : Fault → ErrorCode
  | overlap .. => .overlap
  | undersized .. => .undersized
  | unresolvableOffset .. => .unresolvableOffset
  | invalidWidth .. => .invalidWidth
  | fieldRange .. => .fieldRange
  | duplicateName .. => .duplicateName
  | unknownComponent .. => .unknownComponent
  | arraySize .. => .arraySize
  | invalidAttribute .. => .invalidAttribute
  | invalidStructure .. => .invalidStructure

end Fault

namespace BuildError

def code (error : BuildError) : ErrorCode :=
  error.fault.code

def message (error : BuildError) : String :=
  let path := error.path.text
  match error.fault with
  | .overlap start size blockerStart blockerSize =>
      s!"`{path}` at {hex start} (size {size}) overlaps the element at " ++
        s!"{hex blockerStart} (size {blockerSize})"
  | .undersized declared required =>
      s!"`{path}` is declared with size {declared} but its contents need {required}"
  | .unresolvableOffset cause => s!"cannot determine an offset for `{path}`: {cause.message}"
  | .invalidWidth width cause => s!"`{path}` has invalid width {width}: {cause.message}"
  | .fieldRange cause => s!"`{path}` is out of range: {cause.message}"
  | .duplicateName name => s!"`{path}` reuses the name `{name}`"
  | .unknownComponent name => s!"`{path}` binds unknown component `{name}`"
  | .arraySize declared framesize count =>
      s!"`{path}` declares size {declared} but framesize {framesize} times count {count} is " ++
        s!"{framesize * count}"
  | .invalidAttribute key cause => s!"`{path}` attribute `{key}`: {cause.message}"
  | .invalidStructure cause => s!"`{path}`: {cause.message}"

end BuildError

end AddressMap
