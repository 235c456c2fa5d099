import AddressMap.Text.Numeral

/-!
# Kinds

The nine kinds of declarations and of the elements built from them, the unit in which each kind is
addressed, and the attributes that each kind may carry.
-/

namespace AddressMap

set_option autoImplicit false

inductive AddressUnit where
  /-- Bits of a register. -/
  | bits
  /-- Words of a component. -/
  | words
  /-- Bytes of a memory map. -/
  | bytes
deriving DecidableEq, Repr

def AddressUnit.text : AddressUnit → String
  | bits => "bits"
  | words => "words"
  | bytes => "bytes"

inductive Kind where
  | component
  | registerArray
  | register
  | fieldArray
  | field
  | enumValue
  | memoryMap
  | instanceArray
  | componentInstance
deriving DecidableEq, Repr

/-- An attribute that some kind of declaration may carry. -/
inductive Attribute where
  | name
  | readOnly
  | writeOnly
  | format
  | offset
  | size
  | width
  | reset
  | count
  | framesize
  | base
  | componentName
  | value
deriving DecidableEq, Repr

def Attribute.key : Attribute → String
  | name => "name"
  | readOnly => "readOnly"
  | writeOnly => "writeOnly"
  | format => "format"
  | offset => "offset"
  | size => "size"
  | width => "width"
  | reset => "reset"
  | count => "count"
  | framesize => "framesize"
  | base => "base"
  | componentName => "extern"
  | value => "value"

theorem Attribute.key_injective {first second : Attribute} (same : first.key = second.key) :
    first = second := by
  revert same
  cases first <;> cases second <;> decide

namespace Kind

def all : List Kind :=
  [component, registerArray, register, fieldArray, field, enumValue, memoryMap, instanceArray,
    componentInstance]

def keyword : Kind → String
  | component => "component"
  | registerArray => "registerarray"
  | register => "register"
  | fieldArray => "fieldarray"
  | field => "field"
  | enumValue => "enum"
  | memoryMap => "memorymap"
  | instanceArray => "instancearray"
  | componentInstance => "instance"

def title : Kind → String
  | component => "Component"
  | registerArray => "RegisterArray"
  | register => "Register"
  | fieldArray => "FieldArray"
  | field => "Field"
  | enumValue => "Enum"
  | memoryMap => "MemoryMap"
  | instanceArray => "InstanceArray"
  | componentInstance => "Instance"

def ofKeyword? (text : String) : Option Kind :=
  all.find? (·.keyword == text)

/-- The unit of the kind's own offset. Roots and enum values have no offset. -/
def unit? : Kind → Option AddressUnit
  | registerArray | register => some .words
  | fieldArray | field => some .bits
  | instanceArray | componentInstance => some .bytes
  | component | enumValue | memoryMap => none

/-- The unit of the offsets of the children, if these are laid out in a space. -/
def spaceUnit? : Kind → Option AddressUnit
  | component | registerArray => some .words
  | register | fieldArray => some .bits
  | memoryMap | instanceArray => some .bytes
  | field | enumValue | componentInstance => none

def isArray : Kind → Bool
  | registerArray | fieldArray | instanceArray => true
  | _ => false

def isRoot : Kind → Bool
  | component | memoryMap => true
  | _ => false

/-- The attributes of the kind beside those that every kind has. -/
def ownAttributes : Kind → List Attribute
  | component => [.width, .size]
  | registerArray | fieldArray | instanceArray => [.offset, .count, .framesize, .size]
  | register => [.offset, .size, .width, .reset]
  | field => [.offset, .size]
  | enumValue => [.value]
  | memoryMap => [.base, .width, .size]
  | componentInstance => [.offset, .componentName]

def attributes (kind : Kind) : List Attribute :=
  [.name, .readOnly, .writeOnly, .format] ++ kind.ownAttributes

/-- The kind that a text names, in any case. -/
def read (text : String) : Except String Kind :=
  match all.find? (equalIgnoringCase ·.keyword text) with
  | some kind => .ok kind
  | none => .error s!"unknown element kind `{text}`"

theorem of_keyword_keyword (kind : Kind) : ofKeyword? kind.keyword = some kind := by
  cases kind <;> decide

end Kind

end AddressMap
