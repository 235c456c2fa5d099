/-!
# Access and format

How software may use a register or a field, and how its bits are to be read. Both pass from a
declaration to those below it.
-/

namespace AddressMap

set_option autoImplicit false

inductive Access where
  | readWrite
  | readOnly
  | writeOnly
deriving DecidableEq, Repr

inductive Format where
  | bits
  | signed
  | unsigned
deriving DecidableEq, Repr

namespace Access

def title : Access → String
  | readWrite => "ReadWrite"
  | readOnly => "ReadOnly"
  | writeOnly => "WriteOnly"

def isReadOnly : Access → Bool
  | readOnly => true
  | _ => false

def isWriteOnly : Access → Bool
  | writeOnly => true
  | _ => false

/-- The access of an element below `parent` that states the two restrictions or leaves them open.
One that is stated to hold lifts the other; both cannot hold. -/
def inherit? (parent : Access) : (readOnly? writeOnly? : Option Bool) → Option Access
  | some true, some true => none
  | some true, _ => some readOnly
  | _, some true => some writeOnly
  | some false, some false => some readWrite
  | some false, none => some (if parent = writeOnly then writeOnly else readWrite)
  | none, some false => some (if parent = readOnly then readOnly else readWrite)
  | none, none => some parent

end Access

namespace Format

def all : List Format := [bits, signed, unsigned]

def keyword : Format → String
  | bits => "bits"
  | signed => "signed"
  | unsigned => "unsigned"

def ofKeyword? (text : String) : Option Format :=
  all.find? (·.keyword == text)

theorem of_keyword_keyword (format : Format) : ofKeyword? format.keyword = some format := by
  cases format <;> decide

end Format

end AddressMap
