/-!
# Error codes

Every failure that is reported about a description has a code, whose first digit tells the phase in
which it was found.
-/

namespace AddressMap

set_option autoImplicit false

inductive Phase where
  | placement
  | construction
  | binding
  | traversal
deriving DecidableEq, Repr

namespace Phase

def all : List Phase := [placement, construction, binding, traversal]

end Phase

inductive ErrorCode where
  | overlap
  | undersized
  | unresolvableOffset
  | invalidWidth
  | fieldRange
  | duplicateName
  | arraySize
  | invalidAttribute
  | invalidStructure
  | unknownComponent
  | unhandledKind
  | outputFailure
deriving DecidableEq, Repr

namespace ErrorCode

def all : List ErrorCode :=
  [overlap, undersized, unresolvableOffset, invalidWidth, fieldRange, duplicateName, arraySize,
    invalidAttribute, invalidStructure, unknownComponent, unhandledKind, outputFailure]

def text : ErrorCode → String
  | overlap => "E1001"
  | undersized => "E1002"
  | unresolvableOffset => "E1003"
  | invalidWidth => "E2001"
  | fieldRange => "E2002"
  | duplicateName => "E2003"
  | arraySize => "E2004"
  | invalidAttribute => "E2005"
  | invalidStructure => "E2006"
  | unknownComponent => "E3001"
  | unhandledKind => "E4001"
  | outputFailure => "E4002"

def phase : ErrorCode → Phase
  | overlap | undersized | unresolvableOffset => .placement
  | invalidWidth | fieldRange | duplicateName | arraySize | invalidAttribute | invalidStructure =>
      .construction
  | unknownComponent => .binding
  | unhandledKind | outputFailure => .traversal

def title : ErrorCode → String
  | overlap => "overlapping elements"
  | undersized => "declared size too small"
  | unresolvableOffset => "unresolvable offset"
  | invalidWidth => "invalid width"
  | fieldRange => "value out of field range"
  | duplicateName => "duplicate name"
  | arraySize => "array size mismatch"
  | invalidAttribute => "invalid attribute"
  | invalidStructure => "invalid structure"
  | unknownComponent => "unknown component"
  | unhandledKind => "unhandled element kind"
  | outputFailure => "output failure"

end ErrorCode

end AddressMap
