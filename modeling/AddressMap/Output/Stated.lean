import AddressMap.Element.Tree
import AddressMap.Text.Numeral

/-!
# Attributes of elements

Every element can state again the attributes that its declaration states or leaves open. `stated`
lists those that tell its place and size, as they are written in a declaration.
-/

namespace AddressMap

set_option autoImplicit false

namespace ElementArray

def stated {α : Type} (array : ElementArray α) : List (Attribute × String) :=
  [(.offset, toString array.offset), (.count, toString array.count),
    (.framesize, toString array.framesize), (.size, toString array.size)]

end ElementArray

namespace Element

/-- The attributes of an element beside its name, access and format. -/
def stated : Element → List (Attribute × String)
  | component element =>
      [(.width, toString element.width), (.size, toString element.size)]
  | registerArray element => element.stated
  | register element =>
      [(.offset, toString element.offset), (.width, toString element.width),
        (.reset, hex element.reset)]
  | fieldArray element => element.stated
  | field element => [(.offset, toString element.offset), (.size, toString element.size)]
  | enumValue element => [(.value, toString element.value)]
  | memoryMap element =>
      [(.base, hex element.base), (.width, toString element.width), (.size, toString element.size)]
  | instanceArray element => element.stated
  | componentInstance element =>
      [(.offset, toString element.offset), (.componentName, element.componentName)]

end Element

end AddressMap
