import AddressMap.Text.Blank

/-!
# Wrapping

A paragraph is set in lines: a word joins the line before it unless the line would grow longer than
the width. Lengths are counted in bytes of UTF-8. A word longer than the width has a line of its own.
-/

namespace AddressMap

set_option autoImplicit false

/-- The lines of the words, the first of which continue the given line. -/
def fillLines (width : Nat) (line : String) : List String → List String
  | [] => [line]
  | word :: rest =>
      if width < line.utf8ByteSize + 1 + word.utf8ByteSize then
        line :: fillLines width word rest
      else fillLines width (line ++ " " ++ word) rest

def wrap (width : Nat) (text : String) : List String :=
  match words text with
  | [] => []
  | word :: rest => fillLines width word rest

end AddressMap
