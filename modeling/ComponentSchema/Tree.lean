import ComponentSchema.Binary64.Basic
import ComponentSchema.Entries

/-!
# Document trees

The generic tree that definitions and documents are read into. Integers and
floats are different kinds. The entries of a map keep their order, and a reader
never repeats a key.
-/

namespace ComponentSchema

/-- A document tree. -/
inductive Tree where
  | null
  | bool (value : Bool)
  | int (value : Int)
  | float (value : Binary64)
  | string (value : String)
  | list (items : List Tree)
  | map (entries : List (String × Tree))
  deriving Inhabited

namespace Tree

/-- The integers a tree may hold: those of a signed or an unsigned 64-bit word. -/
def intFits (n : Int) : Bool := -9223372036854775808 ≤ n ∧ n < 18446744073709551616

/-- The value under `key`, if the tree is a map that has one. -/
def get? : Tree → String → Option Tree
  | .map entries, key => Entries.get? entries key
  | _, _ => none

end Tree

end ComponentSchema
