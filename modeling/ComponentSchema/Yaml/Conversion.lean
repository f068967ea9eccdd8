import ComponentSchema.Tree
import ComponentSchema.Yaml.Value

/-!
# YAML values as document trees

Tags are looked through. Scalar keys become their texts; keys whose texts are equal
share an entry, at the place of the first and with the value of the last. What a
tree cannot hold is refused, at the first place where it occurs.
-/

namespace ComponentSchema.Yaml

/-- Why a value has no document tree. -/
inductive ConversionError where
  | nonFinite (value : Binary64)
  | unsupportedNumber (value : Number)
  | unsupportedKey (key : Value)

namespace ConversionError

/-- The name of a float that is not finite. -/
def floatName (x : Binary64) : String :=
  if x.isNaN then "NaN" else if x.isNegative then "-inf" else "inf"

/-- What is wrong. -/
def message : ConversionError → String
  | .nonFinite x => "cannot represent float " ++ floatName x ++ " in a document tree"
  | .unsupportedNumber n => "unsupported YAML number: " ++ n.describe
  | .unsupportedKey key => "unsupported YAML map key: " ++ key.describe

end ConversionError

/-- The document tree of a number. A signed word is preferred to an unsigned one, and a word
to a double, so that no integer is rounded; a double has to be finite. -/
def Number.toTree (n : Number) : Except ConversionError Tree :=
  match n.asI64? with
  | some word => .ok (.int word.toInt)
  | none =>
      match n.asU64? with
      | some word => .ok (.int word.toNat)
      | none =>
          match n.asF64? with
          | some x => if x.isFinite then .ok (.float x) else .error (.nonFinite x)
          -- every number has the view as a double, so this is never reached
          | none => .error (.unsupportedNumber n)

namespace Value

/-- The text of a key. -/
def keyText (key : Value) : Except ConversionError String :=
  match key.scalarText? with
  | some text => .ok text
  | none => .error (.unsupportedKey key)

mutual

/-- The document tree of a value. -/
def toTree : Value → Except ConversionError Tree
  | .null => .ok .null
  | .bool b => .ok (.bool b)
  | .number n => n.toTree
  | .string text => .ok (.string text)
  | .sequence items => do return .list (← toTrees items)
  | .mapping entries => do return .map (← addEntries [] entries)
  | .tagged _ value => toTree value

/-- The document trees of items in order. -/
def toTrees : List Value → Except ConversionError (List Tree)
  | [] => .ok []
  | item :: rest => do
      let tree ← toTree item
      return tree :: (← toTrees rest)

/-- Put entries after the ones that are `done`. -/
def addEntries (done : List (String × Tree)) :
    List (Value × Value) → Except ConversionError (List (String × Tree))
  | [] => .ok done
  | (key, value) :: rest => do
      let name ← keyText key
      let tree ← toTree value
      addEntries (Entries.put done name tree) rest

end

end Value

end ComponentSchema.Yaml
