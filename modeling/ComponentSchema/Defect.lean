/-!
# Schema errors

What can be wrong with a definition, and where.
-/

namespace ComponentSchema

/-- The two cardinality bounds of a list definition. -/
inductive Bound where
  | min
  | max
  deriving DecidableEq

/-- The attribute that holds a bound. -/
def Bound.attribute : Bound → String
  | .min => "min"
  | .max => "max"

/-- A reason to refuse a definition. -/
inductive Defect where
  | noComponentDefinitions
  | incorrectSchemaType
  | noDefinition
  | definitionNotMap
  | noType
  | typeNotName
  | requiredNotBool
  | unknownType (name : String)
  | itemsNotList
  | componentIsNone
  | componentIsEmpty
  | duplicateItem (name : String)
  | noItemTypes
  | itemTypesNotList
  | emptyItemTypes
  | itemTypeNotName
  | boundNotInt (bound : Bound)
  | boundNegative (bound : Bound)
  | minGreaterThanMax
  | unresolvedType (name : String)
  deriving DecidableEq

/-- The wording of each defect. -/
def Defect.message : Defect → String
  | .noComponentDefinitions => "No component definitions found"
  | .incorrectSchemaType => "Incorrect schema type"
  | .noDefinition => "The component has no definition"
  | .definitionNotMap => "The component definition is not of type \"map\""
  | .noType => "The component has no type"
  | .typeNotName => "The component type attribute is not a type name"
  | .requiredNotBool => "The required attribute is not of type \"bool\""
  | .unknownType name => "Unknown type: \"" ++ name ++ "\""
  | .itemsNotList => "Component items definition list is not of type \"list\""
  | .componentIsNone => "Component is None"
  | .componentIsEmpty => "Component is empty"
  | .duplicateItem name => "Duplicate item: \"" ++ name ++ "\""
  | .noItemTypes => "The component has no \"item_types\" list"
  | .itemTypesNotList => "The item types definition is not of type \"list\""
  | .emptyItemTypes => "The component has empty \"item_types\" list"
  | .itemTypeNotName => "The item type is not a type name"
  | .boundNotInt bound => "The " ++ bound.attribute ++ " attribute is not of type \"int\""
  | .boundNegative bound =>
      "The " ++ bound.attribute ++ " attribute is not a non-negative integer"
  | .minGreaterThanMax => "The min attribute is greatr than max"
  | .unresolvedType name => "Unresolved type: \"" ++ name ++ "\""

/-- A refused definition: the dotted path of the enclosing components, and the
defect. -/
structure SchemaError where
  path : String
  defect : Defect
  deriving DecidableEq

namespace SchemaError

/-- A defect below the components named by `path`, outermost first. -/
def below (path : List String) (defect : Defect) : SchemaError :=
  ⟨".".intercalate path, defect⟩

/-- A defect of the schema as a whole. -/
def root (defect : Defect) : SchemaError := ⟨"", defect⟩

/-- The wording of the defect alone. -/
def message (e : SchemaError) : String := e.defect.message

/-- The line that reports the error. -/
def display (e : SchemaError) : String := "SchemaError - Path: " ++ e.path ++ " - " ++ e.message

end SchemaError

end ComponentSchema
