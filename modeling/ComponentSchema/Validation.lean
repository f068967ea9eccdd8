import ComponentSchema.Location
import ComponentSchema.Schema
import ComponentSchema.Violation

/-!
# Validation

A document is checked against a descriptor from top to bottom, and the first
violation is reported. A null is an absent value: a map without required items and
a list without a positive minimum accept it, and a primitive never does.

The `validate` of a descriptor and those of a map and of a list call one another. `check`
is all three of them, with their cases sorted by the form of the value so that the
recursion follows the document, and each of their loops is a function of its own.
-/

namespace ComponentSchema

namespace Validation

/-- Refuse the value at a location, as `fail` does. -/
def reject {α : Type} (place : Location) (violation : Violation) : Except ValidationError α :=
  .error ⟨place.render, violation⟩

/-- Check an absent value: what each `validate` does first. -/
def checkAbsent (descriptor : Descriptor) (place : Location) : Except ValidationError Unit :=
  match descriptor with
  | .primitive kind => reject place (.expectedType kind.name)
  | .map items => if items.required.isEmpty then .ok () else reject place .noComponents
  | .list type =>
      match type.min with
      | some min => if 0 < min then reject place (.tooFewItems min) else .ok ()
      | none => .ok ()
  | .incomplete => reject place .incompleteDefinition

/-- Every required item must be present: the end of the `validate` of a map, which looks
for a required item that was not seen. -/
def checkRequired (items : Items) (keys : List String) (place : Location) :
    Except ValidationError Unit :=
  match items.firstMissing? keys with
  | some item => reject place (.missingRequiredItem item.name)
  | none => .ok ()

/-- A list must not have more than `max` elements once `count` are read: the end of each
turn of the loop over the elements. -/
def checkMax (type : ListType) (count : Nat) (place : Location) : Except ValidationError Unit :=
  match type.max with
  | some max => if max < count then reject place (.tooManyItems max) else .ok ()
  | none => .ok ()

/-- A list must have at least `min` elements when all `count` are read: the end of the
`validate` of a list. -/
def checkMin (type : ListType) (count : Nat) (place : Location) : Except ValidationError Unit :=
  match type.min with
  | some min => if count < min then reject place (.tooFewItems min) else .ok ()
  | none => .ok ()

mutual

/-- Check a value: the `validate` of a descriptor, to which a null is an absent value. -/
def check (registry : Registry) (descriptor : Descriptor) (place : Location) :
    Tree → Except ValidationError Unit
  | .null => checkAbsent descriptor place
  | .map entries =>
      match descriptor with
      | .map items => do
          checkEntries registry items place entries
          checkRequired items (Entries.names entries) place
      | .primitive kind => reject place (.expectedType kind.name)
      | .list _ => reject place (.expectedType "list")
      | .incomplete => reject place .incompleteDefinition
  | .list elements =>
      match descriptor with
      | .list type => do
          checkElements registry type place 0 elements
          checkMin type elements.length place
      | .primitive kind => reject place (.expectedType kind.name)
      | .map _ => reject place (.expectedType "map")
      | .incomplete => reject place .incompleteDefinition
  | scalar =>
      match descriptor with
      | .primitive kind =>
          if kind.accepts scalar then .ok () else reject place (.expectedType kind.name)
      | .map _ => reject place (.expectedType "map")
      | .list _ => reject place (.expectedType "list")
      | .incomplete => reject place .incompleteDefinition
termination_by structural value => value

/-- Check the entries of a map in document order: the loop in the `validate` of a map. -/
def checkEntries (registry : Registry) (items : Items) (place : Location) :
    List (String × Tree) → Except ValidationError Unit
  | [] => .ok ()
  | (key, value) :: rest => do
      match items.find? key with
      | none => reject place (.unexpectedItem key)
      | some item => check registry (registry.resolve item.typeName) (place.key key) value
      checkEntries registry items place rest
termination_by structural entries => entries

/-- Check the elements of a list from `position` on: the loop in the `validate` of a list.
The maximum is checked after each element. -/
def checkElements (registry : Registry) (type : ListType) (place : Location) (position : Nat) :
    List Tree → Except ValidationError Unit
  | [] => .ok ()
  | element :: rest => do
      checkElement registry type place position element
      checkMax type (position + 1) place
      checkElements registry type place (position + 1) rest
termination_by structural elements => elements

/-- Check one element, a mapping from type names to values: one turn of that loop. -/
def checkElement (registry : Registry) (type : ListType) (place : Location) (position : Nat) :
    Tree → Except ValidationError Unit
  | .map tagged => checkTagged registry type place position tagged
  | _ => reject (place.index position) (.expectedType "map")
termination_by structural element => element

/-- Check the tagged values of an element: the inner loop in the `validate` of a list. A
tag that is not allowed is reported at the list, a value at the element. -/
def checkTagged (registry : Registry) (type : ListType) (place : Location) (position : Nat) :
    List (String × Tree) → Except ValidationError Unit
  | [] => .ok ()
  | (tag, value) :: rest => do
      if type.allows tag then
        check registry (registry.resolve tag) (place.index position) value
      else reject place (.unexpectedType tag)
      checkTagged registry type place position rest
termination_by structural tagged => tagged

end

end Validation

/-- Check a value, or its absence, against a descriptor. -/
def Descriptor.validate (descriptor : Descriptor) (registry : Registry) (place : Location)
    (value : Option Tree) : Except ValidationError Unit :=
  Validation.check registry descriptor place (value.getD .null)

/-- Check a document against a schema. -/
def Schema.validate (schema : Schema) (document : Tree) : Except ValidationError Unit :=
  Validation.check schema.registry schema.rootDescriptor Location.root document

end ComponentSchema
