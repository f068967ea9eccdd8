import ComponentSchema.Registration

/-!
# Schemas

A definition compiles to the root map of its top-level components and a registry
of every type in it. Compilation registers the components in order and then links:
every type that an item or a list names must have a finished descriptor.
-/

namespace ComponentSchema

/-- A compiled definition. -/
structure Schema where
  /-- The top-level components, which are the items of the document itself. -/
  root : Items
  registry : Registry

namespace Schema

/-- The descriptor of a whole document. -/
def rootDescriptor (schema : Schema) : Descriptor := .map schema.root

/-- The number of registered types. -/
def size (schema : Schema) : Nat := schema.registry.size

/-- Each registered type in name order, with its descriptor. -/
def types (schema : Schema) : List (String × Descriptor) :=
  schema.registry.typeNames.map fun name => (name, schema.registry.resolve name)

end Schema

namespace Linking

/-- A name used in the type `owner` must have a finished descriptor: `check_reference`. -/
def checkReference (registry : Registry) (owner name : String) : Except SchemaError Unit :=
  if registry.isResolved name then .ok () else .error ⟨owner, .unresolvedType name⟩

/-- The names that a descriptor uses. -/
def references : Descriptor → List String
  | .map items => items.map Item.typeName
  | .list type => type.itemTypes
  | .primitive _ | .incomplete => []

/-- The type `owner` must be finished and use only finished types: `check_map` for a map,
and one turn of the loop of `link` for any type. -/
def checkType (registry : Registry) (owner : String) (descriptor : Descriptor) :
    Except SchemaError Unit :=
  match descriptor with
  | .incomplete => .error (.root (.unresolvedType owner))
  | descriptor => (references descriptor).forM (checkReference registry owner)

/-- The root map comes first, then every registered type in name order. -/
def link (root : Items) (registry : Registry) : Except SchemaError Unit := do
  checkType registry "" (.map root)
  registry.typeNames.forM fun name => checkType registry name (registry.resolve name)

end Linking

/-- What a compilation did: the registrations in order, and the schema or the
error it ended with. -/
structure Compilation where
  trace : List Registration
  outcome : Except SchemaError Schema

namespace Compilation

/-- A compilation that registered nothing. -/
def refused (defect : Defect) : Compilation := ⟨[], .error (.root defect)⟩

/-- Register the top-level components and link them. -/
def ofComponents (components : Components) : Compilation :=
  let (result, progress) :=
    Registration.addItems components (Registration.enter components) [] [] components
      |>.run.run Progress.start
  { trace := progress.trace
    outcome := do
      let root ← result
      Linking.link root progress.registry
      return ⟨root, progress.registry⟩ }

/-- Compile a definition. -/
def of : Tree → Compilation
  | .null | .map [] => refused .noComponentDefinitions
  | .map components => ofComponents components
  | _ => refused .incorrectSchemaType

end Compilation

/-- Compile a definition to a schema, or give the first error. -/
def compile (definition : Tree) : Except SchemaError Schema :=
  (Compilation.of definition).outcome

end ComponentSchema
