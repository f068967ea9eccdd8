import ComponentSchema.Descriptor

/-!
# The registry

Named descriptors. Every descriptor that is built gets a number of its own; an
alias is bound to the very object of its target, so that two names share a number
exactly when they share a descriptor.
-/

namespace ComponentSchema

/-- A descriptor with its identity. -/
structure DescriptorObject where
  id : Nat
  descriptor : Descriptor
  deriving DecidableEq

/-- Names bound to descriptor objects, and the first number not given out yet. -/
structure Registry where
  bindings : List (String × DescriptorObject)
  nextId : Nat

namespace Registry

/-- The registry of the four primitive kinds, each under its name. -/
def primitives : Registry where
  bindings :=
    [("bool", ⟨0, .primitive .bool⟩), ("string", ⟨1, .primitive .string⟩),
      ("int", ⟨2, .primitive .int⟩), ("float", ⟨3, .primitive .float⟩)]
  nextId := 4

/-- The object bound to a name. -/
def get? (registry : Registry) (name : String) : Option DescriptorObject :=
  Entries.get? registry.bindings name

/-- Whether a name is bound, if only to a placeholder. -/
def contains (registry : Registry) (name : String) : Bool := (registry.get? name).isSome

/-- The descriptor of a name; an unbound name has the placeholder. -/
def resolve (registry : Registry) (name : String) : Descriptor :=
  match registry.get? name with
  | some object => object.descriptor
  | none => .incomplete

/-- Whether a name is bound to a finished descriptor. -/
def isResolved (registry : Registry) (name : String) : Bool :=
  !(registry.resolve name).isIncomplete

/-- The number of bound names. -/
def size (registry : Registry) : Nat := registry.bindings.length

/-- The bound names in the order of their characters' code points. -/
def typeNames (registry : Registry) : List String :=
  (Entries.names registry.bindings).mergeSort fun a b => a ≤ b

/-- Bind a name to an object that exists already. -/
def share (registry : Registry) (name : String) (object : DescriptorObject) : Registry :=
  { registry with bindings := Entries.put registry.bindings name object }

/-- Bind a name to a new object. -/
def bind (registry : Registry) (name : String) (descriptor : Descriptor) : Registry where
  bindings := Entries.put registry.bindings name ⟨registry.nextId, descriptor⟩
  nextId := registry.nextId + 1

/-- Bind a name to a new placeholder. -/
def reserve (registry : Registry) (name : String) : Registry := registry.bind name .incomplete

/-- Drop the binding of a name that is still a placeholder. -/
def release (registry : Registry) (name : String) : Registry :=
  if registry.contains name && (registry.resolve name).isIncomplete then
    { registry with bindings := Entries.erase registry.bindings name }
  else registry

end Registry

end ComponentSchema
