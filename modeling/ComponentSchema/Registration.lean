import ComponentSchema.Defect
import ComponentSchema.Registry

/-!
# Registration

Registering a component of a definition binds the name of its type. A map or a
list is bound under its dotted name, which is reserved by a placeholder while the
body is read; a reference to a top-level component registers that component first,
and a top-level reference shares the object of its target. A name that is bound is
never registered again, so a reference back into a body that is being read finds
the placeholder and goes on.

`register` and its companions read one definition from top to bottom. What they do
about a reference to a top-level component is a parameter, `enter`; `enterWithin`
ties the knot with a budget for the depth of such references.

The tasks of the compiler are `register`, `define`, `register_reference`,
`ensure_registered`, `build_map`, `add_item` and `build_list`. Of these `build_map` is
`mapBody`, `itemsOf`, `itemEntries` and `itemGroup` together, one for each layer of the
tree it goes through; `build_list` is `listBody` with the loop `itemTypes`; and
`register_reference` is `aliasTarget` at the top level and `enter` below it.
-/

namespace ComponentSchema

/-- A type that became registered. -/
inductive Registration where
  /-- A top-level component of a primitive kind. -/
  | primitiveAlias (name : String) (kind : PrimitiveKind)
  /-- A top-level component that refers to another one. -/
  | alias (name : String) (target : String)
  /-- A map or a list, by its dotted name and the word for its kind. -/
  | component (name : String) (kind : String)
  deriving DecidableEq

/-- The state of a compilation: what is registered, and the registrations in the
order in which they happened. -/
structure Progress where
  registry : Registry
  trace : List Registration

namespace Progress

/-- Nothing but the primitive kinds is registered. -/
def start : Progress := ⟨.primitives, []⟩

/-- Change the registry only. -/
def update (p : Progress) (f : Registry → Registry) : Progress :=
  { p with registry := f p.registry }

/-- Add a registration to the trace. -/
def record (p : Progress) (r : Registration) : Progress :=
  { p with trace := p.trace ++ [r] }

end Progress

/-- A step of a compilation. The progress made before an error stays. -/
abbrev Session := ExceptT SchemaError (StateM Progress)

/-- The top-level components of a definition. -/
abbrev Components := List (String × Tree)

namespace Registration

/-- Stop with a defect below the components named by `path`. -/
def refuse {α : Type} (path : List String) (defect : Defect) : Session α :=
  throw (SchemaError.below path defect)

/-- Whether a name is bound. -/
def isBound (name : String) : Session Bool := return (← get).registry.contains name

/-- The dotted name of a component, its `composite_name`. -/
def dottedName (path : List String) (name : String) : String :=
  if path.isEmpty then name else ".".intercalate path ++ "." ++ name

/-- The type name that a definition gives: how `register` reads the attribute `type`. -/
def typeNameOf (path : List String) (fields : List (String × Tree)) : Session String :=
  match Entries.get? fields "type" with
  | none => refuse path .noType
  | some (.string name) => pure name
  | some _ => refuse path .typeNotName

/-- Whether a definition makes its component required; it does unless it says
otherwise. This is how `register` reads the attribute `required`. -/
def requiredOf (path : List String) (fields : List (String × Tree)) : Session Bool :=
  match Entries.get? fields "required" with
  | none => pure true
  | some (.bool required) => pure required
  | some _ => refuse path .requiredNotBool

/-- A cardinality bound of a list definition, as `bound` reads it. -/
def boundOf (path : List String) (fields : List (String × Tree)) (bound : Bound) :
    Session (Option Nat) :=
  match Entries.get? fields bound.attribute with
  | none | some .null => pure none
  | some (.int n) => if 0 ≤ n then pure (some n.toNat) else refuse path (.boundNegative bound)
  | some _ => refuse path (.boundNotInt bound)

/-- A top-level component of a primitive kind shares the object of the kind: the branch
of `register` for a primitive. -/
def aliasPrimitive (name : String) (kind : PrimitiveKind) : Session Unit := do
  unless ← isBound name do
    match (← get).registry.get? kind.name with
    | none => pure ()
    | some object =>
        modify fun p => (p.record (.primitiveAlias name kind)).update (·.share name object)

/-- Run a step while `name` is reserved. If the step leaves the placeholder in
place, whether it succeeds or not, the name is free again. This is the `reserve` and
`release` around the work of `define` and of `register_reference`; `define` releases
after a failure only, but after a success its name is bound and nothing is released. -/
def reserving (name : String) (step : Session Unit) : Session Unit :=
  ExceptT.mk do
    modify (·.update (·.reserve name))
    let result ← step.run
    modify (·.update (·.release name))
    return result

/-- Bind `name` to the descriptor that `body` builds, unless it is bound already: `define`
with the test that `register` makes before it. -/
def define (name : String) (body : Session Descriptor) : Session Unit := do
  unless ← isBound name do
    reserving name do
      let descriptor ← body
      modify fun p =>
        (p.record (.component name descriptor.kindName)).update (·.bind name descriptor)

/-- A top-level component that refers to `target` shares the target's object. It
stays unbound if the target's registration is in progress; then it is registered
again when its own turn comes. This is `register_reference` with an empty path. -/
def aliasTarget (enter : String → Session Unit) (name target : String) : Session Unit := do
  unless ← isBound name do
    reserving name do
      enter target
      match (← get).registry.get? target with
      | none => pure ()
      | some object =>
          unless object.descriptor.isIncomplete do
            modify fun p => (p.record (.alias name target)).update (·.share name object)

/-- Register the types that a list definition allows: the loop of `build_list`. -/
def itemTypes (components : Components) (enter : String → Session Unit) (path : List String) :
    List Tree → Session (List String)
  | [] => pure []
  | .string name :: rest => do
      unless ← isBound name do
        unless Entries.contains components name do refuse path (.unknownType name)
        enter name
      return name :: (← itemTypes components enter path rest)
  | _ :: _ => refuse path .itemTypeNotName

/-- The descriptor of a list definition, what `build_list` returns. -/
def listBody (components : Components) (enter : String → Session Unit) (path : List String)
    (fields : List (String × Tree)) : Session Descriptor := do
  let names ←
    match Entries.get? fields "item_types" with
    | none | some .null => refuse path .noItemTypes
    | some (.list []) => refuse path .emptyItemTypes
    | some (.list entries) => itemTypes components enter path entries
    | some _ => refuse path .itemTypesNotList
  let min ← boundOf path fields .min
  let max ← boundOf path fields .max
  match min, max with
  | some low, some high => if high < low then refuse path .minGreaterThanMax
  | _, _ => pure ()
  return .list (.of names min max)

mutual

/-- Register a component, and give the name of its type and whether it is
required. A definition that is absent is refused where it is looked up, by
`enterWithin`. -/
def register (components : Components) (enter : String → Session Unit) (path : List String)
    (name : String) : Tree → Session (String × Bool)
  | .null => refuse path .noDefinition
  | .map fields => do
      let typeName ← typeNameOf path fields
      let required ← requiredOf path fields
      match PrimitiveKind.ofName? typeName with
      | some kind =>
          if path.isEmpty then aliasPrimitive name kind
          return (kind.name, required)
      | none =>
          if typeName = "map" then
            define (dottedName path name)
              (return .map (← mapBody components enter path name fields))
            return (dottedName path name, required)
          else if typeName = "list" then
            define (dottedName path name) (listBody components enter path fields)
            return (dottedName path name, required)
          else if Entries.contains components typeName then
            if path.isEmpty then aliasTarget enter name typeName else enter typeName
            return (typeName, required)
          else refuse path (.unknownType typeName)
  | _ => refuse path .definitionNotMap
termination_by structural definition => definition

/-- The items of a map definition: `build_map` from its lookup of the attribute `items`
on. The fields are searched here so that the recursion stays inside the definition. -/
def mapBody (components : Components) (enter : String → Session Unit) (path : List String)
    (owner : String) : List (String × Tree) → Session Items
  | [] => refuse path .noComponentDefinitions
  | (key, value) :: rest =>
      if key = "items" then itemsOf components enter path owner value
      else mapBody components enter path owner rest
termination_by structural fields => fields

/-- The items that an `items` attribute declares: the cases of `build_map` by its kind. -/
def itemsOf (components : Components) (enter : String → Session Unit) (path : List String)
    (owner : String) : Tree → Session Items
  | .null | .list [] => refuse path .noComponentDefinitions
  | .list entries => itemEntries components enter path owner [] entries
  | _ => refuse path .itemsNotList
termination_by structural items => items

/-- The items of a sequence of groups, after those already `declared`: the outer loop of
`build_map`. -/
def itemEntries (components : Components) (enter : String → Session Unit) (path : List String)
    (owner : String) (declared : Items) : List Tree → Session Items
  | [] => pure declared
  | entry :: rest => do
      let declared ← itemGroup components enter path owner declared entry
      itemEntries components enter path owner declared rest
termination_by structural entries => entries

/-- The items of one group, a mapping from names to definitions: one turn of the outer
loop of `build_map`. -/
def itemGroup (components : Components) (enter : String → Session Unit) (path : List String)
    (owner : String) (declared : Items) : Tree → Session Items
  | .null => refuse path .componentIsNone
  | .map [] => refuse path .componentIsEmpty
  | .map group => addItems components enter (path ++ [owner]) declared group
  | _ => refuse path .definitionNotMap
termination_by structural entry => entry

/-- Register named definitions as items, after those already `declared`: an `add_item`
for each, in the inner loop of `build_map` and at the top level in `compile`. -/
def addItems (components : Components) (enter : String → Session Unit) (path : List String)
    (declared : Items) : List (String × Tree) → Session Items
  | [] => pure declared
  | (name, definition) :: rest => do
      if declared.declares name then refuse path (.duplicateItem name)
      let (typeName, required) ← register components enter path name definition
      addItems components enter path (declared ++ [⟨name, typeName, required⟩]) rest
termination_by structural group => group

end

/-- Register the top-level component `name` unless its name is bound, as
`ensure_registered` does, following references to other top-level components at most
`budget` deep; deeper ones are left to `beyond`. -/
def enterWithin (components : Components) (beyond : String → Session Unit) :
    Nat → String → Session Unit
  | 0, name => beyond name
  | budget + 1, name => do
      unless ← isBound name do
        match Entries.get? components name with
        | none => refuse [] .noDefinition
        | some definition =>
            discard <| register components (enterWithin components beyond budget) [] name definition

/-- Register a top-level component: `ensure_registered`. Each reference followed reserves
one more top-level name, so the number of components bounds the depth. -/
def enter (components : Components) : String → Session Unit :=
  enterWithin components (fun _ => pure ()) components.length

end Registration

end ComponentSchema
