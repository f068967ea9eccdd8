import ComponentSchema.Tree

/-!
# Descriptors

The compiled form of one component type. A map or a list refers to the types of
its parts by name; the names are resolved in a registry, so that a type may refer
to itself.
-/

namespace ComponentSchema

/-- The built-in scalar kinds. -/
inductive PrimitiveKind where
  | bool
  | string
  | int
  | float
  deriving DecidableEq

namespace PrimitiveKind

/-- Every kind once. -/
def all : List PrimitiveKind := [.bool, .string, .int, .float]

/-- The type name of a kind. -/
def name : PrimitiveKind → String
  | .bool => "bool"
  | .string => "string"
  | .int => "int"
  | .float => "float"

/-- The kind with a type name, if it is one of a kind. -/
def ofName? (name : String) : Option PrimitiveKind :=
  all.find? fun kind => kind.name = name

/-- Whether a value is a scalar of exactly this kind; integers and floats are
not converted into each other. -/
def accepts : PrimitiveKind → Tree → Bool
  | .bool, .bool _ => true
  | .string, .string _ => true
  | .int, .int _ => true
  | .float, .float _ => true
  | _, _ => false

end PrimitiveKind

/-- One named component of a map. -/
structure Item where
  /-- The key of the component in a document. -/
  name : String
  /-- The name of the component's type in the registry. -/
  typeName : String
  /-- Whether a document must have the component. -/
  required : Bool
  deriving DecidableEq

/-- The text of an item. -/
def Item.render (item : Item) : String :=
  "MapItem(name=" ++ item.name ++ ",type=" ++ item.typeName ++ ",required="
    ++ (if item.required then "true" else "false") ++ ")"

/-- The components of a map in declaration order. -/
abbrev Items := List Item

namespace Items

/-- The item that a key stands for: the last one declared under the name. -/
def find? : Items → String → Option Item
  | [], _ => none
  | item :: rest, name =>
      match find? rest name with
      | some later => some later
      | none => if item.name = name then some item else none

/-- The index of the items: the position of the one that a key stands for. -/
def position? : Items → String → Option Nat
  | [], _ => none
  | item :: rest, name =>
      match position? rest name with
      | some later => some (later + 1)
      | none => if item.name = name then some 0 else none

/-- The names of the required items in order. -/
def required (items : Items) : List String :=
  (items.filter Item.required).map Item.name

/-- Whether some item has the name. -/
def declares (items : Items) (name : String) : Bool :=
  items.any fun item => item.name = name

/-- The first required item that no key stands for. A key stands for the last
item of its name, so an earlier item of the same name is always missing. -/
def firstMissing? : Items → List String → Option Item
  | [], _ => none
  | item :: rest, keys =>
      if item.required && !(keys.contains item.name && !declares rest item.name) then some item
      else firstMissing? rest keys

/-- Set the flag at the position of a key. -/
def mark (items : Items) (flags : List Bool) (key : String) : List Bool :=
  match items.position? key with
  | some position => flags.set position true
  | none => flags

/-- One flag for each item, set if some key stands for it. -/
def seen (items : Items) (keys : List String) : List Bool :=
  keys.foldl items.mark (List.replicate items.length false)

end Items

/-- A list whose elements are tagged with the name of their type. -/
structure ListType where
  itemTypes : List String
  min : Option Nat
  max : Option Nat
  deriving DecidableEq

namespace ListType

/-- Names in order of their first occurrence. -/
def dedup : List String → List String → List String
  | [], _ => []
  | name :: rest, seen =>
      if seen.contains name then dedup rest seen else name :: dedup rest (name :: seen)

/-- A list type in which a repeated item type counts once. -/
def of (itemTypes : List String) (min max : Option Nat) : ListType :=
  ⟨dedup itemTypes [], min, max⟩

/-- Whether elements may be tagged with the name. -/
def allows (list : ListType) (name : String) : Bool := list.itemTypes.contains name

end ListType

/-- A component type. -/
inductive Descriptor where
  | primitive (kind : PrimitiveKind)
  | map (items : Items)
  | list (type : ListType)
  /-- A type whose registration is in progress; it refuses every value. -/
  | incomplete
  deriving DecidableEq, Inhabited

namespace Descriptor

/-- Whether this is the placeholder of an unfinished type. -/
def isIncomplete : Descriptor → Bool
  | .incomplete => true
  | _ => false

def isMap : Descriptor → Bool
  | .map _ => true
  | _ => false

def isList : Descriptor → Bool
  | .list _ => true
  | _ => false

/-- The scalar kind of a primitive type. -/
def primitive? : Descriptor → Option PrimitiveKind
  | .primitive kind => some kind
  | _ => none

/-- A short word for the kind of type. -/
def kindName : Descriptor → String
  | .primitive kind => kind.name
  | .map _ => "map"
  | .list _ => "list"
  | .incomplete => "incomplete"

/-- The text of a descriptor. -/
def render : Descriptor → String
  | .primitive .bool => "BoolDescriptor"
  | .primitive .string => "StringDescriptor"
  | .primitive .int => "IntDescriptor"
  | .primitive .float => "FloatDescriptor"
  | .map items => "MapDescriptor(" ++ ",".intercalate (items.map Item.render) ++ ")"
  | .list type => "ListDescriptor(" ++ ",".intercalate type.itemTypes ++ ")"
  | .incomplete => "IncompleteTypeDescriptor"

end Descriptor

end ComponentSchema
