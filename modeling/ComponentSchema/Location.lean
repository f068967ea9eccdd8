/-!
# Locations

Where in a document a value stands: the segments from the root down to it. The same
place as it comes about on the way down is a trail, in which each place is linked to the
one it was entered from; the text of a trail is found by going back up.
-/

namespace ComponentSchema

/-- One step into a document. -/
inductive Segment where
  /-- The member of a map under a key. -/
  | key (name : String)
  /-- The element of a list at an index. -/
  | index (position : Nat)
  deriving DecidableEq

/-- The text of one step. -/
def Segment.render : Segment → String
  | .key name => name
  | .index position => s!"items[{position}]"

/-- A place in a document, outermost step first. -/
abbrev Location := List Segment

namespace Location

/-- The place of the document itself. -/
def root : Location := []

/-- The member under `name` of the map at this place. -/
def key (place : Location) (name : String) : Location := place ++ [.key name]

/-- The element at `position` of the list at this place. -/
def index (place : Location) (position : Nat) : Location := place ++ [.index position]

/-- The number of steps from the root. -/
def depth (place : Location) : Nat := place.length

/-- The steps joined by dots. -/
def render (place : Location) : String := ".".intercalate (place.map Segment.render)

end Location

/-- A place that is linked to the one it was entered from. -/
inductive Trail where
  | root
  /-- The member under a key of the map at the parent. -/
  | key (parent : Trail) (name : String)
  /-- The element at an index of the list at the parent. -/
  | index (parent : Trail) (position : Nat)

namespace Trail

/-- The place without its links. -/
def place : Trail → Location
  | .root => .root
  | .key parent name => parent.place.key name
  | .index parent position => parent.place.index position

/-- The number of links up to the root. -/
def depth : Trail → Nat
  | .root => 0
  | .key parent _ | .index parent _ => parent.depth + 1

/-- The texts of the steps as they are met from the place up to the root, which has none. -/
def walk : Trail → List String
  | .root => []
  | .key parent name => Segment.render (.key name) :: parent.walk
  | .index parent position => Segment.render (.index position) :: parent.walk

/-- The texts of the walk turned round and joined by dots. -/
def render (trail : Trail) : String := ".".intercalate trail.walk.reverse

end Trail

end ComponentSchema
