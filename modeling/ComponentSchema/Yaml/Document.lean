import ComponentSchema.Yaml.Node
import ComponentSchema.Yaml.Resolution
import ComponentSchema.Yaml.Token.Lexer

/-!
# YAML documents

The value of a node: scalars are resolved, aliases are replaced by the value of what
they name, and no key is repeated. Collections nest up to a fixed depth, and aliases
are replaced a number of times that the size of the document allows.

Expansion recurses on the node. What an alias names lies elsewhere in the document,
so it is expanded through a function handed in, and a budget of jumps ties the knot.
-/

namespace ComponentSchema.Yaml

namespace Node

/-- The anchor of the node, if it has one. -/
def anchor? : Node → Option Nat
  | .alias _ => none
  | .scalar p _ _ | .sequence p _ | .mapping p _ => p.anchor

mutual

/-- The number of steps in which the node is written: a collection has one for each
of its ends. -/
def extent : Node → Nat
  | .alias _ | .scalar .. => 1
  | .sequence _ items => 2 + itemsExtent items
  | .mapping _ entries => 2 + entriesExtent entries

def itemsExtent : List Node → Nat
  | [] => 0
  | item :: rest => item.extent + itemsExtent rest

def entriesExtent : List (Node × Node) → Nat
  | [] => 0
  | (key, value) :: rest => key.extent + value.extent + entriesExtent rest

end

mutual

/-- The node and all nodes inside it, in the order in which they start. -/
def nodes : Node → List Node
  | .sequence p items => .sequence p items :: itemsNodes items
  | .mapping p entries => .mapping p entries :: entriesNodes entries
  | node => [node]

def itemsNodes : List Node → List Node
  | [] => []
  | item :: rest => item.nodes ++ itemsNodes rest

def entriesNodes : List (Node × Node) → List Node
  | [] => []
  | (key, value) :: rest => key.nodes ++ value.nodes ++ entriesNodes rest

end

/-- The last node anchored in a slot. -/
def target? (root : Node) (slot : Nat) : Option Node :=
  root.nodes.reverse.find? fun node => node.anchor? = some slot

end Node

/-- Expansion counts the aliases replaced so far. -/
abbrev Expansion := StateT Nat Option

namespace Expansion

/-- Collections nest at most this deep. -/
def maxDepth : Nat := 128

/-- A collection inside `depth` others. -/
def nested (depth : Nat) : Expansion Unit := if depth < maxDepth then pure () else failure

/-- A value under the tag of its node, if that is one of the document's own. -/
def underTag (p : Properties) (value : Value) : Value :=
  match p.tag.bind Tag.localName? with
  | some name => .tagged name value
  | none => value

variable (follow : Nat → Nat → Expansion Value)

mutual

/-- The value of a node inside `depth` collections; `follow` expands what a slot
holds. -/
def expand (depth : Nat) : Node → Expansion Value
  | .alias slot => follow slot depth
  | .scalar p text plain =>
      return underTag p (← (Resolution.scalar? p.tag text plain : Option Value))
  | .sequence p items => do
      nested depth
      return underTag p (.sequence (← expandItems (depth + 1) items))
  | .mapping p entries => do
      nested depth
      return underTag p (.mapping (← expandEntries (depth + 1) [] entries))

/-- The values of the items of a sequence. -/
def expandItems (depth : Nat) : List Node → Expansion (List Value)
  | [] => return []
  | item :: rest => return (← expand depth item) :: (← expandItems depth rest)

/-- The entries of a mapping after the ones that are `done`. -/
def expandEntries (depth : Nat) (done : List (Value × Value)) :
    List (Node × Node) → Expansion (List (Value × Value))
  | [] => return done
  | (key, value) :: rest => do
      let key ← expand depth key
      if done.any fun entry => entry.1.same key then failure
      let value ← expand depth value
      expandEntries depth (done ++ [(key, value)]) rest

end

/-- Expand what a slot of the document holds, with aliases at most `jumps` deep in
one another. -/
def followWithin (root : Node) : Nat → Nat → Nat → Expansion Value
  | 0, _, _ => failure
  | jumps + 1, slot, depth => do
      let count ← get
      if 100 * root.extent ≤ count then failure
      set (count + 1)
      match root.target? slot with
      | some node => expand (followWithin root jumps) depth node
      | none => failure

/-- The value of the node of a document. An alias never names an alias, so two jumps
have a collection between them, and the depth bounds the jumps. -/
def value? (root : Node) : Option Value :=
  (expand (followWithin root (maxDepth + 2)) 0 root).run' 0

end Expansion

/-- Read a YAML text. -/
def parse? (text : String) : Option Value := do
  Expansion.value? (← Node.ofTokens? (← tokens? text))

end ComponentSchema.Yaml
