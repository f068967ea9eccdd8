import ComponentSchema.Json.Token

/-!
# JSON documents

A document is one value and nothing after it. The containers that are open are kept
on a stack, which has a limited height. A repeated key keeps the position of its
first occurrence and takes the value of its last.
-/

namespace ComponentSchema.Json

/-- A container that is not closed yet. -/
inductive Open where
  /-- A list with its items so far in reverse. -/
  | list (items : List Tree)
  /-- A map with its entries so far and the key that waits for its value. -/
  | map (entries : List (String × Tree)) (key : String)

/-- What may come next. -/
inductive Expect where
  /-- A value, or the end of a list that has just been opened. -/
  | value (mayClose : Bool)
  /-- A key, or the end of a map that has just been opened. -/
  | key (entries : List (String × Tree)) (mayClose : Bool)
  /-- The colon after a key. -/
  | colon (entries : List (String × Tree)) (key : String)
  /-- What follows a finished value. -/
  | after (value : Tree)

/-- The greatest number of containers inside one another. -/
def maxDepth : Nat := 127

/-- One token in the given state. -/
def advance (stack : List Open) : Expect → Token → Option (List Open × Expect)
  | .value _, .string text => some (stack, .after (.string text))
  | .value _, .scalar value => some (stack, .after value)
  | .value _, .listOpen =>
      if stack.length < maxDepth then some (.list [] :: stack, .value true) else none
  | .value _, .mapOpen =>
      if stack.length < maxDepth then some (stack, .key [] true) else none
  | .value true, .listClose =>
      match stack with
      | .list items :: outer => some (outer, .after (.list items.reverse))
      | _ => none
  | .key entries _, .string text => some (stack, .colon entries text)
  | .key entries true, .mapClose => some (stack, .after (.map entries))
  | .colon entries key, .colon => some (.map entries key :: stack, .value false)
  | .after value, .comma =>
      match stack with
      | .list items :: outer => some (.list (value :: items) :: outer, .value false)
      | .map entries key :: outer => some (outer, .key (Entries.put entries key value) false)
      | [] => none
  | .after value, .listClose =>
      match stack with
      | .list items :: outer => some (outer, .after (.list (value :: items).reverse))
      | _ => none
  | .after value, .mapClose =>
      match stack with
      | .map entries key :: outer => some (outer, .after (.map (Entries.put entries key value)))
      | _ => none
  | _, _ => none

/-- The value that the rest of the tokens completes. -/
def build? : List Open → Expect → List Token → Option Tree
  | [], .after value, [] => some value
  | _, _, [] => none
  | stack, expect, token :: rest =>
      match advance stack expect token with
      | none => none
      | some (stack, expect) => build? stack expect rest

/-- Read a JSON text. -/
def parse? (text : String) : Option Tree := do
  build? [] (.value false) (← tokens? text)

end ComponentSchema.Json
