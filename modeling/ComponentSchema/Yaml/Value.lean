import ComponentSchema.Text.Quoted
import ComponentSchema.Yaml.Number
import ComponentSchema.Yaml.Tag

/-!
# YAML values

What a YAML document means: scalars have their types, aliases are replaced, and
only tags of the document's own are left. Any value may be a key.
-/

namespace ComponentSchema.Yaml

/-- A YAML value. -/
inductive Value where
  | null
  | bool (value : Bool)
  | number (value : Number)
  | string (value : String)
  | sequence (items : List Value)
  | mapping (entries : List (Value × Value))
  | tagged (tag : String) (value : Value)
  deriving Inhabited

namespace Value

mutual

/-- Equality of keys. The order of the entries of a mapping does not count; its keys are
different from one another. -/
def same : Value → Value → Bool
  | .null, .null => true
  | .bool a, .bool b => a = b
  | .number a, .number b => a.same b
  | .string a, .string b => a = b
  | .sequence as, .sequence bs => sameItems as bs
  | .mapping as, .mapping bs => as.length = bs.length && entriesIn as bs
  | .tagged s a, .tagged t b => Tag.bareName s = Tag.bareName t && same a b
  | _, _ => false

/-- Equality item by item. -/
def sameItems : List Value → List Value → Bool
  | [], [] => true
  | a :: as, b :: bs => same a b && sameItems as bs
  | _, _ => false

/-- Whether every entry of the first list is in the second one. -/
def entriesIn : List (Value × Value) → List (Value × Value) → Bool
  | [], _ => true
  | (key, value) :: rest, bs =>
      bs.any (fun entry => same key entry.1 && same value entry.2) && entriesIn rest bs

end

/-- The text of a truth value. -/
def boolText (b : Bool) : String := if b then "true" else "false"

/-- The text of a scalar that can be a key by itself. -/
def scalarText? : Value → Option String
  | .string text => some text
  | .number n => some n.text
  | .bool b => some (boolText b)
  | _ => none

mutual

/-- A value written out with its type. -/
def describe : Value → String
  | .null => "Null"
  | .bool b => "Bool(" ++ boolText b ++ ")"
  | .number n => n.describe
  | .string text => "String(" ++ Text.quoted text ++ ")"
  | .sequence items => "Sequence [" ++ ", ".intercalate (describeItems items) ++ "]"
  | .mapping entries => "Mapping \x7b" ++ ", ".intercalate (describeEntries entries) ++ "\x7d"
  | .tagged tag value =>
      "TaggedValue \x7b tag: !" ++ Tag.bareName tag ++ ", value: " ++ describe value ++ " \x7d"

/-- The items written out. -/
def describeItems : List Value → List String
  | [] => []
  | item :: rest => describe item :: describeItems rest

/-- The entries written out. A scalar key stands by itself. -/
def describeEntries : List (Value × Value) → List String
  | [] => []
  | (key, value) :: rest =>
      let name := match key with
        | .string text => Text.quoted text
        | .number n => n.text
        | .bool b => boolText b
        | key => describe key
      (name ++ ": " ++ describe value) :: describeEntries rest

end

end Value

end ComponentSchema.Yaml
