/-!
# Paths

A path is a text whose segments are divided by slashes. Empty segments and single
dots do not name anything.
-/

namespace ComponentSchema.Path

/-- Divide characters at a mark. -/
def splitAt (mark : Char) : List Char → List (List Char)
  | [] => [[]]
  | c :: rest =>
      if c = mark then [] :: splitAt mark rest
      else
        match splitAt mark rest with
        | part :: others => (c :: part) :: others
        | [] => [[c]]

/-- The segments of a path, empty ones included. -/
def segments (path : String) : List String := (splitAt '/' path.toList).map String.ofList

/-- A segment that stays where it is. -/
def isHere (segment : String) : Bool := segment = "" || segment = "."

/-- The segments that lead somewhere. -/
def steps (path : String) : List String := (segments path).filter fun s => !isHere s

/-- The name that the path ends with, if it does not end with a step upwards. -/
def fileName? (path : String) : Option String :=
  match (steps path).getLast? with
  | some ".." | none => none
  | some name => some name

/-- What follows the last dot of the file name. A dot at its very start does not
count, unless another one follows it. -/
def extension? (path : String) : Option String := do
  let parts := splitAt '.' (← fileName? path).toList
  match parts with
  | [_] | [[], _] => none
  | parts => parts.getLast?.map String.ofList

end ComponentSchema.Path
