import ComponentSchema.Path

/-!
# Files

A file system is what reading each path gives. `Directory` is one that holds named
files and is the place from which paths start.
-/

namespace ComponentSchema

/-- Why a file cannot be read. -/
inductive ReadFailure where
  | notFound
  | notDirectory
  | isDirectory
  | nameTooLong
  | nulInName
  | invalidText
  /-- Any other reason, in words. -/
  | other (reason : String)
  deriving DecidableEq

/-- What is wrong, with the number by which systems know it. -/
def ReadFailure.message : ReadFailure → String
  | .notFound => "No such file or directory (os error 2)"
  | .notDirectory => "Not a directory (os error 20)"
  | .isDirectory => "Is a directory (os error 21)"
  | .nameTooLong => "File name too long (os error 36)"
  | .nulInName => "file name contained an unexpected NUL byte"
  | .invalidText => "stream did not contain valid UTF-8"
  | .other reason => reason

/-- What reading a path gives. -/
abbrev FileSystem := String → Except ReadFailure ByteArray

/-- The text of the file at a path. -/
def FileSystem.readText (files : FileSystem) (path : String) : Except ReadFailure String := do
  match String.fromUTF8? (← files path) with
  | some text => return text
  | none => throw .invalidText

/-- What a directory holds under a name. -/
inductive Content where
  | file (bytes : ByteArray)
  | directory

/-- A working directory: what it holds, by the steps that lead there. The
directories on the way to a file need no entry of their own. -/
abbrev Directory := List (List String × Content)

namespace Directory

/-- A place in or above a working directory. -/
inductive Place where
  | file (bytes : ByteArray)
  | directory (segments : List String)
  | above

/-- What has a name in a directory of the tree. -/
def lookup? (tree : Directory) (segments : List String) : Option Place :=
  match tree.find? fun entry => entry.1 = segments with
  | some (_, .file bytes) => some (.file bytes)
  | some (_, .directory) => some (.directory segments)
  | none =>
      if tree.any fun entry => segments.isPrefixOf entry.1 then some (.directory segments) else none

/-- A name has at most 255 bytes. -/
def isTooLong (name : String) : Bool := 255 < name.utf8ByteSize

/-- One step along a path. Only a directory can be left by a step, even by one that
stays where it is. -/
def step (tree : Directory) (place : Place) (segment : String) : Except ReadFailure Place :=
  match place with
  | .file _ => .error .notDirectory
  | .above =>
      if Path.isHere segment || segment = ".." then .ok .above
      else .error (if isTooLong segment then .nameTooLong else .notFound)
  | .directory segments =>
      if Path.isHere segment then .ok (.directory segments)
      else if segment = ".." then
        .ok (if segments.isEmpty then .above else .directory segments.dropLast)
      else if isTooLong segment then .error .nameTooLong
      else
        match tree.lookup? (segments ++ [segment]) with
        | some place => .ok place
        | none => .error .notFound

/-- Where a path leads. One that starts with a slash does not start in the working
directory. -/
def resolve (tree : Directory) (path : String) : Except ReadFailure Place :=
  match Path.segments path with
  | "" :: rest@(_ :: _) => rest.foldlM tree.step .above
  | segments => segments.foldlM tree.step (.directory [])

/-- Reading from a working directory. -/
def read (tree : Directory) : FileSystem := fun path =>
  if path.toList.contains '\x00' then .error .nulInName
  else if 4095 < path.utf8ByteSize then .error .nameTooLong
  else do
    match ← tree.resolve path with
    | .file bytes => .ok bytes
    | .directory _ | .above => .error .isDirectory

end Directory

end ComponentSchema
