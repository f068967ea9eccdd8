import ComponentSchema.Command.Run

/-!
# The command

Reads the files that a command line names, runs it and prints what it answers.
-/

namespace ComponentSchema

/-- A system error by its number, which may be given with a minus sign. -/
def ReadFailure.ofCode (code : UInt32) (reason : String) : ReadFailure :=
  match if code.toNat < twoPow 31 then code.toNat else twoPow 32 - code.toNat with
  | 2 => .notFound
  | 20 => .notDirectory
  | 21 => .isDirectory
  | 36 => .nameTooLong
  | code => .other (reason.capitalize ++ " (os error " ++ toString code ++ ")")

/-- Why reading a file failed. -/
def ReadFailure.ofError : IO.Error → ReadFailure
  | .alreadyExists _ code reason | .otherError code reason | .resourceBusy code reason
  | .resourceVanished code reason | .unsupportedOperation code reason
  | .hardwareFault code reason | .unsatisfiedConstraints code reason
  | .illegalOperation code reason | .protocolError code reason | .timeExpired code reason
  | .interrupted _ code reason | .noFileOrDirectory _ code reason
  | .invalidArgument _ code reason | .permissionDenied _ code reason
  | .resourceExhausted _ code reason | .inappropriateType _ code reason
  | .noSuchThing _ code reason => .ofCode code reason
  | .unexpectedEof => .other "unexpected end of file"
  | .userError reason => .other reason

/-- Read a file. -/
def readFile (path : String) : IO (Except ReadFailure ByteArray) := do
  match ← (IO.FS.readBinFile path).toBaseIO with
  | .ok bytes => return .ok bytes
  | .error e => return .error (.ofError e)

/-- The files that have been read so far. -/
def filesRead (contents : List (String × Except ReadFailure ByteArray)) : FileSystem := fun path =>
  (Entries.get? contents path).getD (.error .notFound)

/-- Read the files of an action: the data only after a schema that is accepted. -/
def readFiles : Action → IO FileSystem
  | .check schema => return filesRead [(schema, ← readFile schema)]
  | .validate schema data => do
      let first := [(schema, ← readFile schema)]
      if (Report.check (filesRead first) schema).exit = 0 then
        return filesRead (first ++ [(data, ← readFile data)])
      else return filesRead first

end ComponentSchema

open ComponentSchema in
/-- Run the command. -/
def main (arguments : List String) : IO UInt32 := do
  let files ← match Request.ofArguments? arguments with
    | some (.run _ action) => readFiles action
    | _ => pure (filesRead [])
  let (lines, code) := run files arguments
  for line in lines do IO.println line
  return code.toUInt32
