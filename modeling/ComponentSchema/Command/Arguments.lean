/-!
# Command lines

A command line names a subcommand and its files. The verbosity flag may be repeated
and may stand before and after the subcommand; the later place wins if both have it.
The version flag only stands before the subcommand, and nothing after it is read.
-/

namespace ComponentSchema

/-- What a command line asks for. -/
inductive Action where
  | check (schema : String)
  | validate (schema data : String)
  deriving DecidableEq

/-- What a command line means. -/
inductive Request where
  | version
  /-- Do an action; the verbosity is the number of flags that count. -/
  | run (verbosity : Nat) (action : Action)
  deriving DecidableEq

namespace Arguments

/-- A word of the command line. -/
inductive Word where
  /-- The mark after which every word is a value. -/
  | endOfOptions
  | long (name : String)
  | flags (letters : List Char)
  | value (text : String)

/-- Words that start with a dash are options, except for the dash alone. -/
def Word.of (text : String) : Word :=
  match text.toList with
  | ['-', '-'] => .endOfOptions
  | '-' :: '-' :: name => .long (String.ofList name)
  | '-' :: c :: rest => .flags (c :: rest)
  | _ => .value text

/-- The arguments of a subcommand that have been read. -/
structure Operands where
  verbosity : Nat
  values : List String

/-- Read the words after the subcommand. No option but the verbosity flag is known
there, and no value is empty. -/
def operands? (onlyValues : Bool) (found : Operands) : List String → Option Operands
  | [] => some found
  | text :: rest =>
      match if onlyValues then .value text else Word.of text with
      | .endOfOptions => operands? true found rest
      | .long name =>
          if name = "verbose" then
            operands? onlyValues { found with verbosity := found.verbosity + 1 } rest
          else none
      | .flags letters =>
          if letters.all (· = 'v') then
            operands? onlyValues { found with verbosity := found.verbosity + letters.length } rest
          else none
      | .value text =>
          if text.isEmpty then none
          else operands? onlyValues { found with values := found.values ++ [text] } rest

/-- The action of a subcommand on its values. -/
def action? (subcommand : String) (values : List String) : Option Action :=
  match subcommand, values with
  | "check", [schema] => some (.check schema)
  | "validate", [schema, data] => some (.validate schema data)
  | _, _ => none

/-- A subcommand with the words after it; `before` flags stood before it. -/
def subcommand? (before : Nat) (name : String) (rest : List String) : Option Request := do
  let found ← operands? false ⟨0, []⟩ rest
  let verbosity := if found.verbosity = 0 then before else found.verbosity
  return .run verbosity (← action? name found.values)

/-- Flags up to one that is unknown or asks for the version. -/
inductive Flags where
  | counted (verbosity : Nat)
  | version
  | unknown

/-- Read flags that share a dash. -/
def Flags.read (verbosity : Nat) : List Char → Flags
  | [] => .counted verbosity
  | 'v' :: rest => Flags.read (verbosity + 1) rest
  | 'V' :: _ => .version
  | _ => .unknown

/-- Read a command line after `verbosity` flags. Nothing is the answer to one that
makes no sense. -/
def requestFrom? (verbosity : Nat) : List String → Option Request
  | [] => none
  | text :: rest =>
      match Word.of text with
      | .endOfOptions => none
      | .long name =>
          if name = "verbose" then requestFrom? (verbosity + 1) rest
          else if name = "version" then some .version
          else none
      | .flags letters =>
          match Flags.read verbosity letters with
          | .counted verbosity => requestFrom? verbosity rest
          | .version => some .version
          | .unknown => none
      | .value name => subcommand? verbosity name rest

end Arguments

/-- What a command line means. -/
def Request.ofArguments? (arguments : List String) : Option Request :=
  Arguments.requestFrom? 0 arguments

end ComponentSchema
