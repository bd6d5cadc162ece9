/-!
# Options on a command line

Reading of options that are declared in a table. A value may follow its option as the next
argument, after an equals sign, or, for a short option, directly. An option whose value stands in
the next argument is settled only when the next option or the end is reached, so of two errors the
later one on the line may be the one that is found.

* `parseOptions` gives the options of a line with their values, in order.
-/

namespace ArrayBridge.CommandLine

/-- Why a command line is not accepted, or asks for something else. -/
inductive UsageError where
  | displayHelp
  | displayHelpOnMissingCommand
  | displayVersion
  | invalidCommand
  | unknownArgument
  | invalidValue
  | tooManyValues
  | argumentConflict
deriving DecidableEq, Repr

/-- What an option takes, and whether it may be repeated. -/
inductive OptionUse where
  /-- Ends the reading with an answer of its own. -/
  | answer (error : UsageError)
  | flag
  /-- A value that passes the test. -/
  | value (repeatable : Bool) (accepts : String → Bool)

/-- An option: its long name, its short name if it has one, and its use. -/
structure OptionSpec where
  long : String
  short : Option Char
  use : OptionUse

/-- An option of a line, by its long name, with its value. -/
abbrev Setting := String × String

/-- What has been read: the options settled, and the last one if it is not, with its value if that
has been met. -/
structure Reading where
  settings : List Setting
  pending : Option (OptionSpec × Option String)

namespace Reading

/-- Nothing read. -/
def empty : Reading := ⟨[], none⟩

/-- Whether an option is among those settled. -/
def isSet (r : Reading) (spec : OptionSpec) : Bool := r.settings.any (·.1 == spec.long)

/-- Adds an option with its value. -/
def add (r : Reading) (spec : OptionSpec) (value : String) : Reading :=
  { r with settings := r.settings ++ [(spec.long, value)] }

/-- Settles an option that has been met with the given value, or without one. -/
def settle (r : Reading) (spec : OptionSpec) (value : Option String) :
    Except UsageError Reading :=
  -- a missing value counts before a repetition, and a repetition before a bad value
  match spec.use, value with
  | .answer error, _ => .error error
  | .flag, _ => if r.isSet spec then .error .argumentConflict else .ok (r.add spec "")
  | .value .., none => .error .invalidValue
  | .value repeatable accepts, some v =>
    if !repeatable && r.isSet spec then .error .argumentConflict
    else if accepts v then .ok (r.add spec v)
    else .error .invalidValue

/-- Settles the last option. -/
def settlePending (r : Reading) : Except UsageError Reading :=
  match r.pending with
  | none => .ok r
  | some (spec, value) => settle { r with pending := none } spec value

/-- Meets an option, with a value attached to it or without one. -/
def meet (r : Reading) (spec : OptionSpec) (attached : Option String) :
    Except UsageError Reading := do
  let r ← r.settlePending
  match spec.use, attached with
  | .value .., none => return { r with pending := some (spec, none) }
  | _, _ => r.settle spec attached

end Reading

/-- Splits an argument at its first equals sign. -/
def splitEquals (arg : List Char) : List Char × Option (List Char) :=
  (arg.takeWhile (· ≠ '='), ((arg.dropWhile (· ≠ '=')).tail?))

variable (specs : List OptionSpec)

/-- Reads a long option, given without its dashes. -/
def readLong (r : Reading) (arg : List Char) : Except UsageError Reading :=
  let (name, attached) := splitEquals arg
  match specs.find? (·.long == String.ofList name) with
  | none => .error .unknownArgument
  | some spec =>
    match spec.use, attached with
    | .value .., _ => r.meet spec (attached.map String.ofList)
    | _, some _ => .error .tooManyValues
    | _, none => r.meet spec none

/-- Reads a cluster of short options, given without its dash. The first that takes a value takes
the rest of the cluster, less an equals sign. -/
def readShort (r : Reading) : List Char → Except UsageError Reading
  | [] => .ok r
  | c :: rest =>
    match specs.find? (·.short == some c) with
    | none => .error .unknownArgument
    | some spec =>
      match spec.use with
      | .value .. =>
        let attached := match rest with
          | [] => none
          | '=' :: value => some (String.ofList value)
          | value => some (String.ofList value)
        r.meet spec attached
      | _ => do readShort (← r.meet spec none) rest

/-- Reads one argument; options take no part after `--`. -/
def readArgument (r : Reading) (arg : String) : Except UsageError Reading :=
  match arg.toList with
  | '-' :: '-' :: long => readLong specs r long
  | '-' :: c :: short => readShort specs r (c :: short)
  | _ =>
    match r.pending with
    | some (spec, none) => .ok { r with pending := some (spec, some arg) }
    | _ => .error .unknownArgument

/-- Reads arguments one after another. -/
def readArguments (r : Reading) : List String → Except UsageError Reading
  | [] => r.settlePending
  | ["--"] => r.settlePending
  | "--" :: _ => .error .unknownArgument
  | arg :: rest => do readArguments (← readArgument specs r arg) rest

/-- The options of a line, in order. There are no arguments but options. -/
def parseOptions (args : List String) : Except UsageError (List Setting) :=
  Reading.settings <$> readArguments specs .empty args

/-- The values of an option. -/
def values (settings : List Setting) (long : String) : List String :=
  settings.filterMap fun (name, value) => if name = long then some value else none

end ArrayBridge.CommandLine
