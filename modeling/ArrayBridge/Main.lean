import ArrayBridge.CommandLine.Job

/-!
# The command line

Reads the arguments and carries out the effects of the command. Output goes to the standard
output, reports to the standard error; log records are not shown.
-/

namespace ArrayBridge.CommandLine

/-- What is shown for a line that is not accepted. -/
def UsageError.message : UsageError → String
  | displayHelp | displayHelpOnMissingCommand =>
    "Commands: contract, java, demo, help\n"
  | displayVersion => "0.1.0\n"
  | invalidCommand => "error: unrecognized command\n"
  | unknownArgument => "error: unexpected argument\n"
  | invalidValue => "error: missing or invalid value for an option\n"
  | tooManyValues => "error: value for an option that takes none\n"
  | argumentConflict => "error: option given more than once\n"

/-- Whether a line that is not accepted asked for something else. -/
def UsageError.isAnswer : UsageError → Bool
  | displayHelp | displayVersion => true
  | _ => false

/-- The account of an error of the operating system: its description and its code. -/
def causeText : IO.Error → String
  | .alreadyExists _ code text | .noFileOrDirectory _ code text | .noSuchThing _ code text
  | .inappropriateType _ code text | .invalidArgument _ code text | .permissionDenied _ code text
  | .resourceExhausted _ code text | .resourceBusy code text | .resourceVanished code text
  | .hardwareFault code text | .unsupportedOperation code text | .unsatisfiedConstraints code text
  | .otherError code text => s!"{text} (os error {code})"
  | e => toString e

/-- Whether there is a directory at a path: only inside a directory does `.` exist already. -/
def isDirectory (path : String) : IO Bool := do
  try
    IO.FS.createDir (path ++ "/.")
    return true
  catch
    | .alreadyExists .. => return true
    | _ => return false

/-- Makes a directory that may exist already. -/
def ensureDirectory (path : String) : IO Unit := do
  try IO.FS.createDir path
  catch e => unless ← isDirectory path do throw e

/-- Makes a directory and those above it, the names given from the last to the first, below `root`,
which is a slash or nothing. -/
def ensureReversed (root : String) : List String → IO Unit
  | [] => return
  | name :: above => do
    let path := root ++ "/".intercalate (name :: above).reverse
    try ensureDirectory path
    catch
      | .noFileOrDirectory .. => do
        ensureReversed root above
        ensureDirectory path
      | e => throw e

/-- Makes the directory of a path, and those above it if they are missing. -/
def createDirectories (path : String) : IO Unit := do
  try ensureDirectory path
  catch
    | .noFileOrDirectory .. => do
      ensureReversed (if path.startsWith "/" then "/" else "") (FileTree.namesAbove path).reverse
      ensureDirectory path
    | e => throw e

/-- The failure of an action, if it fails. -/
def failureOf (action : IO Unit) (failure : String → Failure) : IO (Option Failure) := do
  try
    action
    return none
  catch e => return some (failure (causeText e))

/-- Carries out one effect, or gives its failure. The file that is open is kept in between. -/
def carryOut (file : IO.Ref (Option IO.FS.Handle)) : Effect → IO (Option Failure)
  | .log _ => return none
  | .print text => failureOf (IO.print text) .write
  | .serialize text => failureOf (IO.print text) .serialize
  | .createDirectories path => failureOf (createDirectories path) (.createDirectory path)
  | .openFile path =>
    failureOf (do file.set (some (← IO.FS.Handle.mk path .write))) (.writeFile path)
  | .writeText path text =>
    failureOf (do (← file.get).forM (·.putStr text)) (.writeFile path)
  | .flush path _ => do
    let failure ← failureOf (do (← file.get).forM (·.flush)) (.writeFile path)
    file.set none
    return failure

/-- Carries out effects up to the first that fails, and gives its failure. -/
def carryOutAll (file : IO.Ref (Option IO.FS.Handle)) : List Effect → IO (Option Failure)
  | [] => return none
  | e :: es => do
    match ← carryOut file e with
    | some failure => return some failure
    | none => carryOutAll file es

end ArrayBridge.CommandLine

open ArrayBridge CommandLine in
/-- Carries out a command line and gives the exit status. -/
def main (args : List String) : IO UInt32 := do
  match Config.ofArguments args with
  | .error usage =>
    if usage.isAnswer then
      IO.print usage.message
      return 0
    else
      IO.eprint usage.message
      return 2
  | .ok config =>
    let (effects, failure) := config.effects
    match (← carryOutAll (← IO.mkRef none) effects) <|> failure with
    | none => return 0
    | some failure =>
      IO.eprint failure.report
      return failure.exitStatus.toUInt32
