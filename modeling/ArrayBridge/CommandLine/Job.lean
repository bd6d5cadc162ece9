import ArrayBridge.CommandLine.Config
import ArrayBridge.Failure
import ArrayBridge.FileTree
import ArrayBridge.Java.Companion
import ArrayBridge.Scenario

/-!
# Jobs

What a command does, as a list of effects in order and a failure if it stops early. Effects are
carried out one after another until one fails; `World.perform` does so on a file tree. Any of them
may be refused by the system that they are asked of, for reasons that the tree does not show.

* `Config.job` is the job of a command.
* `World.executeOn` carries out a command on a host.
-/

namespace ArrayBridge.CommandLine

/-- Something that a command does outside. -/
inductive Effect where
  | log (record : Log.Record)
  | print (text : String)
  /-- Prints what contracts are serialized to. -/
  | serialize (text : String)
  /-- Makes a directory and those above it. -/
  | createDirectories (path : String)
  /-- Opens a file, which is empty afterwards. -/
  | openFile (path : String)
  /-- Writes a text to the file that is open. Some of it may be kept back. -/
  | writeText (path text : String)
  /-- Writes what has been kept back of a text. -/
  | flush (path text : String)

/-- A computation that lists effects and may fail; the effects before a failure remain. -/
abbrev Job := EStateM Failure (List Effect)

namespace Job

/-- Lists effects. -/
def perform (effects : List Effect) : Job Unit := modify (· ++ effects)

/-- Lists records. -/
def log (records : List Log.Record) : Job Unit := perform (records.map .log)

/-- A result that may be a failure. -/
def ofExcept {α : Type} : Except Failure α → Job α
  | .ok a => pure a
  | .error failure => throw failure

end Job

/-! ## Emitting files -/

/-- A name inside a directory. The empty path is that of the current directory. -/
def joinPath (dir name : String) : String :=
  if dir = "" ∨ dir.endsWith '/' then dir ++ name else dir ++ "/" ++ name

/-- The text of a source file. -/
def fileText (build : Build) (f : Java.SourceFile) : String :=
  String.ofList (f.print build.java.indentWidth)

/-- The effects of emitting a source file: into the directory if there is one, else printed. -/
def emitFile (build : Build) (f : Java.SourceFile) : List Effect :=
  match build.outputDir with
  | none => [.log f.writeRecord, .print (fileText build f)]
  | some dir =>
    let path := joinPath dir (f.classDecl.name ++ ".java")
    let text := fileText build f
    [.openFile path, .log f.writeRecord, .writeText path text, .flush path text,
      .log ⟨.info, s!"wrote {path}"⟩]

/-- The effects of emitting source files. -/
def emitFiles (build : Build) (fs : List Java.SourceFile) : List Effect :=
  build.outputDir.toList.map .createDirectories ++ fs.flatMap (emitFile build)

/-! ## Commands -/

/-- Prints the contracts of wrappers: as JSON in one list, as text with an empty line between. -/
def printContracts (kinds : List Kind) (json : Bool) : List Effect :=
  let contracts := kinds.map Kind.contract
  if json then [.serialize (Text.Json.list (contracts.map Contract.json)).render, .print "\n"]
  else [.print ("\n".intercalate (contracts.map Contract.text))]

/-- Emits companion classes. -/
def emitCompanions (kinds : List Kind) (build : Build) : Job Unit := do
  Job.log (kinds.map Java.companionRecord)
  Job.perform (emitFiles build (kinds.map (Java.companion build.java)))

/-- Runs a scenario, checks its result and gives its class. -/
def runScenario (build : Build) (sc : Scenario) : Job Java.SourceFile := do
  Job.log [⟨.info, s!"running scenario '{sc.name}'"⟩]
  Job.log (sc.program.runRecords build.policy)
  let (value, store) ← Job.ofExcept (sc.program.run build.policy)
  let found := value.text store
  Job.perform [.print s!"{sc.name}: {found}\n"]
  if !sc.check store value then throw (.scenario sc.name found)
  Job.log (sc.program.toJavaRecords build.policy build.java sc.className)
  Job.ofExcept (sc.program.toJava build.policy build.java sc.className)

/-- Runs every scenario and emits their classes. -/
def runDemo (build : Build) : Job Unit := do
  let scenarios ← Job.ofExcept (Scenario.all.mapError .malformedScenario)
  let fs ← scenarios.mapM (runScenario build)
  Job.perform (emitFiles build fs)

/-- The job of a command. -/
def Config.job : Config → Job Unit
  | contract kinds json => Job.perform (printContracts kinds json)
  | java kinds build => emitCompanions kinds build
  | demo build => runDemo build

/-- The effects of a command, and the failure after them if there is one. -/
def Config.effects (config : Config) : List Effect × Option Failure :=
  match config.job.run [] with
  | .ok _ effects => (effects, none)
  | .error failure effects => (effects, some failure)

/-! ## Carrying out -/

/-- What the system has to say to an effect besides what a file tree shows: permissions, limits, a
full disk, a reader of the output that is gone. -/
structure Verdict where
  /-- Why the effect fails, if it does. -/
  refused : Option OsError
  /-- Why a directory is not made, if it is not. -/
  directory : Path → Option OsError
  /-- How many characters of a text get through before the effect fails, or before the rest is kept
  back. -/
  passed : Nat

/-- The verdict of a system that refuses nothing by itself. -/
def Verdict.consent : Verdict := ⟨none, fun _ => none, 0⟩

/-- The verdicts on all effects of a command, by the number of effects before them. -/
abbrev Host := Nat → Verdict

/-- The host that refuses nothing by itself. -/
def Host.willing : Host := fun _ => .consent

/-- What effects act on: files, the output and the log. -/
structure World where
  files : FileTree
  output : String
  log : List Log.Record

namespace World

/-- Prints a text, or a beginning of it. -/
def print (w : World) (v : Verdict) (text : String) : World × Option OsError :=
  match v.refused with
  | none => ({ w with output := w.output ++ text }, none)
  | some e => ({ w with output := w.output ++ String.ofList (text.toList.take v.passed) }, some e)

/-- Carries out one effect. One that fails may have been carried out in part. -/
def perform (w : World) (v : Verdict) : Effect → World × Option Failure
  | .log record => ({ w with log := w.log ++ [record] }, none)
  | .print text =>
    let (w, stopped) := w.print v text
    (w, stopped.map fun e => .write e.message)
  | .serialize text =>
    let (w, stopped) := w.print v text
    (w, stopped.map fun e => .serialize e.message)
  | .createDirectories path =>
    match v.refused with
    | some e => (w, some (.createDirectory path e.message))
    | none =>
      let (files, stopped) := w.files.makeDirectories v.directory path
      ({ w with files }, stopped.map fun e => .createDirectory path e.message)
  | .openFile path =>
    match v.refused with
    | some e => (w, some (.writeFile path e.message))
    | none =>
      match w.files.openFile path with
      | .ok files => ({ w with files }, none)
      | .error e => (w, some (.writeFile path e.message))
  | .writeText path text =>
    ({ w with files := w.files.advance path text v.passed },
      v.refused.map fun e => .writeFile path e.message)
  | .flush path text =>
    -- unless it is refused, nothing is kept back any longer
    let count := if v.refused = none then text.length else v.passed
    ({ w with files := w.files.advance path text count },
      v.refused.map fun e => .writeFile path e.message)

/-- Carries out effects up to the first that fails, where `count` effects have gone before. -/
def performAll (host : Host) (count : Nat) (w : World) : List Effect → World × Option Failure
  | [] => (w, none)
  | e :: es =>
    match w.perform (host count) e with
    | (w, none) => performAll host (count + 1) w es
    | stopped => stopped

/-- Carries out a command: the world after it, and the failure if it failed. -/
def executeOn (host : Host) (w : World) (config : Config) : World × Option Failure :=
  let (effects, failure) := config.effects
  match w.performAll host 0 effects with
  | (w, none) => (w, failure)
  | stopped => stopped

/-- Carries out a command where nothing but the tree stands in its way. -/
def execute (w : World) (config : Config) : World × Option Failure := w.executeOn .willing config

end World

end ArrayBridge.CommandLine
