import ArrayBridge.CommandLine.Options
import ArrayBridge.Erasure.Placement
import ArrayBridge.Java.Imports

/-!
# Configurations

What a command line asks for. The first argument names the command, and the options after it
belong to the command.
-/

namespace ArrayBridge.CommandLine

/-- Settings of a command that emits Java. -/
structure Build where
  java : Java.Settings
  policy : AdapterPolicy
  /-- Where files are written; to the output if there is none. -/
  outputDir : Option String
deriving DecidableEq, Repr

/-- A command with its settings. -/
inductive Config where
  /-- Prints the contracts of wrappers. -/
  | contract (kinds : List Kind) (json : Bool)
  /-- Emits the companion classes of wrappers. -/
  | java (kinds : List Kind) (build : Build)
  /-- Runs the sample scenarios and emits their classes. -/
  | demo (build : Build)
deriving DecidableEq, Repr

/-! ## Options -/

/-- The request for help. -/
def helpOption : OptionSpec := ⟨"help", some 'h', .answer .displayHelp⟩

/-- Selects a kind; may be repeated. -/
def kindOption : OptionSpec :=
  ⟨"kind", some 'k', .value true fun v => (Kind.ofNativeName? v).isSome⟩

/-- The options of commands that emit Java. -/
def javaOptions : List OptionSpec :=
  [⟨"package", some 'p', .value false fun _ => true⟩,
   ⟨"runtime-package", none, .value false fun _ => true⟩,
   ⟨"output-dir", some 'o', .value false (· ≠ "")⟩]

/-- Selects the adapter policy. -/
def policyOption : OptionSpec :=
  ⟨"adapter-policy", none, .value false fun v => (AdapterPolicy.ofText? v).isSome⟩

/-- The commands, by name, that a first argument can be. -/
inductive Command where
  | contract
  | java
  | demo
  | help
deriving DecidableEq, Repr

namespace Command

/-- The command with the given name. -/
def ofName? : String → Option Command
  | "contract" => some contract
  | "java" => some java
  | "demo" => some demo
  | "help" => some help
  | _ => none

/-- The options of a command. -/
def options : Command → List OptionSpec
  | contract => [kindOption, ⟨"json", none, .flag⟩, helpOption]
  | java => kindOption :: javaOptions ++ [helpOption]
  | demo => javaOptions ++ [policyOption, helpOption]
  | help => []

end Command

/-! ## Reading a command line -/

/-- The kinds that are selected, in the order of selection; every kind if none is. -/
def selectedKinds (settings : List Setting) : List Kind :=
  match values settings "kind" with
  | [] => Kind.all
  | names => names.filterMap Kind.ofNativeName?

/-- The settings of a command that emits Java. -/
def buildOf (settings : List Setting) : Build :=
  let runtimePackage := (values settings "runtime-package").head?
  { java :=
      { package := (values settings "package").head?
        runtimePackage := runtimePackage.getD Descriptor.languagePackage }
    policy :=
      ((values settings "adapter-policy").head?.bind AdapterPolicy.ofText?).getD .shared
    outputDir := (values settings "output-dir").head? }

/-- The answer to a request for help on the command named by the arguments. -/
def helpAnswer : List String → UsageError
  | [] => .displayHelp
  | [name] => if (Command.ofName? name).isSome then .displayHelp else .invalidCommand
  | _ => .invalidCommand

/-- The options that stand before any command. -/
def topOptions : List OptionSpec := [helpOption, ⟨"version", some 'V', .answer .displayVersion⟩]

/-- The answer to a line that does not start with a command. -/
def topAnswer (arg : String) (rest : List String) : UsageError :=
  match arg.toList with
  | ['-', '-'] =>
    match rest with
    | [] => .displayHelpOnMissingCommand
    | name :: _ => if (Command.ofName? name).isSome then .unknownArgument else .invalidCommand
  | '-' :: _ :: _ =>
    match readArgument topOptions .empty arg with
    | .error error => error
    | .ok _ => .unknownArgument
  | _ => .invalidCommand

/-- What a command line asks for. -/
def Config.ofArguments : List String → Except UsageError Config
  | [] => .error .displayHelpOnMissingCommand
  | arg :: rest =>
    match Command.ofName? arg with
    | none => .error (topAnswer arg rest)
    | some .help => .error (helpAnswer rest)
    | some command => do
      let settings ← parseOptions command.options rest
      match command with
      | .contract =>
        return .contract (selectedKinds settings) (settings.any (·.1 == "json"))
      | .java => return .java (selectedKinds settings) (buildOf settings)
      | _ => return .demo (buildOf settings)

end ArrayBridge.CommandLine
