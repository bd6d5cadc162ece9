import ArrayBridge.Erased.Run
import ArrayBridge.Erasure.Placement
import ArrayBridge.Java.Method
import ArrayBridge.Text.Report
import ArrayBridge.Wrapper.Call

/-!
# From programs to results

A bridge program is erased and then either run or turned into a Java class. Whatever goes wrong on
the way is a `Failure`, with the report that is shown for it and an exit status.
-/

namespace ArrayBridge

open ArrayBridge.Erased (RunError Value)

/-- Why a job failed. Failures of the operating system carry its own account. -/
inductive Failure where
  | erase (error : Erasure.Error)
  | emit (error : Java.EmitError)
  | run (error : RunError)
  | createDirectory (path cause : String)
  | writeFile (path cause : String)
  | write (cause : String)
  | serialize (cause : String)
  | malformedScenario (error : CallError)
  | scenario (name found : String)

namespace Failure

/-- What is shown for a failure. -/
def report : Failure → String
  | erase e => Text.report "Erasure Failed" e.message
  | emit e => Text.report "Java Emission Failed" e.message
  | run e => Text.report "Execution Failed" e.message
  | createDirectory path cause => s!"Could not create output directory {path}: {cause}\n"
  | writeFile path cause => s!"Could not write output file {path}: {cause}\n"
  | write cause => s!"Could not write output: {cause}\n"
  | serialize cause => s!"Could not serialize contracts: {cause}\n"
  | malformedScenario e => Text.report "Malformed Scenario" e.message
  | scenario name found =>
    Text.report "Scenario Failed" s!"scenario '{name}' produced {found}"

/-- The exit status of a failure; that of a program that stopped is its own. -/
def exitStatus : Failure → UInt8
  | run _ => 101
  | _ => 1

end Failure

namespace Bridge.Program

variable (policy : AdapterPolicy)

/-- Erases and runs a program: its value, and the store that the value refers to. -/
def run (p : Program) : Except Failure (Value × Store) :=
  match p.erase policy with
  | .error e => .error (.erase e)
  | .ok erased =>
    match erased.run with
    | .ok v s => .ok (v, s)
    | .error e _ => .error (.run e)

/-- The records of erasing and running a program. -/
def runRecords (p : Program) : List Log.Record :=
  p.eraseRecords policy ++
    match p.erase policy with
    | .error _ => []
    | .ok erased => erased.runRecords

/-- Erases a program and turns it into a Java class. -/
def toJava (settings : Java.Settings) (className : String) (p : Program) :
    Except Failure Java.SourceFile :=
  match p.erase policy with
  | .error e => .error (.erase e)
  | .ok erased => (erased.toSourceFile settings className).mapError .emit

/-- The records of turning a program into a Java class. -/
def toJavaRecords (settings : Java.Settings) (className : String) (p : Program) :
    List Log.Record :=
  p.eraseRecords policy ++
    match p.toJava policy settings className with
    | .error _ => []
    | .ok _ => [Java.emittedRecord className]

end Bridge.Program

end ArrayBridge
