import ArrayBridge.Erasure.Plan
import ArrayBridge.Log

/-!
# Erasure

The plans of a program's bindings are placed one after another, each with the adapters that it
demands. Under `AdapterPolicy.shared` an array has at most one adapter, made where it is first
demanded; under `AdapterPolicy.perUse` each demand makes its own.

* `Bridge.Program.erase` erases a program.
-/

namespace ArrayBridge

/-- When an adapter is made. -/
inductive AdapterPolicy where
  | shared
  | perUse
deriving DecidableEq, Repr, Inhabited

namespace AdapterPolicy

/-- The name of a policy. -/
def text : AdapterPolicy → String
  | shared => "shared"
  | perUse => "per-use"

/-- The policy with the given name. -/
def ofText? (s : String) : Option AdapterPolicy := [shared, perUse].find? (·.text == s)

end AdapterPolicy

namespace Erasure

/-- What erasure has placed so far. -/
structure Placement where
  /-- The erased bindings. -/
  bindings : List Erased.Binding
  /-- The bridge bindings, with the erased locals that stand for them. -/
  scope : Scope
  /-- The adapters that may be shared, by the bridge locals of their arrays. -/
  adapters : List (Local × Local)

namespace Placement

/-- Nothing placed. -/
def empty : Placement := ⟨[], [], []⟩

variable (policy : AdapterPolicy)

/-- Places one erased binding. -/
def emit (p : Placement) (type : Erased.Ty) (expr : Erased.Expr) : Local × Placement :=
  (p.bindings.length, { p with bindings := p.bindings ++ [⟨type, expr⟩] })

/-- The adapter already made for a bridge local. -/
def adapter? (p : Placement) (source : Local) : Option Local :=
  match policy with
  | .shared => p.adapters.lookup source
  | .perUse => none

/-- An adapter for an array, made if there is none to share. -/
def adapter (p : Placement) (source : ArraySource) : Local × Placement :=
  match p.adapter? policy source.source with
  | some l => (l, p)
  | none =>
    let (l, p) :=
      p.emit (.object (.genericView source.kind)) (.wrapAdapter source.kind source.array)
    (l, { p with adapters := p.adapters ++ [(source.source, l)] })

/-- The erased local of an operand that is demanded as a generic value. -/
def generic (p : Placement) : Generic → Local × Placement
  | .plain l => (l, p)
  | .adapted source => p.adapter policy source

/-- Places the code of a plan; the local is the one that stands for the binding. -/
def code (p : Placement) : Plan → Local × Placement
  | .bind type expr => p.emit type expr
  | .use type operand use =>
    let (l, p) := p.generic policy operand
    p.emit type (use.expr l)
  | .adapt source => p.adapter policy source
  | .adaptFresh k array =>
    let (l, p) := p.emit (.array k) array
    p.adapter policy ⟨k, p.scope.length, l⟩

/-- Places the plan of a binding, and puts the binding into scope. -/
def place (p : Placement) (binding : Bridge.Binding) (plan : Plan) : Placement :=
  let (l, p) := p.code policy plan
  { p with scope := p.scope ++ [⟨binding, l⟩] }

/-- Erases one binding. -/
def erase (p : Placement) (binding : Bridge.Binding) : Except Error Placement :=
  match p.scope.plan binding.type binding.expr with
  | .ok plan => .ok (p.place policy binding plan)
  | .error fault => .error ⟨p.scope.length, fault⟩

/-- Erases bindings one after another. -/
def eraseAll (p : Placement) : List Bridge.Binding → Except Error Placement
  | [] => .ok p
  | b :: rest => do eraseAll (← p.erase policy b) rest

end Placement

end Erasure

open Erasure in
/-- The erased program that stands for a bridge program. -/
def Bridge.Program.erase (policy : AdapterPolicy) (p : Bridge.Program) :
    Except Erasure.Error Erased.Program := do
  let placed ← Placement.empty.eraseAll policy p.bindings
  match placed.scope[p.result]? with
  | some b => return ⟨placed.bindings, b.erased⟩
  | none => throw ⟨p.result, .unboundLocal p.result⟩

/-! ## Records -/

namespace Erasure.Placement

variable (policy : AdapterPolicy)

/-- The record made before a binding is checked. -/
def attemptRecords (p : Placement) : Bridge.Expr → List Log.Record
  | .call k call =>
    [⟨.debug, s!"erasing {k.memberText call.operation} at binding %{p.scope.length}"⟩]
  | .reflective k op =>
    [⟨.debug, s!"reflective call to {k.memberText op} at binding %{p.scope.length} " ++
      "is left in place"⟩]
  | _ => []

/-- The record of the adapter made for an array, unless one is shared. -/
def adapterRecords (p : Placement) (source : ArraySource) : List Log.Record :=
  match p.adapter? policy source.source with
  | some _ => []
  | none =>
    [⟨.debug, s!"inserted {source.kind.nativeName} adapter %{p.bindings.length} " ++
      s!"for %{source.source} at binding %{p.scope.length}"⟩]

/-- The record made as the plan of an expression is placed. -/
def planRecords (p : Placement) (expr : Bridge.Expr) (plan : Plan) : List Log.Record :=
  match expr, plan with
  | .typeTest l d, .bind .. =>
    [⟨.debug, s!"folded `is {d.text}` on %{l} at binding %{p.scope.length}"⟩]
  | _, .use _ (.adapted source) _ => p.adapterRecords policy source
  | _, .adapt source => p.adapterRecords policy source
  | _, .adaptFresh k array =>
    let (l, placed) := p.emit (.array k) array
    placed.adapterRecords policy ⟨k, p.scope.length, l⟩
  | _, _ => []

/-- The records of erasing bindings one after another. -/
def records (p : Placement) : List Bridge.Binding → List Log.Record
  | [] => []
  | b :: rest =>
    p.attemptRecords b.expr ++
      match p.scope.plan b.type b.expr with
      | .error _ => []
      | .ok plan => p.planRecords policy b.expr plan ++ records (p.place policy b plan) rest

end Erasure.Placement

/-- The records of erasing a program. -/
def Bridge.Program.eraseRecords (policy : AdapterPolicy) (p : Bridge.Program) :
    List Log.Record :=
  Erasure.Placement.empty.records policy p.bindings ++
    match p.erase policy with
    | .error _ => []
    | .ok erased =>
      [⟨.debug, s!"erased {p.bindings.length} bindings into {erased.bindings.length}"⟩]

end ArrayBridge
