import ArrayBridge.Erased.Program
import ArrayBridge.Java.Print
import ArrayBridge.Java.Imports
import ArrayBridge.Log

/-!
# Erased programs as Java methods

A program becomes the body of a static method. Each binding becomes a final variable named after
its place; bindings of unit type keep only their effect. Indices, sizes and offsets are `long` in
a program and are narrowed wherever Java wants an `int`.

* `Program.toMethod` gives the method of a program, `Program.toSourceFile` a class around it.
-/

namespace ArrayBridge.Java

open ArrayBridge.Erased (Binding CopyLength Operand Program)

/-- Why a program has no Java method. -/
inductive EmitError where
  /-- A character that is more than one UTF-16 unit. -/
  | supplementaryChar (binding : Local) (value : Char)
  | unboundLocal (binding source : Local)
  | unboundReturn (result : Local)
deriving DecidableEq, Repr

/-- The text of an error. -/
def EmitError.message : EmitError → String
  | supplementaryChar l c =>
    s!"%{l}: character {String.ofList (Text.quotedChar c)} is outside the Basic Multilingual " ++
      "Plane and has no Java `char` literal"
  | unboundLocal b l => s!"binding %{b} refers to %{l}, which is not bound before it"
  | unboundReturn l => s!"the program returns %{l}, which is never bound"

/-! ## Types and literals -/

/-- The Java type of a declared type; the unit type has none. -/
def Ty.ofErased? : Erased.Ty → Option Ty
  | .unit => none
  | .integer => some integerType
  | .prim k => some (.prim k)
  | .array k => some (arrayType k)
  | .object d => some (if d.isSequence then sequenceType else objectType)
  | .descriptor => some descriptorType
  | .tuple _ => some (.array objectType)

/-- The literal of a character at a binding. -/
def charExpr (l : Local) (c : Char) : Except EmitError Expr :=
  if c.toNat < 0x10000 then .ok (.charLit (UInt16.ofNat c.toNat))
  else .error (.supplementaryChar l c)

/-- The literal of a small number of the given kind. -/
def smallExpr (k : Kind) (value : Int32) : Expr := .cast (.prim k) (.intLit value)

/-- The literal of a primitive value at a binding. -/
def primExpr (l : Local) : Prim → Except EmitError Expr
  | .boolean b => .ok (.booleanLit b)
  | .short n => .ok (smallExpr .short n.toInt32)
  | .int n => .ok (.intLit n)
  | .long n => .ok (.longLit n)
  | .float x => .ok (.floatLit x)
  | .double x => .ok (.doubleLit x)
  | .char c => charExpr l c
  | .byte n => .ok (smallExpr .byte n.toInt32)

/-- The literal of a boxed element at a binding. -/
def boxedExpr (l : Local) : Boxed → Except EmitError Expr
  | .boolean b => .ok (.booleanLit b)
  | .integer n => .ok (.longLit n)
  | .float x => .ok (.doubleLit x)
  | .character c => charExpr l c
  | .byte n => .ok (smallExpr .byte n.toInt32)

/-- A constant as an `int`. -/
def intExpr (n : Int64) : Expr :=
  if n.toInt32.toInt64 = n then .intLit n.toInt32 else toInt (.longLit n)

/-! ## Operands -/

/-- The name of the variable of a local. -/
def localName (l : Local) : String := "l" ++ toString l

section

variable (types : List Erased.Ty)

/-- The value of a local. A local of unit type has no variable. -/
def localExpr (l : Local) : Expr :=
  if types[l]? = some .unit then .null else .name (localName l)

/-- The value of a local as an `int`. -/
def indexExpr (l : Local) : Expr := toInt (localExpr types l)

/-- An offset or a length as an `int`. -/
def operandExpr : Operand → Expr
  | .read l => indexExpr types l
  | .const n => intExpr n

/-- The length of an array. -/
def lengthExpr (array : Local) : Expr := .field (localExpr types array) "length"

/-- The number of elements of an array past an offset. -/
def remainingExpr (array : Local) (offset : Operand) : Expr :=
  if offset = .const 0 then lengthExpr types array
  else .binary .minus (lengthExpr types array) (operandExpr types offset)

/-- A local as a generic sequence. It is cast unless its type says that it is one. -/
def sequenceExpr (l : Local) : Expr :=
  match types[l]? with
  | some (.object d) =>
    if d.isSequence then localExpr types l else .cast sequenceType (localExpr types l)
  | _ => .cast sequenceType (localExpr types l)

/-- The number of elements that are copied. -/
def copyLengthExpr (source : Local) (sourceOffset : Operand) (destination : Local)
    (destinationOffset : Operand) : CopyLength → Expr
  | .explicit n => operandExpr types n
  | .remaining =>
    .callOn "Math" "min"
      [remainingExpr types source sourceOffset, remainingExpr types destination destinationOffset]

/-! ## Bindings -/

/-- Whether an expression does something besides giving a value. -/
def Expr.hasEffect : Expr → Bool
  | assign .. | call .. | methodCall .. => true
  | _ => false

/-- The statements that bind a local to the value of an expression. At unit type only an effect is
kept. -/
def declareStmts (l : Local) (type : Erased.Ty) (value : Expr) : List Stmt :=
  match Ty.ofErased? type with
  | some type => [.declare ⟨true, localName l, type, value⟩]
  | none => if value.hasEffect then [.eval value] else []

/-- The statements of a binding. -/
def bindingStmts (l : Local) (b : Binding) : Except EmitError (List Stmt) :=
  let declare (value : Expr) := declareStmts l b.type value
  match b.expr with
  | .var source => .ok (if b.type = .unit then [] else declare (localExpr types source))
  | .intLit n => .ok (declare (.longLit n))
  | .primLit p => declare <$> primExpr l p
  | .tuple items => .ok (declare (.arrayInit objectType (items.map (localExpr types))))
  | .newArray k size => .ok (declare (.newArray (.prim k) (indexExpr types size)))
  | .fillArray k size element =>
    -- the call that fills is emitted at every type, also where there is no variable
    .ok (declare (.newArray (.prim k) (indexExpr types size)) ++
      [.eval (.callOn "java.util.Arrays" "fill" [localExpr types l, localExpr types element])])
  | .load _ array index =>
    .ok (declare (.access (localExpr types array) (indexExpr types index)))
  | .store _ array index value =>
    .ok (declare (.assign (.access (localExpr types array) (indexExpr types index))
      (localExpr types value)))
  | .arrayLength _ array => .ok (declare (lengthExpr types array))
  | .arrayCopy _ source sourceOffset destination destinationOffset length =>
    .ok (declare (.callOn "System" "arraycopy"
      [localExpr types source, operandExpr types sourceOffset,
       localExpr types destination, operandExpr types destinationOffset,
       copyLengthExpr types source sourceOffset destination destinationOffset length]))
  | .wrapAdapter k array =>
    .ok (declare (.callOn k.wrapperName "getArray" [localExpr types array]))
  | .copyFromGeneric k sequence =>
    .ok (declare (.callOn k.wrapperName "copyOf" [sequenceExpr types sequence]))
  | .invokeWrapper k op => .ok [.raise (unsupportedInvocation k op)]
  | .genericSize sequence =>
    .ok (declare (.methodCall (sequenceExpr types sequence) "getSize" []))
  | .genericGet sequence index =>
    .ok (declare (.methodCall (sequenceExpr types sequence) "getFromFirst"
      [localExpr types index]))
  | .genericSet sequence index value =>
    .ok (declare (.methodCall (sequenceExpr types sequence) "set"
      [localExpr types index, localExpr types value]))
  | .typeTest value d =>
    .ok (declare (.callOn "Util" "isReified" [localExpr types value, descriptorExpr d]))
  | .typeOf value => .ok (declare (.callOn "Util" "typeOf" [localExpr types value]))
  | .sequenceLit element items => do
    let items ← items.mapM (boxedExpr l)
    return declare (.callOn "Array" "of" [descriptorExpr element, .arrayInit objectType items])

/-- Whether a binding always throws, so that nothing after it is reached. -/
def diverges (b : Binding) : Bool :=
  match b.expr with
  | .invokeWrapper .. => true
  | _ => false

/-- The statements of the bindings from the given place on, up to the first that diverges, and
`last` if none does. -/
def bodyStmts (last : List Stmt) (l : Local) : List Binding → Except EmitError (List Stmt)
  | [] => .ok last
  | b :: rest => do
    let stmts ← bindingStmts types l b
    -- nothing may follow a statement that always throws
    if diverges b then return stmts
    return stmts ++ (← bodyStmts last (l + 1) rest)

end

/-! ## Records -/

/-- The name of the method of a program. -/
def methodName : String := "run"

/-- The record of a class that holds the method of a program. -/
def emittedRecord (className : String) : Log.Record :=
  ⟨.debug, s!"emitted {className}.{methodName}"⟩

/-- The record of a source file being written. -/
def SourceFile.writeRecord (f : SourceFile) : Log.Record :=
  ⟨.debug, s!"writing Java class {f.classDecl.name}"⟩

/-! ## Methods and classes -/

/-- The first binding from the given place on that reads a local not bound before it, and that
local. -/
def unbound? (l : Local) : List Binding → Option (Local × Local)
  | [] => none
  | b :: rest =>
    match b.expr.usedLocals.find? (l ≤ ·) with
    | some source => some (l, source)
    | none => unbound? (l + 1) rest

/-- Checks that every local is bound before it is read. -/
def checkScoping (p : Program) : Except EmitError Erased.Ty :=
  match unbound? 0 p.bindings with
  | some (binding, source) => .error (.unboundLocal binding source)
  | none =>
    match p.bindings[p.result]? with
    | some b => .ok b.type
    | none => .error (.unboundReturn p.result)

end ArrayBridge.Java

namespace ArrayBridge.Erased.Program

open Java

/-- The method that computes a program's result. -/
def toMethod (p : Program) : Except EmitError Method := do
  let type ← checkScoping p
  let types := p.bindings.map Binding.type
  let last := if type = .unit then [] else [Stmt.ret (some (localExpr types p.result))]
  let body ← bodyStmts types last 0 p.bindings
  return ⟨true, methodName, [], Java.Ty.ofErased? type, body⟩

/-- The file of a class that holds the method of a program. -/
def toSourceFile (settings : Settings) (className : String) (p : Program) :
    Except EmitError SourceFile := do
  return settings.file className [.method (← p.toMethod)]

end ArrayBridge.Erased.Program
