import ArrayBridge.Java.Print
import ArrayBridge.Java.Imports
import ArrayBridge.Log
import ArrayBridge.Wrapper.Contract

/-!
# Companion classes

The Java class that stands for the wrapper of one kind. The static helpers that erased code calls
have real bodies; every member of the wrapper itself throws, since erasure replaces its calls.

* `companion` gives the file of the class of a kind.
-/

namespace ArrayBridge.Java

/-- The length of a named array. -/
def lengthOf (array : String) : Expr := .field (.name array) "length"

/-- A static method. -/
def staticMethod (name : String) (params : List Parameter) (result : Option Ty)
    (body : List Stmt) : Member :=
  .method ⟨true, name, params, result, body⟩

/-- The descriptor of the array class. -/
def descriptorMember (k : Kind) : Member :=
  .data
    { isStatic := true, isFinal := true, name := "$TypeDescriptor", type := descriptorType
      init := .callOn "TypeDescriptor" "klass" [.classLit (arrayType k)] }

/-- The helper that wraps an array as a generic sequence. -/
def getArrayMember (k : Kind) : Member :=
  staticMethod "getArray" [⟨"array", arrayType k⟩] (some sequenceType)
    [.ret (some (.callOn "Array" "instance" [.name "array"]))]

/-- The helper that copies a generic sequence into a fresh array. -/
def copyOfMember (k : Kind) : Member :=
  let size := toInt (.callOn "sequence" "getSize" [])
  let item := .callOn "sequence" "getFromFirst" [.name "i"]
  staticMethod "copyOf" [⟨"sequence", sequenceType⟩] (some (arrayType k))
    [.declare ⟨true, "array", arrayType k, .newArray (.prim k) size⟩,
     .forLoop ⟨false, "i", .prim .int, .intLit 0⟩
       (.binary .less (.name "i") (lengthOf "array"))
       (.postIncrement (.name "i"))
       [.eval (.assign (.access (.name "array") (.name "i"))
         (.callOn "Util" ("unbox" ++ k.name) [item]))],
     .ret (some (.name "array"))]

/-! ## Copying -/

/-- The parameters of the full copying helper. -/
def copyParams (k : Kind) : List Parameter :=
  [⟨"array", arrayType k⟩, ⟨"destination", arrayType k⟩, ⟨"sourcePosition", .prim .int⟩,
   ⟨"destinationPosition", .prim .int⟩, ⟨"length", .prim .int⟩]

/-- The number of elements of an array past a position. -/
def remainingPast (array : String) : Option Expr → Expr
  | none => lengthOf array
  | some position => .binary .minus (lengthOf array) position

/-- The body of the copying helper that takes all parameters. -/
def fullCopyBody : List Stmt :=
  [.eval (.callOn "System" "arraycopy"
    [.name "array", .name "sourcePosition", .name "destination", .name "destinationPosition",
     .name "length"])]

/-- The body of a copying helper that takes only the given positions: it passes zero for a missing
one, and what remains of the arrays for the length. -/
def defaultCopyBody (sourcePosition destinationPosition : Option Expr) : List Stmt :=
  let length := .callOn "Math" "min"
    [remainingPast "array" sourcePosition, remainingPast "destination" destinationPosition]
  [.eval (.call "copyTo"
    [.name "array", .name "destination", sourcePosition.getD (.intLit 0),
     destinationPosition.getD (.intLit 0), length])]

/-- The copying helper that takes the given number of parameters, two to five. -/
def copyToMember (k : Kind) (count : Nat) : Member :=
  let params := (copyParams k).take count
  let supplied (i : Nat) : Option Expr := params[i]?.map fun p => .name p.name
  let body := if count = 5 then fullCopyBody else defaultCopyBody (supplied 2) (supplied 3)
  staticMethod "copyTo" params none body

/-! ## Wrapper members -/

/-- The Java type of a parameter. -/
def paramTy (k : Kind) : ParamType → Ty
  | .integer => integerType
  | .element => .prim k
  | .wrapper => .named k.wrapperName
  | .genericView => sequenceType

/-- The Java type of a result, if there is one. -/
def returnTy? (k : Kind) : ReturnType → Option Ty
  | .unit => none
  | .integer => some integerType
  | .element => some (.prim k)
  | .wrapper => some (.named k.wrapperName)
  | .genericView => some sequenceType
  | .descriptor => some descriptorType

/-- A member of the wrapper itself, which throws if it is reached. -/
def stubMember (k : Kind) (s : Signature) : Member :=
  let params := s.params.map fun p => Parameter.mk p.name (paramTy k p.type)
  let body := [Stmt.raise (unsupportedInvocation k s.operation)]
  match s.operation with
  | .construct => .constructor ⟨k.wrapperName, params, body⟩
  | op => .method ⟨s.isStatic, op.memberName, params, returnTy? k s.result, body⟩

/-- The file of the class that stands for the wrapper of kind `k`. -/
def companion (settings : Settings) (k : Kind) : SourceFile :=
  settings.file k.wrapperName
    ([descriptorMember k, getArrayMember k, copyOfMember k] ++
      [2, 3, 4, 5].map (copyToMember k) ++ k.contract.members.map (stubMember k))

/-- The record of a companion class. -/
def companionRecord (k : Kind) : Log.Record :=
  ⟨.debug, s!"generated companion class {k.wrapperName}"⟩

end ArrayBridge.Java
