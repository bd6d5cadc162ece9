import ArrayBridge.Descriptor
import ArrayBridge.Java.Syntax
import ArrayBridge.Store.Fault

/-!
# What emitted Java imports

The settings of emitted files, and the expressions and types by which emitted code refers to the
classes `Array`, `TypeDescriptor` and `Util`.
-/

namespace ArrayBridge.Java

/-- Settings of emitted files. -/
structure Settings where
  /-- The package of the file; the default package if there is none. -/
  package : Option String := none
  indentWidth : Nat := 4
  /-- The package of `Array`, `TypeDescriptor` and `Util`. -/
  runtimePackage : String := "reify.lang"
deriving DecidableEq, Repr

/-- The imports of every file. -/
def Settings.imports (s : Settings) : List String :=
  ["Array", "TypeDescriptor", "Util"].map fun name => s.runtimePackage ++ "." ++ name

/-- A final class in a file of its own. -/
def Settings.file (s : Settings) (name : String) (members : List Member) : SourceFile :=
  { package := s.package, imports := s.imports, classDecl := ⟨true, name, members⟩ }

/-- The class of generic sequences. -/
def sequenceType : Ty := .named "Array"

/-- The class of descriptors. -/
def descriptorType : Ty := .named "TypeDescriptor"

/-- The class of all objects. -/
def objectType : Ty := .named "Object"

/-- The type of indices, sizes and offsets. -/
def integerType : Ty := .prim .long

/-- The type of native arrays of kind `k`. -/
def arrayType (k : Kind) : Ty := .array (.prim k)

/-- An integer narrowed to `int`, which fails if it does not fit. -/
def toInt (e : Expr) : Expr := .callOn "Math" "toIntExact" [e]

/-- A descriptor: that of an array class is a member of its wrapper, any other is looked up by its
text. -/
def descriptorExpr (d : Descriptor) : Expr :=
  match d.elementKind? with
  | some k => .field (.name k.wrapperName) "$TypeDescriptor"
  | none => .callOn "TypeDescriptor" "of" [.stringLit d.text]

/-- The exception for a wrapper member that is reached at run time. -/
def unsupportedInvocation (k : Kind) (op : Operation) : Expr :=
  .new (.named "UnsupportedOperationException")
    [.stringLit (ArrayFault.unsupportedDirectInvocation k op).message]

end ArrayBridge.Java
