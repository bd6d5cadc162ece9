import ArrayBridge.Element

/-!
# Java syntax

The part of Java that is emitted: expressions, statements, class members and source files.
Primitive types are named after the element kinds.
-/

namespace ArrayBridge.Java

open Binary (Single Double)

/-- A type. -/
inductive Ty where
  | prim (kind : Kind)
  | named (name : String)
  | array (element : Ty)
deriving DecidableEq, Repr

/-- An operator between two operands. -/
inductive BinOp where
  | less
  | minus
deriving DecidableEq, Repr

/-- An expression. -/
inductive Expr where
  | assign (target value : Expr)
  | null
  | name (name : String)
  /-- `new C(a, b)` -/
  | new (type : Ty) (args : List Expr)
  /-- `new int[size]` -/
  | newArray (element : Ty) (size : Expr)
  /-- `new Object[] {a, b}` -/
  | arrayInit (element : Ty) (items : List Expr)
  | cast (type : Ty) (operand : Expr)
  /-- `int[].class` -/
  | classLit (type : Ty)
  /-- `a[i]` -/
  | access (array index : Expr)
  | field (object : Expr) (name : String)
  | call (name : String) (args : List Expr)
  | methodCall (object : Expr) (name : String) (args : List Expr)
  | binary (op : BinOp) (left right : Expr)
  | postIncrement (operand : Expr)
  | booleanLit (value : Bool)
  | intLit (value : Int32)
  | longLit (value : Int64)
  | floatLit (value : Single)
  | doubleLit (value : Double)
  /-- A character by its UTF-16 unit. -/
  | charLit (unit : UInt16)
  | stringLit (value : String)

/-- A call of a method of a named variable or class. -/
def Expr.callOn (object method : String) (args : List Expr) : Expr :=
  .methodCall (.name object) method args

/-- The declaration of a variable with its initial value. -/
structure VarDecl where
  isFinal : Bool
  name : String
  type : Ty
  init : Expr

/-- A statement. -/
inductive Stmt where
  | declare (decl : VarDecl)
  | forLoop (init : VarDecl) (condition update : Expr) (body : List Stmt)
  | eval (expr : Expr)
  | ret (value : Option Expr)
  | raise (value : Expr)

/-- A parameter of a method. -/
structure Parameter where
  name : String
  type : Ty
deriving DecidableEq, Repr

/-- A variable of a class. -/
structure DataMember where
  isStatic : Bool
  isFinal : Bool
  name : String
  type : Ty
  init : Expr

/-- A constructor. -/
structure Constructor where
  name : String
  params : List Parameter
  body : List Stmt

/-- A method; it returns nothing if it has no result type. -/
structure Method where
  isStatic : Bool
  name : String
  params : List Parameter
  result : Option Ty
  body : List Stmt

/-- A member of a class. -/
inductive Member where
  | data (member : DataMember)
  | constructor (member : Constructor)
  | method (member : Method)

/-- A class. -/
structure ClassDecl where
  isFinal : Bool
  name : String
  members : List Member

/-- A source file, which declares one class. -/
structure SourceFile where
  package : Option String
  imports : List String
  classDecl : ClassDecl

end ArrayBridge.Java
