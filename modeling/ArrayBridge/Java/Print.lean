import ArrayBridge.Java.Literal
import ArrayBridge.Java.Syntax
import ArrayBridge.Java.Writer

/-!
# Java text

Syntax trees as text. Operands are put in brackets exactly if they are compound; a block opens a
deeper level of indentation for its contents.

* `Expr.print` gives the text of an expression, which stands on one line.
* `Stmt.write`, `writeBlock` and `SourceFile.write` write what stands on several lines.
* `Stmt.print`, `printBlock` and `SourceFile.print` give the text that they write.
-/

namespace ArrayBridge.Java

/-- Texts with a separator between them. -/
def separated (separator : List Char) : List (List Char) → List Char
  | [] => []
  | [t] => t
  | t :: ts => t ++ separator ++ separated separator ts

/-- A text between brackets. -/
def bracketed (text : List Char) : List Char := '(' :: text ++ [')']

/-- The text of a type. -/
def Ty.print : Ty → List Char
  | prim k => k.nativeName.toList
  | named n => n.toList
  | array t => t.print ++ ['[', ']']

/-- The sign of an operator. -/
def BinOp.sign : BinOp → Char
  | less => '<'
  | minus => '-'

namespace Expr

/-- Whether an expression needs brackets where it is an operand. -/
def isCompound : Expr → Bool
  | assign .. | cast .. | binary .. | postIncrement .. => true
  | _ => false

/-- The text of an operand, given the text of its expression. -/
def asOperand (e : Expr) (text : List Char) : List Char :=
  if e.isCompound then bracketed text else text

mutual
/-- The text of an expression. -/
def print : Expr → List Char
  | assign target value => print target ++ " = ".toList ++ print value
  | null => "null".toList
  | name n => n.toList
  | new type args => "new ".toList ++ type.print ++ bracketed (printAll args)
  | newArray element size => "new ".toList ++ element.print ++ '[' :: print size ++ [']']
  | arrayInit element items =>
    "new ".toList ++ element.print ++ "[] \x7b".toList ++ printAll items ++ ['\x7d']
  | cast type operand => bracketed type.print ++ ' ' :: operand.asOperand (print operand)
  | classLit type => type.print ++ ".class".toList
  | access array index => array.asOperand (print array) ++ '[' :: print index ++ [']']
  | field object n => object.asOperand (print object) ++ '.' :: n.toList
  | call n args => n.toList ++ bracketed (printAll args)
  | methodCall object n args =>
    -- arguments stand between brackets of their own and need no others
    object.asOperand (print object) ++ '.' :: n.toList ++ bracketed (printAll args)
  | binary op left right =>
    left.asOperand (print left) ++ [' ', op.sign, ' '] ++ right.asOperand (print right)
  | postIncrement operand => operand.asOperand (print operand) ++ ['+', '+']
  | booleanLit b => (toString b).toList
  | intLit n => (toString n.toInt).toList
  | longLit n => (toString n.toInt).toList ++ ['L']
  | floatLit x => Java.floatLit x
  | doubleLit x => Java.doubleLit x
  | charLit unit => Java.charLit unit
  | stringLit s => Java.stringLit s

/-- The texts of expressions, with commas between them. -/
def printAll : List Expr → List Char
  | [] => []
  | [e] => print e
  | e :: es => print e ++ ',' :: ' ' :: printAll es
end

end Expr

/-! ## Statements -/

/-- The text of a declaration, without the semicolon. -/
def VarDecl.print (d : VarDecl) : List Char :=
  (if d.isFinal then "final ".toList else []) ++ d.type.print ++ ' ' :: d.name.toList ++
    " = ".toList ++ d.init.print

namespace Stmt

mutual
/-- Writes a statement. -/
def write : Stmt → Writer
  | declare decl => return decl.print ++ [';']
  | forLoop init condition update body => do
    let head := "for (".toList ++ init.print ++ "; ".toList ++ condition.print ++ "; ".toList ++
      update.print ++ ") ".toList
    return head ++ (← Writer.block (.lines (writeEach body)))
  | eval expr => return expr.print ++ [';']
  | ret none => return "return;".toList
  | ret (some value) => return "return ".toList ++ value.print ++ [';']
  | raise value => return "throw ".toList ++ value.print ++ [';']

/-- What writes each of some statements. -/
def writeEach : List Stmt → List Writer
  | [] => []
  | s :: ss => s.write :: writeEach ss
end

/-- The text of a statement at a level of indentation. -/
def print (width level : Nat) (s : Stmt) : List Char := s.write.textAt width level

end Stmt

/-- Writes a block of statements. -/
def writeBlock (body : List Stmt) : Writer := .block (.lines (Stmt.writeEach body))

/-- The text of a block of statements at a level of indentation. -/
def printBlock (width level : Nat) (body : List Stmt) : List Char :=
  (writeBlock body).textAt width level

/-! ## Classes -/

/-- The text of a parameter. -/
def Parameter.print (p : Parameter) : List Char := p.type.print ++ ' ' :: p.name.toList

/-- The text of a list of parameters. -/
def printParams (params : List Parameter) : List Char :=
  bracketed (separated [',', ' '] (params.map Parameter.print))

/-- A word and a space, if it applies. -/
def modifier (applies : Bool) (word : String) : List Char :=
  if applies then word.toList ++ [' '] else []

/-- The text of a variable of a class. -/
def DataMember.print (m : DataMember) : List Char :=
  "public ".toList ++ modifier m.isStatic "static" ++ modifier m.isFinal "final" ++
    m.type.print ++ ' ' :: m.name.toList ++ " = ".toList ++ m.init.print ++ [';']

/-- Writes a constructor. -/
def Constructor.write (m : Constructor) : Writer := do
  let head := "public ".toList ++ m.name.toList ++ printParams m.params ++ [' ']
  return head ++ (← writeBlock m.body)

/-- Writes a method. -/
def Method.write (m : Method) : Writer := do
  let head := "public ".toList ++ modifier m.isStatic "static" ++
    (m.result.elim "void".toList Ty.print) ++ ' ' :: m.name.toList ++ printParams m.params ++ [' ']
  return head ++ (← writeBlock m.body)

/-- The text of a method at a level of indentation. -/
def Method.print (width level : Nat) (m : Method) : List Char := m.write.textAt width level

/-- Writes a member. -/
def Member.write : Member → Writer
  | data m => return m.print
  | constructor m => m.write
  | method m => m.write

/-- The text of a member at a level of indentation. -/
def Member.print (width level : Nat) (m : Member) : List Char := m.write.textAt width level

/-- Writes a class. An empty line stands between members. -/
def ClassDecl.write (c : ClassDecl) : Writer := do
  let head := "public ".toList ++ modifier c.isFinal "final" ++ "class ".toList ++ c.name.toList ++
    [' ']
  let members := do Writer.separated ('\n' :: (← Writer.newline)) (c.members.map Member.write)
  return head ++ (← Writer.block members)

/-- The text of a class at a level of indentation. -/
def ClassDecl.print (width level : Nat) (c : ClassDecl) : List Char := c.write.textAt width level

/-- Writes a source file. -/
def SourceFile.write (f : SourceFile) : Writer := do
  let package := f.package.elim [] fun p => "package ".toList ++ p.toList ++ ";\n\n".toList
  let imports := f.imports.flatMap fun i => "import ".toList ++ i.toList ++ ";\n".toList
  return package ++ imports ++ (if f.imports.isEmpty then [] else ['\n']) ++
    (← f.classDecl.write) ++ ['\n']

/-- The text of a source file. -/
def SourceFile.print (width : Nat) (f : SourceFile) : List Char := f.write.textAt width 0

end ArrayBridge.Java
