import ArrayBridge.Erased.Value
import ArrayBridge.Wrapper.Call

/-!
# Sample scenarios

Small bridge programs together with the results that they have to give.
-/

namespace ArrayBridge

namespace Bridge

/-- Bindings in the making: each new binding is the next local. -/
abbrev Draft := StateT (List Binding) (Except CallError)

namespace Draft

/-- Adds a binding. -/
def bind (type : Ty) (expr : Expr) : Draft Local := fun bindings =>
  .ok (bindings.length, bindings ++ [⟨type, expr⟩])

/-- Adds an integer. -/
def integer (n : Int64) : Draft Local := Draft.bind .integer (.intLit n)

/-- Adds a primitive value. -/
def prim (p : Prim) : Draft Local := Draft.bind (.prim p.kind) (.primLit p)

/-- Adds a call to a member of the wrapper of kind `k`. -/
def call (type : Ty) (k : Kind) (op : Operation) (receiver : Option Local)
    (args : List (Argument Local)) : Draft Local := do
  let expr ← (op.build k receiver args : Except CallError Expr)
  Draft.bind type expr

/-- The program that returns a tuple of the given locals. -/
def program (draft : Draft (List (Ty × Local))) : Except CallError Program := do
  let (items, bindings) ← draft.run []
  let result : Binding := ⟨.tuple (items.map (·.1)), .tuple (items.map (·.2))⟩
  return ⟨bindings ++ [result], bindings.length⟩

end Draft

end Bridge

open ArrayBridge.Erased (Value)

/-- What a component of a result has to be. -/
inductive Expected where
  /-- An array or a sequence of these elements. -/
  | elements (items : List Boxed)
  | element (value : Prim)
deriving DecidableEq

/-- Whether a value is as expected. -/
def Expected.holds (s : Store) : Expected → Value → Bool
  | elements items, v => v.elements? s = some items
  | element p, .prim q => p = q
  | element _, _ => false

/-- A program with a name and its expected result, one entry for each component of a tuple. -/
structure Scenario where
  name : String
  /-- The Java class of the program. -/
  className : String
  program : Bridge.Program
  expected : List Expected

/-- Whether a value is the expected result. -/
def Scenario.check (sc : Scenario) (s : Store) : Value → Bool
  | .tuple items =>
    items.length = sc.expected.length && (sc.expected.zip items).all fun (e, v) => e.holds s v
  | _ => false

namespace Scenario

open Bridge (Draft)
open Argument (positional)

/-- The elements of an integer array. -/
def integers (ns : List Int64) : List Boxed := ns.map .integer

/-- Writes to an array and copies it into another. -/
def intCopy : Except CallError Scenario := do
  let program ← Draft.program do
    let five ← Draft.integer 5
    let nought ← Draft.prim (.int 0)
    let a ← Draft.call (.wrapper .int) .int .construct none [positional five, positional nought]
    let two ← Draft.integer 2
    let answer ← Draft.prim (.int 42)
    let _ ← Draft.call .unit .int .set (some a) [positional two, positional answer]
    let b ← Draft.call (.wrapper .int) .int .construct none [positional five]
    let _ ← Draft.call .unit .int .copyTo (some a) [positional b]
    return [(.wrapper .int, a), (.wrapper .int, b)]
  return {
    name := "int copy"
    className := "IntCopy"
    program
    expected := [.elements (integers [0, 0, 42, 0, 0]), .elements (integers [0, 0, 42, 0, 0])] }

/-- Writes to an array through its generic view. -/
def booleanView : Except CallError Scenario := do
  let viewType := .object (.genericView .boolean)
  let program ← Draft.program do
    let three ← Draft.integer 3
    let yes ← Draft.prim (.boolean true)
    let a ← Draft.call (.wrapper .boolean) .boolean .construct none
      [positional three, positional yes]
    let view ← Draft.call viewType .boolean .toGenericView (some a) []
    let one ← Draft.integer 1
    let no ← Draft.prim (.boolean false)
    let _ ← Draft.bind .unit (.genericSet view one no)
    let item ← Draft.call (.prim .boolean) .boolean .get (some a) [positional one]
    return [(viewType, view), (.prim .boolean, item)]
  return {
    name := "boolean view"
    className := "BooleanView"
    program
    expected :=
      [.elements [.boolean true, .boolean false, .boolean true], .element (.boolean false)] }

/-- Copies an array through its generic view; the copy is independent of it. -/
def longRoundTrip : Except CallError Scenario := do
  let program ← Draft.program do
    let three ← Draft.integer 3
    let nine ← Draft.prim (.long 9)
    let a ← Draft.call (.wrapper .long) .long .construct none [positional three, positional nine]
    let first ← Draft.integer 0
    let negative ← Draft.prim (.long (-4))
    let _ ← Draft.call .unit .long .set (some a) [positional first, positional negative]
    let view ← Draft.call (.object (.genericView .long)) .long .toGenericView (some a) []
    let copy ← Draft.call (.wrapper .long) .long .fromGenericView none [positional view]
    let second ← Draft.integer 1
    let nought ← Draft.prim (.long 0)
    let _ ← Draft.call .unit .long .set (some copy) [positional second, positional nought]
    return [(.wrapper .long, a), (.wrapper .long, copy)]
  return {
    name := "long round trip"
    className := "LongRoundTrip"
    program
    expected := [.elements (integers [-4, 9, 9]), .elements (integers [-4, 0, 9])] }

/-- Every scenario, in the order in which they are run. -/
def all : Except CallError (List Scenario) := do
  return [← intCopy, ← booleanView, ← longRoundTrip]

end Scenario

end ArrayBridge
