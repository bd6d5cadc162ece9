import ArrayBridge.Erased.Program
import ArrayBridge.Store.Sequence

/-!
# Values

What a binding of an erased program is bound to. Arrays and sequences are references into the
store, so the text and the elements of a value are those of the store at hand.
-/

namespace ArrayBridge.Erased

/-- A value at run time. -/
inductive Value where
  | unit
  | integer (value : Int64)
  | prim (value : Prim)
  | array (ref : ArrayRef)
  | sequence (ref : Sequence)
  | boxed (value : Boxed)
  | descriptor (value : Descriptor)
  | tuple (items : List Value)

namespace Value

instance : Inhabited Value := ⟨unit⟩

/-- What a value is, its contents left out. -/
inductive Shape where
  | unit
  | integer
  | prim (kind : Kind)
  | array (kind : Kind)
  | sequence (type : Descriptor)
  | boxed (typeName : String)
  | descriptor
  | tuple
deriving DecidableEq

/-- The shape of a value. -/
def shape : Value → Shape
  | unit => .unit
  | integer _ => .integer
  | prim p => .prim p.kind
  | array a => .array a.kind
  | sequence q => .sequence q.descriptor
  | boxed b => .boxed b.typeName
  | descriptor _ => .descriptor
  | tuple _ => .tuple

/-- The name of a shape. -/
def Shape.text : Shape → String
  | unit => "Unit"
  | integer => "Integer"
  | prim k => k.nativeName
  | array k => k.nativeName ++ "[]"
  | sequence d => d.text
  | boxed name => name
  | descriptor => "TypeDescriptor"
  | tuple => "tuple"

/-- The elements of an array or a sequence, boxed. -/
def elements? (s : Store) : Value → Option (List Boxed)
  | array a => some (s.itemsOf a.toSequence)
  | sequence q => some (s.itemsOf q)
  | _ => none

mutual
/-- The text of a value. A tuple of one item has a comma after it, and one of none has no text. -/
def text (s : Store) : Value → String
  | unit => "()"
  | integer n => toString n.toInt
  | prim p => p.text
  | array a => s.arrayText a
  | sequence q => s.sequenceText q
  | boxed b => b.text
  | descriptor d => d.text
  | tuple [] => ""
  | tuple [v] => "(" ++ text s v ++ ",)"
  | tuple (v :: w :: vs) => "(" ++ text s v ++ ", " ++ text s w ++ textRest s vs

/-- The items after the second, and the closing bracket. -/
def textRest (s : Store) : List Value → String
  | [] => ")"
  | v :: vs => ", " ++ text s v ++ textRest s vs
end

end Value

end ArrayBridge.Erased
