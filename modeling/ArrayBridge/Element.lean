import ArrayBridge.Kind
import ArrayBridge.Binary.Decimal
import ArrayBridge.Text.Quoted

/-!
# Elements

`Prim` is one unboxed element, `Boxed` the form that an element takes inside a generic sequence.
Several kinds share one boxed form, so boxing widens and unboxing may refuse.

* `Prim.box` and `Kind.unbox` go between the two.
* `Prim.toSlot` and `Kind.ofSlot` go between an element and the raw word that stores it.
-/

namespace ArrayBridge

open Binary (Single Double Number)

/-- One unboxed element. -/
inductive Prim where
  | boolean (value : Bool)
  | short (value : Int16)
  | int (value : Int32)
  | long (value : Int64)
  | float (value : Single)
  | double (value : Double)
  | char (value : Char)
  | byte (value : Int8)
deriving DecidableEq, Inhabited

/-- One element in the form that generic code sees. -/
inductive Boxed where
  | boolean (value : Bool)
  | integer (value : Int64)
  | float (value : Double)
  | character (value : Char)
  | byte (value : Int8)
deriving DecidableEq, Inhabited

/-- The zero value of each kind, which an array holds unless told otherwise. -/
def Kind.zero : Kind → Prim
  | .boolean => .boolean false
  | .short => .short 0
  | .int => .int 0
  | .long => .long 0
  | .float => .float .zero
  | .double => .double .zero
  | .char => .char '\x00'
  | .byte => .byte 0

namespace Prim

/-- The kind of an element. -/
def kind : Prim → Kind
  | boolean _ => .boolean
  | short _ => .short
  | int _ => .int
  | long _ => .long
  | float _ => .float
  | double _ => .double
  | char _ => .char
  | byte _ => .byte

/-- Whether the element is the zero value of its kind. Negative zero is not. -/
def isZero (p : Prim) : Bool := p = p.kind.zero

/-- The boxed form, in which integers and floating-point numbers are widened. -/
def box : Prim → Boxed
  | boolean b => .boolean b
  | short n => .integer n.toInt64
  | int n => .integer n.toInt64
  | long n => .integer n
  | float x => .float x.widen
  | double x => .float x
  | char c => .character c
  | byte n => .byte n

/-- The text of an element. -/
def text : Prim → String
  | boolean b => toString b
  | short n => toString n.toInt
  | int n => toString n.toInt
  | long n => toString n.toInt
  | float x => String.ofList x.text
  | double x => String.ofList x.text
  | char c => String.ofList (Text.quotedChar c)
  | byte n => toString n.toInt

end Prim

@[simp] theorem Kind.kind_zero (k : Kind) : k.zero.kind = k := by cases k <;> rfl

namespace Boxed

/-- The name of the boxed form. -/
def typeName : Boxed → String
  | boolean _ => "Boolean"
  | integer _ => "Integer"
  | float _ => "Float"
  | character _ => "Character"
  | byte _ => "Byte"

/-- The text of a boxed element. -/
def text : Boxed → String
  | boolean b => toString b
  | integer n => toString n.toInt
  | float x => String.ofList x.text
  | character c => String.ofList (Text.quotedChar c)
  | byte n => toString n.toInt

/-- The text of a boxed element under its name, as in `Integer(1)`. -/
def taggedText (b : Boxed) : String := b.typeName ++ "(" ++ b.text ++ ")"

end Boxed

/-- The element of kind `k` with the given boxed form, if it is a form of that kind and the value
fits. Floating-point numbers are rounded to the nearest of the kind. -/
def Kind.unbox : Kind → Boxed → Option Prim
  | .boolean, .boolean b => some (.boolean b)
  | .short, .integer n => if n.toInt16.toInt64 = n then some (.short n.toInt16) else none
  | .int, .integer n => if n.toInt32.toInt64 = n then some (.int n.toInt32) else none
  | .long, .integer n => some (.long n)
  | .float, .float x => some (.float x.narrow)
  | .double, .float x => some (.double x)
  | .char, .character c => some (.char c)
  | .byte, .byte n => some (.byte n)
  | _, _ => none

@[simp] theorem Prim.typeName_box (p : Prim) : p.box.typeName = p.kind.boxedName := by
  cases p <;> rfl

/-! ## Storage -/

/-- The raw word that stores one element. -/
abbrev Slot := UInt64

/-- The word that stores an element: integers by their low bits, floating-point numbers by their
bits, characters by their code. -/
def Prim.toSlot : Prim → Slot
  | boolean b => if b then 1 else 0
  | short n => n.toUInt16.toUInt64
  | int n => n.toUInt32.toUInt64
  | long n => n.toUInt64
  | float x => UInt64.ofNat x.toBits
  | double x => UInt64.ofNat x.toBits
  | char c => c.val.toUInt64
  | byte n => n.toUInt8.toUInt64

/-- The element of kind `k` that a word stores. A word that is no character's code stores the
zero character. -/
def Kind.ofSlot (k : Kind) (w : Slot) : Prim :=
  match k with
  | .boolean => .boolean (w != 0)
  | .short => .short w.toUInt16.toInt16
  | .int => .int w.toUInt32.toInt32
  | .long => .long w.toInt64
  | .float => .float (Number.ofBits .single w.toUInt32.toNat)
  | .double => .double (Number.ofBits .double w.toNat)
  | .char => .char (Char.ofNat w.toUInt32.toNat)
  | .byte => .byte w.toUInt8.toInt8

@[simp] theorem Kind.kind_ofSlot (k : Kind) (w : Slot) : (k.ofSlot w).kind = k := by
  cases k <;> rfl

end ArrayBridge
