/-!
# Element kinds

The eight kinds of element that have a native array of their own, and the names under which each
kind appears: as an element type, as an array wrapper and in boxed form.

* `Kind.all` fixes the order in which kinds are listed.
* `Kind.ofNativeName?` reads a native name back (`ofNativeName?_nativeName`).
-/

namespace ArrayBridge

/-- A kind of element with a native array representation. -/
inductive Kind where
  | boolean
  | short
  | int
  | long
  | float
  | double
  | char
  | byte
deriving DecidableEq, Repr, Inhabited

namespace Kind

/-- Every kind, in the order of the table. -/
def all : List Kind := [boolean, short, int, long, float, double, char, byte]

/-- The capitalised name, from which the other names are formed. -/
def name : Kind → String
  | boolean => "Boolean"
  | short => "Short"
  | int => "Int"
  | long => "Long"
  | float => "Float"
  | double => "Double"
  | char => "Char"
  | byte => "Byte"

/-- The host's spelling of the element type, as in `int[]`. -/
def nativeName : Kind → String
  | boolean => "boolean"
  | short => "short"
  | int => "int"
  | long => "long"
  | float => "float"
  | double => "double"
  | char => "char"
  | byte => "byte"

/-- The name of the array wrapper, such as `IntArray`. -/
def wrapperName (k : Kind) : String := k.name ++ "Array"

/-- The name of the boxed form. The integer kinds but `byte` share one, and so do the two
floating-point kinds. -/
def boxedName : Kind → String
  | boolean => "Boolean"
  | short | int | long => "Integer"
  | float | double => "Float"
  | char => "Character"
  | byte => "Byte"

/-- Place of the kind in the table. -/
def position (k : Kind) : Nat := all.idxOf k

/-- The kind with the given native name. -/
def ofNativeName? (s : String) : Option Kind := all.find? (·.nativeName == s)

theorem mem_all (k : Kind) : k ∈ all := by cases k <;> decide

@[simp] theorem ofNativeName?_nativeName (k : Kind) : ofNativeName? k.nativeName = some k := by
  cases k <;> decide

theorem nativeName_injective {k l : Kind} (h : k.nativeName = l.nativeName) : k = l :=
  Option.some.inj (by rw [← ofNativeName?_nativeName k, h, ofNativeName?_nativeName])

end Kind

end ArrayBridge
