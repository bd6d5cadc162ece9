import ArrayBridge.Element

/-!
# Type descriptors

A descriptor stands for a type at run time: the class of a native array, the class of an array of
references, or a named type with type arguments. Two descriptors are the same exactly when they
have the same structure.

* `Descriptor.text` is the text of a descriptor.
* `Descriptor.conformsTo` is the subtype test: a type conforms to itself and to `anything`.
-/

namespace ArrayBridge

/-- A type at run time. -/
inductive Descriptor where
  /-- The class of the native arrays of one kind. -/
  | primitiveArray (kind : Kind)
  /-- The class of the native arrays of references. -/
  | referenceArray (element : Descriptor)
  /-- A named type with type arguments. -/
  | nominal (name : String) (arguments : List Descriptor)

namespace Descriptor

instance : Inhabited Descriptor := ⟨nominal "" []⟩

/-! ## Equality -/

mutual
/-- Structural equality. -/
def beq : Descriptor → Descriptor → Bool
  | primitiveArray k, primitiveArray l => k = l
  | referenceArray d, referenceArray e => beq d e
  | nominal m as, nominal n bs => m = n && beqAll as bs
  | _, _ => false

/-- Structural equality of lists of descriptors. -/
def beqAll : List Descriptor → List Descriptor → Bool
  | [], [] => true
  | d :: ds, e :: es => beq d e && beqAll ds es
  | _, _ => false
end

mutual
theorem beq_iff_eq : (d e : Descriptor) → (d.beq e = true ↔ d = e)
  | primitiveArray k, e => by cases e <;> simp [beq]
  | referenceArray d, e => by cases e <;> simp [beq, beq_iff_eq d]
  | nominal m as, e => by cases e <;> simp [beq, beqAll_iff_eq as]

theorem beqAll_iff_eq : (ds es : List Descriptor) → (beqAll ds es = true ↔ ds = es)
  | [], es => by cases es <;> simp [beqAll]
  | d :: ds, es => by cases es <;> simp [beqAll, beq_iff_eq d, beqAll_iff_eq ds]
end

instance : DecidableEq Descriptor := fun d e => decidable_of_iff _ (beq_iff_eq d e)

/-! ## Named types of the language -/

/-- The package of the built-in types. -/
def languagePackage : String := "reify.lang"

/-- A built-in type without type arguments. -/
def language (name : String) : Descriptor := nominal (languagePackage ++ "::" ++ name) []

/-- The type of the boxed elements of one kind. -/
def boxed (k : Kind) : Descriptor := language k.boxedName

/-- The name of the generic sequence type. -/
def sequenceName : String := languagePackage ++ "::Array"

/-- The generic sequence type of the given element type. -/
def sequenceOf (element : Descriptor) : Descriptor := nominal sequenceName [element]

/-- The generic sequence type as which an array of kind `k` is seen. -/
def genericView (k : Kind) : Descriptor := sequenceOf (boxed k)

/-- The type of every value. -/
def anything : Descriptor := language "Anything"

/-! ## Queries -/

/-- The element kind, of the class of a native array. -/
def elementKind? : Descriptor → Option Kind
  | primitiveArray k => some k
  | _ => none

/-- The type arguments, of a named type. -/
def arguments : Descriptor → List Descriptor
  | nominal _ as => as
  | _ => []

/-- Whether the type is a generic sequence type. -/
def isSequence : Descriptor → Bool
  | nominal name [_] => name = sequenceName
  | _ => false

/-- Whether a value of this type may stand where `other` is expected. -/
def conformsTo (d other : Descriptor) : Bool := d = other || other = anything

@[simp] theorem conformsTo_self (d : Descriptor) : d.conformsTo d = true := by simp [conformsTo]

@[simp] theorem conformsTo_anything (d : Descriptor) : d.conformsTo anything = true := by
  simp [conformsTo]

@[simp] theorem isSequence_sequenceOf (d : Descriptor) : (sequenceOf d).isSequence = true := by
  simp [sequenceOf, isSequence]

/-! ## Text -/

mutual
/-- The characters of a descriptor: array classes end in brackets, type arguments stand between
angle brackets. -/
def chars : Descriptor → List Char
  | primitiveArray k => k.nativeName.toList ++ ['[', ']']
  | referenceArray d => chars d ++ ['[', ']']
  | nominal name [] => name.toList
  | nominal name (d :: ds) => name.toList ++ '<' :: chars d ++ charsRest ds

/-- The type arguments after the first, and the closing bracket. -/
def charsRest : List Descriptor → List Char
  | [] => ['>']
  | d :: ds => ',' :: ' ' :: chars d ++ charsRest ds
end

/-- The text of a descriptor. -/
def text (d : Descriptor) : String := String.ofList d.chars

end Descriptor

/-- The type of a boxed element. -/
def Boxed.descriptor (b : Boxed) : Descriptor := Descriptor.language b.typeName

/-- Whether a boxed element is of the given type. -/
def Boxed.isInstanceOf (b : Boxed) (d : Descriptor) : Bool := b.descriptor.conformsTo d

end ArrayBridge
