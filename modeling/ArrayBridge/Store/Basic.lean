import ArrayBridge.Store.Fault

/-!
# The store

Arrays and boxed sequences live in a store; values refer to them, so that several references may
share one storage. A reference to an array carries the array's kind, and the store itself only
holds raw words.

* `Store.elements` is the view of an array: its elements in order.
* `Action` is a computation that may change the store and may fail. The store outlives a failure.
-/

namespace ArrayBridge

/-- A reference to a native array of some kind. -/
structure ArrayRef where
  kind : Kind
  place : Nat
deriving DecidableEq, Repr

/-- A reference to a sequence of boxed elements of some type. -/
structure BoxedRef where
  element : Descriptor
  place : Nat
deriving DecidableEq

/-- The storage of arrays and of boxed sequences. -/
@[ext]
structure Store where
  arrays : Array (Array Slot)
  sequences : Array (Array Boxed)

namespace Store

/-- The store without any array or sequence. -/
def empty : Store := ⟨#[], #[]⟩

instance : Inhabited Store := ⟨empty⟩

variable (s : Store)

/-! ## Arrays -/

/-- The words of an array. -/
def slots (a : ArrayRef) : Array Slot := s.arrays.getD a.place #[]

/-- The length of an array. -/
def length (a : ArrayRef) : Nat := (s.slots a).size

/-- The elements of an array. -/
def elements (a : ArrayRef) : List Prim := (s.slots a).toList.map a.kind.ofSlot

/-- The word at a place of an array. -/
def word (a : ArrayRef) (i : Nat) : Slot := (s.slots a).getD i 0

/-- The element at a place of an array. -/
def element (a : ArrayRef) (i : Nat) : Prim := a.kind.ofSlot (s.word a i)

/-- The store in which a place of an array holds the given word. -/
def writeWord (a : ArrayRef) (i : Nat) (w : Slot) : Store :=
  { s with arrays := s.arrays.modify a.place (·.setIfInBounds i w) }

/-- The store in which a place of an array holds the given element. -/
def write (a : ArrayRef) (i : Nat) (value : Prim) : Store := s.writeWord a i value.toSlot

/-- The store with a further array, and the reference to it. -/
def newArray (kind : Kind) (elements : Array Prim) : ArrayRef × Store :=
  (⟨kind, s.arrays.size⟩, { s with arrays := s.arrays.push (elements.map Prim.toSlot) })

/-! ## Boxed sequences -/

/-- The items of a boxed sequence. -/
def items (q : BoxedRef) : Array Boxed := s.sequences.getD q.place #[]

/-- The store in which a place of a boxed sequence holds the given item. -/
def writeItem (q : BoxedRef) (i : Nat) (value : Boxed) : Store :=
  { s with sequences := s.sequences.modify q.place (·.setIfInBounds i value) }

/-- The store with a further boxed sequence, and the reference to it. -/
def newSequence (element : Descriptor) (items : Array Boxed) : BoxedRef × Store :=
  (⟨element, s.sequences.size⟩, { s with sequences := s.sequences.push items })

end Store

/-- Whether two references are to one storage. -/
def ArrayRef.sharesStorageWith (a b : ArrayRef) : Bool := a = b

/-! ## Actions -/

/-- A computation on the store that may fail. -/
abbrev Action (ε : Type) := EStateM ε Store

namespace Action

variable {ε ε' α : Type}

/-- What can be seen in the store. -/
def view (f : Store → α) : Action ε α := fun s => .ok (f s) s

/-- A change of the store together with a result. -/
def change (f : Store → α × Store) : Action ε α := fun s => .ok (f s).1 (f s).2

/-- A result that may be a failure, the store unseen. -/
def lift : Except ε α → Action ε α
  | .ok a => pure a
  | .error e => throw e

/-- The action with another account of its failures. -/
def mapError (f : ε → ε') (action : Action ε α) : Action ε' α := action.adaptExcept f

end Action

end ArrayBridge
