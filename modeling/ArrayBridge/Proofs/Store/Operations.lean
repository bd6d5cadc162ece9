import ArrayBridge.Proofs.Store.Action
import ArrayBridge.Proofs.Traversal
import ArrayBridge.Store.Sequence

/-!
# What array operations do

Each operation on arrays and sequences as one case distinction on its operands and the store: which
fault it ends in, or what it returns and how the store looks afterwards. Proofs about programs use
these equations and do not open the operations.

Main results:

* `new_apply`, `get_apply`, `set_apply`, `copyTo_apply` — the operations on native arrays.
* `set_eq_ok`, `copyTo_eq_ok` — what an operation has done that succeeds.
* `copyRange?_eq_some`, `copyCount_of_copyRange?` — the range of a copy.
* `ofSequence_apply`, `setItem_view_apply`, `setItem_boxed_apply` — the operations on generic
  sequences.
* `not_isKindMismatch_of_new`, … — operands of the right kind are never refused for their kind.
* `length_itemsOf`, `getElem?_itemsOf` — the size and the items of a sequence are those of its
  view.
-/

namespace ArrayBridge

variable (s : Store)

/-! ## Native arrays -/

namespace ArrayRef

/-- Making an array: the size is checked first for its sign, then against the largest length. -/
theorem new_apply (k : Kind) (size : Int64) (element : Option Prim)
    (hkind : ∀ p ∈ element, p.kind = k) :
    new k size element s =
      if size < 0 then .error (.negativeSize k size) s
      else if maxLength < size.toInt then .error (.sizeTooLarge k size) s
      else
        let fresh := s.newArray k (.replicate size.toInt.toNat (element.getD k.zero))
        .ok fresh.1 fresh.2 := by
  -- the kind of the element is checked first
  have hcheck : element.elim (.ok ()) (k.expect .construct) = .ok () := by
    cases element with
    | none => rfl
    | some p => rw [Option.elim_some, Kind.expect, if_pos (hkind p rfl)]
  rw [new, hcheck, Action.lift_ok, Action.pure_bind_apply, checkSize]
  by_cases hneg : size < 0
  · rw [if_pos hneg, if_pos hneg]
    rfl
  · rw [if_neg hneg, if_neg hneg]
    by_cases hmax : maxLength < size.toInt
    · rw [if_pos hmax, if_pos hmax]
      rfl
    · rw [if_neg hmax, if_neg hmax]
      rfl

/-- A size of a new array has to be natural and within the maximum. -/
theorem new_of_le (k : Kind) (element : Option Prim) {size : Int64}
    (hkind : ∀ p ∈ element, p.kind = k) (hlo : 0 ≤ size.toInt) (hhi : size.toInt ≤ maxLength) :
    new k size element s = .ok ⟨k, s.arrays.size⟩
      (s.newArray k (.replicate size.toInt.toNat (element.getD k.zero))).2 := by
  have hneg : ¬ size < 0 := by
    rw [Int64.lt_iff_toInt_lt]
    exact Int.not_lt.mpr hlo
  rw [new_apply s k size element hkind, if_neg hneg, if_neg (Int.not_lt.mpr hhi)]
  rfl

/-- A size out of bounds makes no array. -/
theorem new_of_not_le (k : Kind) (element : Option Prim) {size : Int64}
    (hkind : ∀ p ∈ element, p.kind = k) (hsize : ¬ (0 ≤ size.toInt ∧ size.toInt ≤ maxLength)) :
    ∃ fault, new k size element s = .error fault s := by
  rw [new_apply s k size element hkind]
  by_cases hneg : size < 0
  · exact ⟨_, if_pos hneg⟩
  · have hmax : maxLength < size.toInt := by
      rw [Int64.lt_iff_toInt_lt] at hneg
      have hlo : 0 ≤ size.toInt := Int.not_lt.mp hneg
      omega
    rw [if_neg hneg, if_pos hmax]
    exact ⟨_, rfl⟩

/-- An array of zero elements is the one that is made without an element. -/
theorem new_of_isZero {k : Kind} {p : Prim} (size : Int64) (hkind : p.kind = k)
    (hzero : p.isZero = true) : new k size (some p) = new k size none := by
  have hp : p = k.zero := hkind ▸ of_decide_eq_true hzero
  -- both arrays are filled with the same element
  funext s
  rw [new_apply s k size (some p) (by simpa using hkind), new_apply s k size none (by simp), hp]
  rfl

/-- Reading within the length, and the fault outside it. -/
theorem get_apply (a : ArrayRef) (index : Int64) :
    a.get index s =
      if 0 ≤ index.toInt ∧ index.toInt < s.length a then
        .ok (s.element a index.toInt.toNat) s
      else .error (.indexOutOfBounds .get a.kind index (s.length a)) s := by
  rw [get, Action.view_bind_apply, checkIndex]
  split <;> rfl

/-- Writing within the length, and the fault outside it. -/
theorem set_apply (a : ArrayRef) (index : Int64) (value : Prim) (hkind : value.kind = a.kind) :
    a.set index value s =
      if 0 ≤ index.toInt ∧ index.toInt < s.length a then
        .ok () (s.write a index.toInt.toNat value)
      else .error (.indexOutOfBounds .set a.kind index (s.length a)) s := by
  rw [set, Kind.expect, if_pos hkind, Action.lift_ok, Action.pure_bind_apply,
    Action.view_bind_apply, checkIndex]
  split <;> rfl

/-- A copy moves elements if its range is one of both arrays, and faults on all three numbers
otherwise. -/
theorem copyTo_apply (a destination : ArrayRef) (sourceOffset destinationOffset : Int64)
    (length : Option Int64) (hkind : destination.kind = a.kind) :
    a.copyTo destination sourceOffset destinationOffset length s =
      match copyRange? (s.length a) (s.length destination) sourceOffset destinationOffset
        length with
      | some range => .ok () (a.moveElements destination range s)
      | none => .error (.invalidCopyRange a.kind sourceOffset destinationOffset length (s.length a)
          (s.length destination)) s := by
  have hne : ¬ destination.kind ≠ a.kind := fun h => h hkind
  rw [copyTo, if_neg hne]
  dsimp only
  rw [Action.view_bind_apply, Action.view_bind_apply]
  cases copyRange? (s.length a) (s.length destination) sourceOffset destinationOffset length <;> rfl

/-! ### Ranges -/

/-- A number is a position up to a limit exactly when it is neither negative nor past it. -/
theorem upTo?_eq_some {limit m : Nat} {n : Int64} :
    upTo? limit n = some m ↔ n.toInt = m ∧ m ≤ limit := by
  rw [upTo?]
  split <;> rename_i h
  · rw [Option.some.injEq]
    omega
  · simp only [reduceCtorEq, false_iff]
    omega

/-- A range starts at the offsets and lies within both arrays. Its count is the one that is given,
or else what is left of the shorter rest. -/
theorem copyRange?_eq_some {m n : Nat} {sourceOffset destinationOffset : Int64}
    {length : Option Int64} {range : CopyRange} :
    copyRange? m n sourceOffset destinationOffset length = some range ↔
      (sourceOffset.toInt = range.source ∧ range.source ≤ m) ∧
      (destinationOffset.toInt = range.destination ∧ range.destination ≤ n) ∧
      match length with
      | none => range.count = min (m - range.source) (n - range.destination)
      | some count => count.toInt = range.count ∧
          range.count ≤ min (m - range.source) (n - range.destination) := by
  obtain ⟨source, destination, count⟩ := range
  -- the count is settled last, after both offsets
  cases length with
  | none =>
    simp only [copyRange?, Option.bind_eq_bind, Option.bind_eq_some_iff, upTo?_eq_some,
      Option.pure_def, Option.some.injEq, CopyRange.mk.injEq]
    constructor
    · rintro ⟨_, hsource, _, hdestination, _, rfl, rfl, rfl, rfl⟩
      exact ⟨hsource, hdestination, rfl⟩
    · rintro ⟨hsource, hdestination, rfl⟩
      exact ⟨source, hsource, destination, hdestination, _, rfl, rfl, rfl, rfl⟩
  | some c =>
    simp only [copyRange?, Option.bind_eq_bind, Option.bind_eq_some_iff, upTo?_eq_some,
      Option.pure_def, Option.some.injEq, CopyRange.mk.injEq]
    constructor
    · rintro ⟨_, hsource, _, hdestination, _, hcount, rfl, rfl, rfl⟩
      exact ⟨hsource, hdestination, hcount⟩
    · rintro ⟨hsource, hdestination, hcount⟩
      exact ⟨source, hsource, destination, hdestination, count, hcount, rfl, rfl, rfl⟩

/-- The number of elements that a copy asks for: the given length, or what is left of the shorter
rest of the two arrays past their offsets. -/
def copyCount (sourceLength destinationLength : Nat) (m n : Int64) (length : Option Int64) : Int :=
  length.elim (min (sourceLength - m.toInt) (destinationLength - n.toInt)) Int64.toInt

/-- The range of a copy that is made is the one that is asked for. -/
theorem copyCount_of_copyRange? {sourceLength destinationLength : Nat} {m n : Int64}
    {length : Option Int64} {range : CopyRange}
    (h : copyRange? sourceLength destinationLength m n length = some range) :
    m.toInt = range.source ∧ n.toInt = range.destination ∧
      copyCount sourceLength destinationLength m n length = range.count := by
  obtain ⟨⟨hm, hsource⟩, ⟨hn, hdestination⟩, hcount⟩ := copyRange?_eq_some.mp h
  refine ⟨hm, hn, ?_⟩
  -- without a length, the count is what is left past both offsets
  cases length with
  | none =>
    rw [copyCount, Option.elim_none, hm, hn]
    omega
  | some c => exact hcount.1

/-- A copy fails if an offset lies outside its array, whatever its length is. -/
theorem copyTo_of_outside {a d : ArrayRef} {m n : Int64}
    (hout : ¬ ((0 ≤ m.toInt ∧ m.toInt ≤ s.length a) ∧ 0 ≤ n.toInt ∧ n.toInt ≤ s.length d))
    (length : Option Int64) : ∃ fault, a.copyTo d m n length s = .error fault s := by
  -- Arrays of different kinds are refused before any offset is looked at.
  by_cases hkind : d.kind = a.kind
  · rw [copyTo_apply s a d m n length hkind]
    cases hrange : copyRange? (s.length a) (s.length d) m n length with
    | none => exact ⟨_, rfl⟩
    | some range =>
      obtain ⟨hsource, hdestination, -⟩ := copyRange?_eq_some.mp hrange
      exact absurd ⟨by omega, by omega⟩ hout
  · rw [copyTo, if_pos hkind]
    exact ⟨_, rfl⟩

/-- A copy without a length is the one of the length that remains. -/
theorem copyTo_of_remaining {a d : ArrayRef} {m n count : Int64} (hkind : d.kind = a.kind)
    (hm : 0 ≤ m.toInt ∧ m.toInt ≤ s.length a) (hn : 0 ≤ n.toInt ∧ n.toInt ≤ s.length d)
    (hcount : count.toInt = min (s.length a - m.toInt) (s.length d - n.toInt)) :
    a.copyTo d m n none s = a.copyTo d m n (some count) s := by
  -- both ask for this range
  let range : CopyRange := ⟨m.toInt.toNat, n.toInt.toNat, count.toInt.toNat⟩
  have hnone : copyRange? (s.length a) (s.length d) m n none = some range := by
    rw [copyRange?_eq_some]
    refine ⟨?_, ?_, ?_⟩ <;> simp only [range] <;> omega
  have hsome : copyRange? (s.length a) (s.length d) m n (some count) = some range := by
    rw [copyRange?_eq_some]
    refine ⟨?_, ?_, ?_⟩ <;> simp only [range] <;> omega
  rw [copyTo_apply s a d m n none hkind, copyTo_apply s a d m n (some count) hkind, hnone, hsome]

/-- The elements are unboxed before anything is allocated. -/
theorem ofSequence_apply (k : Kind) (q : Sequence) :
    ofSequence k q s =
      match (List.range (q.size s)).mapM (unboxItem k q s) with
      | .ok elements =>
        .ok (s.newArray k elements.toArray).1 (s.newArray k elements.toArray).2
      | .error fault => .error fault s := by
  rw [ofSequence, Action.view_bind_apply]
  show (Action.lift ((List.range (q.size s)).mapM (unboxItem k q s)) >>= _) s = _
  cases (List.range (q.size s)).mapM (unboxItem k q s) <;> rfl

/-! ### Successful operations -/

variable {s} {s' : Store}

/-- A write that succeeds, and the store after it. -/
theorem set_eq_ok {a : ArrayRef} {index : Int64} {value : Prim} :
    a.set index value s = .ok () s' ↔
      value.kind = a.kind ∧ (0 ≤ index.toInt ∧ index.toInt < s.length a) ∧
        s' = s.write a index.toInt.toNat value := by
  by_cases hkind : value.kind = a.kind
  · rw [set_apply s a index value hkind]
    split <;> rename_i hrange <;> simp [hkind, hrange, eq_comm]
  · -- an element of another kind is refused before anything else
    rw [set, Kind.expect, if_neg hkind]
    simp [hkind]

/-- A copy that succeeds, and the store after it. -/
theorem copyTo_eq_ok {a d : ArrayRef} {m n : Int64} {length : Option Int64} :
    a.copyTo d m n length s = .ok () s' ↔
      d.kind = a.kind ∧ ∃ range, copyRange? (s.length a) (s.length d) m n length = some range ∧
        s' = a.moveElements d range s := by
  by_cases hkind : d.kind = a.kind
  · rw [copyTo_apply s a d m n length hkind]
    cases copyRange? (s.length a) (s.length d) m n length <;> simp [hkind, eq_comm]
  · -- arrays of two kinds are told apart before anything else
    rw [copyTo, if_pos hkind]
    simp [hkind]

/-- What is made by a size is an array of elements of its kind. -/
theorem exists_newArray_of_new {k : Kind} {size : Int64} {element : Option Prim} {a : ArrayRef}
    (h : new k size element s = .ok a s') :
    ∃ els : Array Prim, (∀ p ∈ els.toList, p.kind = k) ∧ a = (s.newArray k els).1 ∧
      s' = (s.newArray k els).2 := by
  simp only [new, Action.bind_eq_ok, Action.change_apply, EStateM.Result.ok.injEq] at h
  obtain ⟨_, s₁, hcheck, n, s₂, hsize, rfl, rfl⟩ := h
  obtain ⟨hcheck, rfl⟩ := Action.lift_eq_ok.mp hcheck
  obtain ⟨-, rfl⟩ := Action.lift_eq_ok.mp hsize
  refine ⟨_, fun p hp => ?_, rfl, rfl⟩
  rw [Array.toList_replicate] at hp
  rw [List.eq_of_mem_replicate hp]
  cases element with
  | none => exact k.kind_zero
  | some q =>
    -- the kind of a given element has been checked
    rw [Option.elim_some, Kind.expect] at hcheck
    split at hcheck
    · rename_i hkind
      exact hkind
    · cases hcheck

/-! ### Kinds of results -/

/-- An array has the kind it is made with. -/
theorem kind_of_new {k : Kind} {size : Int64} {element : Option Prim} {a : ArrayRef}
    (h : new k size element s = .ok a s') : a.kind = k := by
  obtain ⟨els, -, rfl, -⟩ := exists_newArray_of_new h
  rfl

/-- An element has the kind of its array. -/
theorem kind_of_get {a : ArrayRef} {index : Int64} {p : Prim} (h : a.get index s = .ok p s') :
    p.kind = a.kind := by
  rw [get_apply] at h
  split at h
  · injection h with h
    rw [← h]
    exact Kind.kind_ofSlot ..
  · cases h

theorem kind_of_ofSequence {k : Kind} {q : Sequence} {a : ArrayRef}
    (h : ofSequence k q s = .ok a s') : a.kind = k := by
  rw [ofSequence_apply] at h
  split at h
  · injection h with h
    rw [← h]
    rfl
  · cases h

end ArrayRef

/-! ## Generic sequences -/

/-- What is unboxed at a kind is of it. -/
theorem Kind.kind_of_unbox {k : Kind} {b : Boxed} {p : Prim} (h : k.unbox b = some p) :
    p.kind = k := by
  cases k <;> cases b <;> simp only [unbox, reduceCtorEq, Option.some.injEq] at h
  all_goals
    first
      | (subst h; rfl)
      | (split at h
         · injection h with h
           subst h
           rfl
         · cases h)

namespace Sequence

/-- Setting an item of a view: the index is bounded by the largest signed one, then the value is
unboxed, then it is stored. -/
theorem setItem_view_apply (a : ArrayRef) (index : Nat) (value : Boxed) :
    setItem (.view a) index value s =
      let bounded := Int64.ofNat (min index maxIndex)
      match a.kind.unbox value with
      | none => .error (.array (.typeMismatch .set a.kind bounded value)) s
      | some p =>
        if 0 ≤ bounded.toInt ∧ bounded.toInt < s.length a then
          .ok () (s.write a bounded.toInt.toNat p)
        else .error (.array (.indexOutOfBounds .set a.kind bounded (s.length a))) s := by
  simp only [setItem, Kind.unboxAt]
  cases hunbox : a.kind.unbox value with
  | none => exact Action.mapError_of_error (Action.bind_of_error rfl)
  | some p =>
    have hset := ArrayRef.set_apply s a (Int64.ofNat (min index maxIndex)) p
      (Kind.kind_of_unbox hunbox)
    show Action.mapError SequenceFault.array (a.set (Int64.ofNat (min index maxIndex)) p) s = _
    dsimp only
    split <;> rename_i hrange
    · rw [if_pos hrange] at hset
      exact Action.mapError_of_ok hset
    · rw [if_neg hrange] at hset
      exact Action.mapError_of_error hset

/-- Setting an item of a boxed sequence: the element type is checked first. A fault reports the
index as a signed number, and wraps it. -/
theorem setItem_boxed_apply (q : BoxedRef) (index : Nat) (value : Boxed) :
    setItem (.boxed q) index value s =
      if value.isInstanceOf q.element then
        if index < (s.items q).size then .ok () (s.writeItem q index value)
        else .error (.indexOutOfBounds (Int64.ofNat index) (s.items q).size) s
      else .error (.elementType value q.element) s := by
  by_cases htype : value.isInstanceOf q.element = true
  · by_cases hlt : index < (s.items q).size
    · have hle : ¬ (s.items q).size ≤ index := by omega
      simp [setItem, htype, hlt, hle]
    · have hle : (s.items q).size ≤ index := by omega
      simp [setItem, htype, hlt, hle]
  · simp [setItem, htype]

/-- A view takes what unboxes to the kind of its array, and hands the index on as a signed one. -/
theorem setItem_view_eq_ok {a : ArrayRef} {index : Nat} {b : Boxed} {s' : Store} :
    setItem (.view a) index b s = .ok () s' ↔
      ∃ p, a.kind.unbox b = some p ∧ (0 ≤ (Int64.ofNat (min index maxIndex)).toInt ∧
        (Int64.ofNat (min index maxIndex)).toInt < s.length a) ∧
        s' = s.write a (Int64.ofNat (min index maxIndex)).toInt.toNat p := by
  rw [setItem_view_apply]
  -- what the index is bounded to does not matter here
  generalize Int64.ofNat (min index maxIndex) = bounded
  cases a.kind.unbox b with
  | none => simp
  | some p =>
    dsimp only
    split <;> rename_i hrange <;> simp [hrange, eq_comm]

/-- A boxed sequence takes what is of its element type. -/
theorem setItem_boxed_eq_ok {q : BoxedRef} {index : Nat} {b : Boxed} {s' : Store} :
    setItem (.boxed q) index b s = .ok () s' ↔
      b.isInstanceOf q.element = true ∧ index < (s.items q).size ∧
        s' = s.writeItem q index b := by
  rw [setItem_boxed_apply]
  by_cases htype : b.isInstanceOf q.element = true <;>
    by_cases hlt : index < (s.items q).size <;> simp [htype, hlt, eq_comm]

/-- The size of a sequence is that of its view. -/
theorem length_itemsOf (q : Sequence) : (s.itemsOf q).length = q.size s := by
  cases q <;> simp [Store.itemsOf, size, Store.elements, Store.length]

/-- The items of a sequence are those of its view. -/
theorem getElem?_itemsOf (q : Sequence) (i : Nat) : (s.itemsOf q)[i]? = q.item? s i := by
  cases q <;> simp [Store.itemsOf, item?, Store.elements, Function.comp_def]

end Sequence

/-! ## Operands of the wrong kind -/

/-- Whether a fault is an operand of another kind than that of the array. -/
def ArrayFault.IsKindMismatch : ArrayFault → Prop
  | kindMismatch .. => True
  | _ => False

/-- Whether a fault comes from an array that refused an operand of another kind. -/
def SequenceFault.IsKindMismatch : SequenceFault → Prop
  | array fault => fault.IsKindMismatch
  | _ => False

section

variable {s} {s' : Store}

namespace ArrayRef

/-- No operation on arrays of its own kind fails over kinds. Making one has an element of the kind.
-/
theorem not_isKindMismatch_of_new {k : Kind} {size : Int64} {element : Option Prim}
    {fault : ArrayFault} (hkind : ∀ p ∈ element, p.kind = k)
    (h : new k size element s = .error fault s') : ¬ fault.IsKindMismatch := by
  rw [new_apply s k size element hkind] at h
  split at h
  · injection h with h
    exact h ▸ id
  · split at h
    · injection h with h
      exact h ▸ id
    · cases h

theorem not_isKindMismatch_of_get {a : ArrayRef} {index : Int64} {fault : ArrayFault}
    (h : a.get index s = .error fault s') : ¬ fault.IsKindMismatch := by
  rw [get_apply] at h
  split at h
  · cases h
  · injection h with h
    exact h ▸ id

theorem not_isKindMismatch_of_set {a : ArrayRef} {index : Int64} {value : Prim}
    {fault : ArrayFault} (hkind : value.kind = a.kind)
    (h : a.set index value s = .error fault s') : ¬ fault.IsKindMismatch := by
  rw [set_apply s a index value hkind] at h
  split at h
  · cases h
  · injection h with h
    exact h ▸ id

/-- Both arrays of a copy are of one kind. -/
theorem not_isKindMismatch_of_copyTo {a destination : ArrayRef}
    {sourceOffset destinationOffset : Int64} {length : Option Int64} {fault : ArrayFault}
    (hkind : destination.kind = a.kind)
    (h : a.copyTo destination sourceOffset destinationOffset length s = .error fault s') :
    ¬ fault.IsKindMismatch := by
  rw [copyTo_apply s a destination sourceOffset destinationOffset length hkind] at h
  split at h
  · cases h
  · injection h with h
    exact h ▸ id

/-- Items are unboxed at the kind, and the first that cannot be is another fault. -/
theorem not_isKindMismatch_of_ofSequence {k : Kind} {q : Sequence} {fault : ArrayFault}
    (h : ofSequence k q s = .error fault s') : ¬ fault.IsKindMismatch := by
  rw [ofSequence_apply] at h
  split at h
  · cases h
  · rename_i f hmap
    injection h with h
    -- items are refused one at a time, each for itself
    obtain ⟨i, -, hi⟩ := exists_of_mapM_eq_error hmap
    rw [unboxItem, h] at hi
    split at hi
    · injection hi with hi
      exact hi ▸ id
    · rw [Kind.unboxAt] at hi
      split at hi
      · cases hi
      · injection hi with hi
        exact hi ▸ id

end ArrayRef

/-- An item of a view is unboxed at its kind before it is stored. -/
theorem Sequence.not_isKindMismatch_of_setItem {q : Sequence} {index : Nat} {value : Boxed}
    {fault : SequenceFault} (h : q.setItem index value s = .error fault s') :
    ¬ fault.IsKindMismatch := by
  cases q with
  | view a =>
    rw [setItem_view_apply] at h
    dsimp only at h
    split at h
    · injection h with h
      exact h ▸ id
    · split at h
      · cases h
      · injection h with h
        exact h ▸ id
  | boxed q =>
    rw [setItem_boxed_apply] at h
    split at h
    · split at h
      · cases h
      · injection h with h
        exact h ▸ id
    · injection h with h
      exact h ▸ id

end

end ArrayBridge
