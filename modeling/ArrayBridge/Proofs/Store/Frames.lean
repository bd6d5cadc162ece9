import ArrayBridge.Proofs.Store.Elements
import ArrayBridge.Proofs.Store.Operations

/-!
# What an action writes

Storage is made of cells: the words of native arrays and the items of boxed sequences. An action
names the cells that it may write. All other cells that were there before keep what they hold, no
array or sequence changes its length, and an action that fails has not written anything.

Main results:

* `Store.Frame.trans`, `Store.Frame.write`, `Store.Frame.moveElements` — what is kept along several
  writes.
* `Action.WritesOnly.lift_bind`, `Action.WritesOnly.view_bind` — steps that only read come first, so
  that nothing has been written where they fail.
* `ArrayRef.writesOnly_set`, `ArrayRef.writesOnly_copyTo`, `Sequence.writesOnly_setItem`, … — the
  cells that each operation writes, whatever its operands.
-/

namespace ArrayBridge

/-! ## Cells -/

/-- A place in the store that holds one word or one item. -/
inductive Cell where
  | word (array index : Nat)
  | item (sequence index : Nat)
deriving DecidableEq, Repr

/-- The cell of an element of an array. -/
def ArrayRef.cell (a : ArrayRef) (i : Nat) : Cell := .word a.place i

/-- The cell of an item of a sequence. A view has the cells of its array. -/
def Sequence.cell : Sequence → Nat → Cell
  | view a, i => a.cell i
  | boxed q, i => .item q.place i

namespace Store

/-- The arrays and sequences of a store are there in another one with their lengths, and only the
given cells may hold something else. -/
structure Frame (cells : Cell → Prop) (s s' : Store) : Prop where
  arrays : s.arrays.size ≤ s'.arrays.size
  sequences : s.sequences.size ≤ s'.sequences.size
  length : ∀ a : ArrayRef, a.place < s.arrays.size → s'.length a = s.length a
  size : ∀ q : BoxedRef, q.place < s.sequences.size → (s'.items q).size = (s.items q).size
  word : ∀ (a : ArrayRef) (i : Nat), a.place < s.arrays.size → ¬ cells (a.cell i) →
    (s'.slots a)[i]? = (s.slots a)[i]?
  item : ∀ (q : BoxedRef) (i : Nat), q.place < s.sequences.size → ¬ cells (.item q.place i) →
    (s'.items q)[i]? = (s.items q)[i]?

variable {cells cells' : Cell → Prop} {s s' s'' : Store}

theorem items_newSequence (element : Descriptor) (items : Array Boxed) (q : BoxedRef) :
    (s.newSequence element items).2.items q =
      if q.place = s.sequences.size then items else s.items q := by
  simp only [newSequence, Store.items, Array.getD_eq_getD_getElem?, Array.getElem?_push]
  split <;> rfl

/-- An item goes into one place of one sequence. -/
theorem items_writeItem (r q : BoxedRef) (i : Nat) (value : Boxed) :
    (s.writeItem r i value).items q =
      if q.place = r.place then (s.items q).setIfInBounds i value else s.items q := by
  simp only [writeItem, items, Array.getD_eq_getD_getElem?, Array.getElem?_modify, eq_comm]
  split
  · cases s.sequences[q.place]? <;> simp
  · rfl

namespace Frame

theorem refl (cells : Cell → Prop) (s : Store) : s.Frame cells s :=
  ⟨Nat.le_refl _, Nat.le_refl _, fun _ _ => rfl, fun _ _ => rfl, fun _ _ _ _ => rfl,
    fun _ _ _ _ => rfl⟩

/-- A frame for some cells is one for more of them. -/
theorem mono (h : s.Frame cells s') (hcells : ∀ c, cells c → cells' c) : s.Frame cells' s' where
  arrays := h.arrays
  sequences := h.sequences
  length := h.length
  size := h.size
  word a i ha hi := h.word a i ha fun hc => hi (hcells _ hc)
  item q i hq hi := h.item q i hq fun hc => hi (hcells _ hc)

-- what was there at first is there in between as well, so that the second frame speaks of it
/-- What two steps both keep, they keep together. -/
theorem trans (h : s.Frame cells s') (h' : s'.Frame cells s'') : s.Frame cells s'' where
  arrays := Nat.le_trans h.arrays h'.arrays
  sequences := Nat.le_trans h.sequences h'.sequences
  length a ha := (h'.length a (Nat.lt_of_lt_of_le ha h.arrays)).trans (h.length a ha)
  size q hq := (h'.size q (Nat.lt_of_lt_of_le hq h.sequences)).trans (h.size q hq)
  word a i ha hi := (h'.word a i (Nat.lt_of_lt_of_le ha h.arrays) hi).trans (h.word a i ha hi)
  item q i hq hi := (h'.item q i (Nat.lt_of_lt_of_le hq h.sequences) hi).trans (h.item q i hq hi)

/-- What is allocated is a further array, so no cell that was there before is written. -/
theorem newArray (cells : Cell → Prop) (s : Store) (k : Kind) (elements : Array Prim) :
    s.Frame cells (s.newArray k elements).2 := by
  -- the new array stands behind those that there are
  have hslots : ∀ a : ArrayRef, a.place < s.arrays.size →
      (s.newArray k elements).2.slots a = s.slots a := by
    intro a ha
    rw [slots_newArray, if_neg (Nat.ne_of_lt ha)]
  refine ⟨?_, Nat.le_refl _, fun a ha => ?_, fun _ _ => rfl, fun a i ha _ => ?_, fun _ _ _ _ => rfl⟩
  · simp [Store.newArray]
  · rw [Store.length, hslots a ha, Store.length]
  · rw [hslots a ha]

theorem newSequence (cells : Cell → Prop) (s : Store) (element : Descriptor)
    (items : Array Boxed) : s.Frame cells (s.newSequence element items).2 := by
  have hitems : ∀ q : BoxedRef, q.place < s.sequences.size →
      (s.newSequence element items).2.items q = s.items q := by
    intro q hq
    rw [items_newSequence, if_neg (Nat.ne_of_lt hq)]
  refine ⟨Nat.le_refl _, ?_, fun _ _ => rfl, fun q hq => ?_, fun _ _ _ _ => rfl, fun q i hq _ => ?_⟩
  · simp [Store.newSequence]
  · rw [hitems q hq]
  · rw [hitems q hq]

/-- A write changes the cell that it names. It is the same cell for every reference to the array. -/
theorem writeWord {b : ArrayRef} {i : Nat} (h : cells (b.cell i)) (w : Slot) :
    s.Frame cells (s.writeWord b i w) := by
  refine ⟨?_, Nat.le_refl _, fun a _ => length_writeWord s a b i w, fun _ _ => rfl,
    fun a j _ hj => ?_, fun _ _ _ _ => rfl⟩
  · simp
  · rw [slots_writeWord]
    split
    · rename_i hplace
      -- in the array itself, a cell outside the frame is not the one that is written
      have hne : i ≠ j := by
        rintro rfl
        exact hj (by rwa [ArrayRef.cell, hplace])
      exact Array.getElem?_setIfInBounds_ne hne
    · rfl

/-- A write keeps everything but the cell it goes to. -/
theorem write {b : ArrayRef} {i : Nat} (h : cells (b.cell i)) (value : Prim) :
    s.Frame cells (s.write b i value) :=
  writeWord h value.toSlot

/-- So does setting an item. -/
theorem writeItem {r : BoxedRef} {i : Nat} (h : cells (.item r.place i)) (value : Boxed) :
    s.Frame cells (s.writeItem r i value) := by
  refine ⟨Nat.le_refl _, ?_, fun _ _ => rfl, fun q _ => ?_, fun _ _ _ _ => rfl, fun q j _ hj => ?_⟩
  · simp [Store.writeItem]
  · rw [items_writeItem]
    split <;> simp
  · rw [items_writeItem]
    split
    · rename_i hplace
      have hne : i ≠ j := by
        rintro rfl
        exact hj (by rwa [hplace])
      exact Array.getElem?_setIfInBounds_ne hne
    · rfl

/-- A bulk copy is a sequence of writes, each of which stays within the range. -/
theorem moveElements {a destination : ArrayRef} {range : ArrayRef.CopyRange}
    (h : ∀ i < range.count, cells (destination.cell (range.destination + i))) :
    s.Frame cells (a.moveElements destination range s) :=
  ArrayRef.moveElements_induction (refl cells s) fun _ i hi hframe =>
    hframe.trans (writeWord (h i hi) _)

end Frame

end Store

/-! ## Actions -/

namespace Action

/-- From a store, an action that ends has written none but the given cells, and one that fails has
written none at all. -/
def WritesOnly {ε α : Type} (cells : Cell → Prop) (x : Action ε α) (s : Store) : Prop :=
  match x s with
  | .ok _ s' => s.Frame cells s'
  | .error _ s' => s' = s

namespace WritesOnly

variable {ε ε' α β : Type} {cells : Cell → Prop} {s : Store}

theorem pure (a : α) : (Pure.pure a : Action ε α).WritesOnly cells s := .refl cells s

/-- Failing writes nothing. -/
theorem throw (e : ε) : (MonadExcept.throw e : Action ε α).WritesOnly cells s := rfl

theorem change {f : Store → α × Store} (h : s.Frame cells (f s).2) :
    (Action.change f : Action ε α).WritesOnly cells s := h

theorem lift (r : Except ε α) : (Action.lift r).WritesOnly cells s := by
  cases r with
  | ok a => exact pure a
  | error e => exact throw e

/-- A check comes before the writes. -/
theorem lift_bind {r : Except ε α} {f : α → Action ε β}
    (h : ∀ a, r = .ok a → (f a).WritesOnly cells s) :
    (Action.lift r >>= f).WritesOnly cells s := by
  cases r with
  | ok a =>
    rw [WritesOnly, lift_ok, pure_bind_apply]
    exact h a rfl
  | error e => exact throw e

/-- Looking at the store writes nothing. -/
theorem view_bind {g : Store → α} {f : α → Action ε β} (h : (f (g s)).WritesOnly cells s) :
    (Action.view g >>= f).WritesOnly cells s := by
  rw [WritesOnly, view_bind_apply]
  exact h

/-- What an action gives may be put into another form. -/
theorem bind_pure {x : Action ε α} (f : α → β) (h : x.WritesOnly cells s) :
    (x >>= fun a => Pure.pure (f a)).WritesOnly cells s := by
  rw [WritesOnly] at h ⊢
  cases hx : x s with
  | ok a s' =>
    rw [bind_of_ok hx]
    rwa [hx] at h
  | error e s' =>
    rw [bind_of_error hx]
    rwa [hx] at h

theorem mapError (f : ε → ε') {x : Action ε α} (h : x.WritesOnly cells s) :
    (Action.mapError f x).WritesOnly cells s := by
  rw [WritesOnly] at h ⊢
  cases hx : x s with
  | ok a s' =>
    rw [mapError_of_ok hx]
    rwa [hx] at h
  | error e s' =>
    rw [mapError_of_error hx]
    rwa [hx] at h

end WritesOnly

end Action

/-! ## Operations -/

open ArrayBridge.Action (WritesOnly)

variable {cells : Cell → Prop} {s : Store}

/-- An index that passes a check of its bounds is the one that was asked for. Arrays and sequences
check alike, and differ in the fault. -/
theorem toInt_of_checked {ε : Type} {fault : ε} {index : Int64} {length i : Nat}
    (h : (if 0 ≤ index.toInt ∧ index.toInt < length then .ok index.toInt.toNat
      else .error fault : Except ε Nat) = .ok i) : index.toInt = i := by
  split at h
  · injection h with h
    omega
  · cases h

namespace ArrayRef

theorem writesOnly_new (k : Kind) (size : Int64) (element : Option Prim) :
    (new k size element).WritesOnly cells s :=
  .lift_bind fun _ _ => .lift_bind fun _ _ => .change (.newArray cells s k _)

theorem writesOnly_get (a : ArrayRef) (index : Int64) : (a.get index).WritesOnly cells s :=
  .view_bind (.lift_bind fun _ _ => .refl cells s)

/-- A write goes to the cell that its index names. -/
theorem writesOnly_set {a : ArrayRef} {index : Int64} {value : Prim}
    (h : ∀ i : Nat, index.toInt = i → cells (a.cell i)) :
    (a.set index value).WritesOnly cells s := by
  refine .lift_bind fun _ _ => .view_bind (.lift_bind fun i hi => .change ?_)
  exact .write (h i (toInt_of_checked hi)) value

/-- A copy goes to the cells of its range. -/
theorem writesOnly_copyTo {a destination : ArrayRef} {sourceOffset destinationOffset : Int64}
    {length : Option Int64}
    (h : ∀ range, copyRange? (s.length a) (s.length destination) sourceOffset destinationOffset
      length = some range → ∀ i < range.count, cells (destination.cell (range.destination + i))) :
    (a.copyTo destination sourceOffset destinationOffset length).WritesOnly cells s := by
  by_cases hkind : destination.kind = a.kind
  · rw [WritesOnly, copyTo_apply s a destination sourceOffset destinationOffset length hkind]
    cases hrange : copyRange? (s.length a) (s.length destination) sourceOffset destinationOffset
      length with
    | none => rfl
    | some range => exact .moveElements (h range hrange)
  · -- arrays of two kinds are told apart before anything else
    rw [copyTo, if_pos hkind]
    rfl

theorem writesOnly_ofSequence (k : Kind) (q : Sequence) :
    (ofSequence k q).WritesOnly cells s :=
  .view_bind (.lift_bind fun _ _ => .change (.newArray cells s k _))

end ArrayRef

namespace Sequence

/-- An index that passes the check is a signed one. -/
theorem le_maxIndex_of_checkIndex {index : Int64} {length i : Nat}
    (h : checkIndex index length = .ok i) : i ≤ maxIndex := by
  have hi := toInt_of_checked h
  have hlt := index.toInt_lt
  rw [maxIndex]
  omega

/-- An index that is a signed one is not changed on the way to the array of a view. -/
theorem writesOnly_setItem {q : Sequence} {index : Nat} {value : Boxed} (hindex : index ≤ maxIndex)
    (h : cells (q.cell index)) : (q.setItem index value).WritesOnly cells s := by
  cases q with
  | view a =>
    refine .mapError _ (.lift_bind fun p _ => ArrayRef.writesOnly_set fun i hi => ?_)
    obtain rfl : index = i := by
      rw [Nat.min_eq_left hindex, Int64.toInt_ofNat_of_lt (by rw [maxIndex] at hindex; omega)] at hi
      exact_mod_cast hi
    exact h
  | boxed r =>
    rw [WritesOnly, setItem_boxed_apply]
    -- the type and the range are checked first, and the store is as it was where a check fails
    by_cases htype : value.isInstanceOf r.element = true
    · rw [if_pos htype]
      by_cases hlt : index < (s.items r).size
      · rw [if_pos hlt]
        exact .writeItem h value
      · rw [if_neg hlt]
    · rw [if_neg htype]

end Sequence

end ArrayBridge
