import ArrayBridge.Proofs.Binary.Conversion
import ArrayBridge.Proofs.Store.Frames

/-!
# Items of sequences

An array and its views are one sequence of boxed items over the words of the array; a boxed sequence
holds its items itself. These lemmas say what each write does to the items of the sequence that is
written through, and that sequences of other storage keep theirs.

Main results:

* `Prim.unbox_box`, `Prim.exists_unbox_box` — an element is found again in its boxed form, and some
  NaN where it is one.
* `Store.Frame.itemsOf_eq` — a sequence keeps its items if none of its cells is written.
* `itemsOf_set`, `itemsOf_copyTo`, `Sequence.itemsOf_setItem` — the items after a store, a bulk copy
  and a generic set.
-/

namespace ArrayBridge

/-! ## Boxing -/

/-- Two elements are the same, bit for bit, except that one NaN of kind `float` is as good as any
other: which of them is left of one that is widened and narrowed again, nobody relies on. -/
inductive Prim.UpToNaN : Prim → Prim → Prop
  | refl (p : Prim) : UpToNaN p p
  | float {x y : Binary.Single} (hx : x.isNaN = true) (hy : y.isNaN = true) :
    UpToNaN (.float x) (.float y)

theorem Prim.UpToNaN.kind_eq {p q : Prim} (h : p.UpToNaN q) : p.kind = q.kind := by
  cases h <;> rfl

/-- Whether an element is a NaN of kind `float`. -/
def Prim.IsFloatNaN (p : Prim) : Prop := ∃ x : Binary.Single, p = .float x ∧ x.isNaN = true

/-- An element is found again in its boxed form, as what is widened there fits. -/
theorem Prim.unbox_box {p : Prim} (hp : ¬ p.IsFloatNaN) : p.kind.unbox p.box = some p := by
  cases p with
  | short n =>
    have hback : n.toInt64.toInt16 = n := by simp
    rw [kind, box, Kind.unbox, hback, if_pos rfl]
  | int n =>
    have hback : n.toInt64.toInt32 = n := by simp
    rw [kind, box, Kind.unbox, hback, if_pos rfl]
  -- a float is boxed as a double, in which it is exact
  | float x =>
    have hx : x.isNaN = false := Bool.eq_false_iff.mpr fun hx => hp ⟨x, rfl, hx⟩
    rw [kind, box, Kind.unbox, Binary.Number.narrow_widen hx]
  | _ => rfl

/-- A boxed value is unboxed at its own kind. Only bits of a NaN may get lost, between the two
widths. -/
theorem Prim.exists_unbox_box (p : Prim) : ∃ q, p.kind.unbox p.box = some q ∧ q.UpToNaN p := by
  by_cases hp : p.IsFloatNaN
  · obtain ⟨x, rfl, hx⟩ := hp
    exact ⟨_, rfl, .float ((Binary.Number.isNaN_narrow_widen x).trans hx) hx⟩
  · exact ⟨p, unbox_box hp, .refl p⟩

/-! ## Storage -/

/-- The storage of an array or of a boxed sequence. -/
inductive Storage where
  | array (place : Nat)
  | sequence (place : Nat)
deriving DecidableEq, Repr

/-- The storage behind a sequence. A view has that of its array. -/
def Sequence.storage : Sequence → Storage
  | view a => .array a.place
  | boxed r => .sequence r.place

/-- Whether a storage has been allocated. -/
def Store.Has (s : Store) : Storage → Prop
  | .array place => place < s.arrays.size
  | .sequence place => place < s.sequences.size

/-- Whether a storage was allocated between two states. -/
structure Store.Allocates (s s' : Store) (storage : Storage) : Prop where
  absent : ¬ s.Has storage
  present : s'.Has storage

/-- A new array is the only storage that is added. -/
theorem ArrayRef.allocates_of_new {k : Kind} {size : Int64} {element : Option Prim} {s s' : Store}
    {a : ArrayRef} (h : new k size element s = .ok a s') : s.Allocates s' (.array a.place) := by
  obtain ⟨els, -, rfl, rfl⟩ := exists_newArray_of_new h
  constructor <;> simp [Store.Has, Store.newArray]

/-- So is one that is made of a sequence. -/
theorem ArrayRef.allocates_of_ofSequence {k : Kind} {q : Sequence} {s s' : Store} {a : ArrayRef}
    (h : ofSequence k q s = .ok a s') : s.Allocates s' (.array a.place) := by
  rw [ofSequence_apply] at h
  split at h
  · injection h with ha hs
    subst ha hs
    constructor <;> simp [Store.Has, Store.newArray]
  · cases h

/-- A cell belongs to one storage. -/
theorem Sequence.storage_eq_of_cell_eq {q q' : Sequence} {i j : Nat} (h : q.cell i = q'.cell j) :
    q.storage = q'.storage := by
  -- The cell of a view is an element of its array, that of a boxed sequence an item of its own.
  cases q with
  | view a =>
    cases q' with
    | view b =>
      injection h with hplace
      exact congrArg Storage.array hplace
    | boxed r => cases h
  | boxed r =>
    cases q' with
    | view b => cases h
    | boxed r' =>
      injection h with hplace
      exact congrArg Storage.sequence hplace

namespace Store.Frame

variable {cells : Cell → Prop} {s s' : Store}

/-- Storage is never given up. -/
theorem has (h : s.Frame cells s') {storage : Storage} (hs : s.Has storage) : s'.Has storage := by
  cases storage with
  | array place => exact Nat.lt_of_lt_of_le hs h.arrays
  | sequence place => exact Nat.lt_of_lt_of_le hs h.sequences

/-- A sequence keeps its items if none of its cells is written. -/
theorem itemsOf_eq (h : s.Frame cells s') {q : Sequence} (hq : s.Has q.storage)
    (hcells : ∀ i, ¬ cells (q.cell i)) : s'.itemsOf q = s.itemsOf q := by
  cases q with
  | view a =>
    have hslots : s'.slots a = s.slots a := by
      refine Array.ext_getElem? fun i => ?_
      exact h.word a i hq (hcells i)
    rw [itemsOf, itemsOf, elements, elements, hslots]
  | boxed r =>
    have hitems : s'.items r = s.items r := by
      refine Array.ext_getElem? fun i => ?_
      exact h.item r i hq (hcells i)
    rw [itemsOf, itemsOf, hitems]

end Store.Frame

/-! ## Writes -/

section

variable {s s' : Store}

/-- Through a view, a write of an element is seen as the boxed element. -/
theorem itemsOf_write {a : ArrayRef} {i : Nat} {p : Prim} (hkind : p.kind = a.kind) :
    (s.write a i p).itemsOf (.view a) = (s.itemsOf (.view a)).set i p.box := by
  rw [Store.itemsOf, Store.itemsOf, Store.elements_write rfl hkind, List.map_set]

theorem itemsOf_writeItem (s : Store) {r : BoxedRef} (i : Nat) (b : Boxed) :
    (s.writeItem r i b).itemsOf (.boxed r) = (s.itemsOf (.boxed r)).set i b := by
  rw [Store.itemsOf, Store.itemsOf, Store.items_writeItem, if_pos rfl, Array.toList_setIfInBounds]

/-- A store that is made replaces one item by the boxed element. -/
theorem itemsOf_set {a : ArrayRef} {index : Int64} {p : Prim} (h : a.set index p s = .ok () s') :
    s'.itemsOf (.view a) = (s.itemsOf (.view a)).set index.toInt.toNat p.box := by
  obtain ⟨hkind, -, rfl⟩ := ArrayRef.set_eq_ok.mp h
  exact itemsOf_write hkind

/-- A copy replaces a range of items by what was in the source at the start. -/
theorem itemsOf_moveElements {a destination : ArrayRef} {range : ArrayRef.CopyRange}
    (hkind : destination.kind = a.kind) (hsource : range.source + range.count ≤ s.length a)
    (hdestination : range.destination + range.count ≤ s.length destination) :
    (a.moveElements destination range s).itemsOf (.view destination) =
      splice (s.itemsOf (.view destination)) range.destination
        (((s.itemsOf (.view a)).drop range.source).take range.count) := by
  rw [Store.itemsOf, ArrayRef.elements_moveElements hkind hsource hdestination, map_splice,
    List.map_take, List.map_drop]
  rfl

/-- A copy that is made moves the range that it asks for. -/
theorem itemsOf_copyTo {a d : ArrayRef} {m n : Int64} {given : Option Int64}
    (h : a.copyTo d m n given s = .ok () s') :
    ∃ range, ArrayRef.copyRange? (s.length a) (s.length d) m n given = some range ∧
      s'.itemsOf (.view d) = splice (s.itemsOf (.view d)) range.destination
        (((s.itemsOf (.view a)).drop range.source).take range.count) := by
  obtain ⟨hkind, range, hrange, rfl⟩ := ArrayRef.copyTo_eq_ok.mp h
  obtain ⟨hsource, hdestination, hcount⟩ := ArrayRef.copyRange?_eq_some.mp hrange
  -- the range lies within both arrays, whether its length is given or not
  have hle : range.count ≤
      min (s.length a - range.source) (s.length d - range.destination) := by
    cases given with
    | none => exact Nat.le_of_eq hcount
    | some c => exact hcount.2
  exact ⟨range, hrange, itemsOf_moveElements hkind (by omega) (by omega)⟩

namespace Sequence

/-- What a sequence holds once a boxed element has been set: a view holds the element of its array
that the boxed one stands for. -/
def held (q : Sequence) (b : Boxed) : Boxed :=
  match q with
  | view a => (a.kind.unbox b).elim b Prim.box
  | boxed _ => b

/-- Whether a sequence takes a boxed element: a view what unboxes to the kind of its array, a boxed
sequence what is of its element type. -/
def Accepts (q : Sequence) (b : Boxed) : Prop :=
  match q with
  | view a => ∃ p, a.kind.unbox b = some p
  | boxed r => b.isInstanceOf r.element = true

/-- A generic set ends only for what the sequence takes. -/
theorem accepts_of_setItem {q : Sequence} {index : Nat} {b : Boxed}
    (h : q.setItem index b s = .ok () s') : q.Accepts b := by
  cases q with
  | view a =>
    obtain ⟨p, hunbox, -⟩ := (setItem_view_eq_ok _).mp h
    exact ⟨p, hunbox⟩
  | boxed r => exact ((setItem_boxed_eq_ok _).mp h).1

/-- An index that is a signed one is the one that the array of a view is asked for. -/
theorem toInt_ofNat_min {index : Nat} (h : index ≤ maxIndex) :
    (Int64.ofNat (min index maxIndex)).toInt = index := by
  rw [Nat.min_eq_left h]
  exact Int64.toInt_ofNat_of_lt (by rw [maxIndex] at h; omega)

/-- A generic set replaces one item by what the sequence holds for the value. -/
theorem itemsOf_setItem {q : Sequence} {index : Nat} {b : Boxed} (hindex : index ≤ maxIndex)
    (h : q.setItem index b s = .ok () s') :
    s'.itemsOf q = (s.itemsOf q).set index (q.held b) := by
  cases q with
  | view a =>
    obtain ⟨p, hunbox, -, rfl⟩ := (setItem_view_eq_ok _).mp h
    rw [toInt_ofNat_min hindex, Int.toNat_natCast, itemsOf_write (Kind.kind_of_unbox hunbox), held,
      hunbox, Option.elim_some]
  | boxed r =>
    obtain ⟨-, -, rfl⟩ := (setItem_boxed_eq_ok _).mp h
    rw [itemsOf_writeItem, held]

end Sequence

end

end ArrayBridge
