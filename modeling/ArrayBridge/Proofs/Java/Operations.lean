import ArrayBridge.Proofs.Java.Correspondence
import ArrayBridge.Proofs.Store.Operations

/-!
# Array operations in Java

Each operation on native arrays against what emitted code does in its place, on a heap that agrees
with the store. Indices, sizes and offsets are `long` and are narrowed on the way; one that does
not fit an `int` lies outside every array, so where the narrowing throws the operation fails too.

Main results:

* `newArray_agrees`, `fill_agrees`, `load_agrees`, `store_agrees` — single arrays.
* `copyRange?_eq` — the range of a copy by the checks that are made on `int` operands.
* `arraycopy_agrees` — a bulk copy.
-/

namespace ArrayBridge.Java

open ArrayBridge.Action (bind_of_ok bind_of_error)

variable {α β : Type} {nans : NaNs} {s : Store} {h : Heap}

/-! ## Exceptions -/

/-- Whether an execution ends with an exception. -/
def Throws (x : Exec α) (h : Heap) : Prop :=
  ∃ exception h', x h = .error (.thrown exception) h'

theorem throws_raise (exception : String) : Throws (raise exception : Exec α) h :=
  ⟨exception, h, rfl⟩

/-- What follows an exception is not executed. -/
theorem Throws.bind {x : Exec α} (hx : Throws x h) (f : α → Exec β) : Throws (x >>= f) h := by
  obtain ⟨exception, h', hx⟩ := hx
  exact ⟨exception, h', bind_of_error hx⟩

/-- An exception in what follows. -/
theorem Throws.after {x : Exec α} {f : α → Exec β} {a : α} {h' : Heap} (hx : x h = .ok a h')
    (hf : Throws (f a) h') : Throws (x >>= f) h := by
  obtain ⟨exception, h'', hf⟩ := hf
  exact ⟨exception, h'', (bind_of_ok hx).trans hf⟩

/-! ## Narrowing -/

/-- Whether a `long` is the value of an `int`. -/
def FitsInt (n : Int64) : Prop := n.toInt32.toInt64 = n

instance (n : Int64) : Decidable (FitsInt n) := inferInstanceAs (Decidable (_ = _))

namespace FitsInt

variable {n : Int64}

/-- A number that fits is the same as an `int`. -/
theorem toInt_eq (hn : FitsInt n) : n.toInt32.toInt = n.toInt := by
  rw [← Int32.toInt_toInt64, hn]

theorem le_maxLength (hn : FitsInt n) : n.toInt ≤ maxLength := by
  have hlt := Int32.toInt_lt n.toInt32
  have hint := hn.toInt_eq
  have hmax : maxLength = 2147483647 := rfl
  omega

/-- What lies between zero and the greatest length of an array fits. -/
theorem of_le (hlo : 0 ≤ n.toInt) (hhi : n.toInt ≤ maxLength) : FitsInt n := by
  have hmax : maxLength = 2147483647 := rfl
  rw [FitsInt, ← Int64.toInt_inj, Int32.toInt_toInt64, Int64.toInt_toInt32, Int.bmod_eq_of_le] <;>
    omega

end FitsInt

/-- The conversion keeps a number that fits, -/
theorem toIntExact_apply {n : Int64} (hn : FitsInt n) : toIntExact n h = .ok n.toInt32 h := by
  have hfits : n.toInt32.toInt64 = n := hn
  rw [toIntExact, if_pos hfits]
  rfl

/-- and throws for any other. -/
theorem throws_toIntExact {n : Int64} (hn : ¬ FitsInt n) : Throws (toIntExact n) h := by
  have hfits : ¬ n.toInt32.toInt64 = n := hn
  rw [toIntExact, if_neg hfits]
  exact throws_raise _

theorem toIntExact_bind_congr {n : Int64} {f g : Int32 → Exec α} (hfg : ∀ i, f i h = g i h) :
    (toIntExact n >>= f) h = (toIntExact n >>= g) h := by
  by_cases hfits : FitsInt n
  · rw [bind_of_ok (toIntExact_apply hfits), bind_of_ok (toIntExact_apply hfits), hfg]
  · obtain ⟨exception, h', hthrows⟩ := throws_toIntExact (h := h) hfits
    rw [bind_of_error hthrows, bind_of_error hthrows]

/-- The length of an array is widened to what it was. -/
theorem toInt64_ofNat {m : Nat} (hm : m ≤ maxLength) :
    (Int32.ofNat m).toInt64 = Int64.ofNat m := by
  have hmax : maxLength = 2147483647 := rfl
  rw [← Int64.toInt_inj, Int32.toInt_toInt64, Int32.toInt_ofNat_of_lt (by omega),
    Int64.toInt_ofNat_of_lt (by omega)]

/-! ## Arrays -/

theorem arrayAt_apply {i : Nat} {a : PrimArray} (ha : h.arrays[i]? = some a) :
    arrayAt (.array i) h = .ok (i, a) h := by
  show (demand h.arrays[i]? >>= fun a => pure (i, a)) h = _
  rw [ha]
  rfl

namespace Agrees

/-- The items of an array of the store. -/
theorem exists_items (hagree : Agrees nans s h) {a : ArrayRef}
    (ha : h.kind? a.place = some a.kind) :
    ∃ items, h.arrays[a.place]? = some ⟨a.kind, items⟩ ∧
      (s.elements a).map nans.scalar? = items.map some := by
  obtain ⟨⟨k, items⟩, hitems, hk⟩ := Option.map_eq_some_iff.mp ha
  subst hk
  exact ⟨items, hitems, hagree.items _ _ hitems⟩

end Agrees

section

variable {a : ArrayRef} {items : List Scalar}

theorem length_items (hitems : (s.elements a).map nans.scalar? = items.map some) :
    items.length = s.length a := by
  have hlength := congrArg List.length hitems
  simpa using hlength.symm

/-- Every element of an array in the store has its item in the heap. -/
theorem exists_item (hitems : (s.elements a).map nans.scalar? = items.map some) {i : Nat}
    (hi : i < s.length a) : ∃ x, items[i]? = some x ∧ nans.scalar? (s.element a i) = some x := by
  have hat := congrArg (·[i]?) hitems
  simp only [List.getElem?_map, Store.getElem?_elements_of_lt s a hi, Option.map_some] at hat
  obtain ⟨x, hx, hx'⟩ := Option.map_eq_some_iff.mp hat.symm
  exact ⟨x, hx, hx'.symm⟩

end

/-! ### Fresh arrays -/

/-- A new array in the heap is the array of zeros that is new in the store, at the same place. -/
theorem newArray_agrees (hagree : Agrees nans s h) (k : Kind) {size : Int64} (hlo : 0 ≤ size.toInt)
    (hhi : size.toInt ≤ maxLength) :
    ∃ h', (toIntExact size >>= newArray (.prim k)) h = .ok (.array s.arrays.size) h' ∧
      h'.kind? s.arrays.size = some k ∧ h.Extends h' ∧
      Agrees nans (s.newArray k (.replicate size.toInt.toNat k.zero)).2 h' := by
  -- A length that an array can have is an int, and is not negative as one either.
  have hfits : FitsInt size := .of_le hlo hhi
  have hneg : ¬ size.toInt32 < 0 := by
    rw [Int32.lt_iff_toInt_lt, hfits.toInt_eq]
    exact Int.not_lt.mpr hlo
  refine ⟨h.addArray ⟨k, .replicate size.toInt.toNat (.default k)⟩, ?_, ?_, .addArray h _, ?_⟩
  · rw [bind_of_ok (toIntExact_apply hfits), newArray, if_neg hneg, hfits.toInt_eq]
    show EStateM.Result.ok (Value.array h.arrays.length) _ = _
    rw [hagree.size]
  · simp [Heap.kind?, Heap.addArray, ← hagree.size]
  · refine hagree.addArray (by simp) (nans.scalar?_zero k) ?_
    omega

/-- A size out of bounds is no `int`, or a negative one. -/
theorem throws_newArray (k : Kind) {size : Int64}
    (hsize : ¬ (0 ≤ size.toInt ∧ size.toInt ≤ maxLength)) :
    Throws (toIntExact size >>= newArray (.prim k)) h := by
  by_cases hfits : FitsInt size
  · refine Throws.after (toIntExact_apply hfits) ?_
    -- no `int` is greater than the maximum, so the size is negative
    have hneg : size.toInt32 < 0 := by
      have hle := hfits.le_maxLength
      rw [Int32.lt_iff_toInt_lt, hfits.toInt_eq]
      by_contra hlo
      exact hsize ⟨Int.not_lt.mp hlo, hle⟩
    rw [newArray, if_pos hneg]
    exact throws_raise _
  · exact (throws_toIntExact hfits).bind _

/-- An array of copies of an element is a fresh array that is filled. -/
theorem fill_agrees {k : Kind} {n : Nat} {p : Prim} {x : Scalar}
    (hagree : Agrees nans (s.newArray k (.replicate n k.zero)).2 h)
    (hkind : h.kind? s.arrays.size = some k) (hp : p.kind = k) (hx : nans.scalar? p = some x) :
    ∃ h', fill (.array s.arrays.size) (.scalar x) h = .ok () h' ∧ h.Extends h' ∧
      Agrees nans (s.newArray k (.replicate n p)).2 h' := by
  obtain ⟨items, hcell, hitems⟩ := hagree.exists_items (a := ⟨k, s.arrays.size⟩) hkind
  have hxk : x.kind = k := (NaNs.kind_of_scalar? hx).trans hp
  -- the fresh array has as many items as it was made with
  have hlength : items.length = n := by
    have hcount := congrArg List.length hitems
    rw [Store.elements_newArray_replicate s n (by simp)] at hcount
    simpa using hcount.symm
  refine ⟨h.setItems s.arrays.size (.replicate items.length x), ?_, .setItems .., ?_⟩
  · rw [fill, bind_of_ok (arrayAt_apply hcell)]
    dsimp only
    rw [if_pos hxk]
    rfl
  · refine hagree.setItems hcell ?_ ?_ ?_ (by simp)
    · simp [Store.newArray]
    · rw [Store.elements_newArray_replicate s n hp, List.map_replicate, hx, hlength,
        List.map_replicate]
    · intro b hb
      rw [Store.elements_newArray_of_ne s b hb, Store.elements_newArray_of_ne s b hb]

/-! ### Items -/

section

variable {a : ArrayRef} {n : Int64}

/-- An index within an array is narrowed to the index that is checked. -/
theorem checkIndex_apply {items : List Scalar}
    (hitems : (s.elements a).map nans.scalar? = items.map some) (hfits : FitsInt n)
    (hn : 0 ≤ n.toInt ∧ n.toInt < s.length a) :
    PrimArray.checkIndex ⟨a.kind, items⟩ n.toInt32 h = .ok n.toInt.toNat h := by
  have hlength := length_items hitems
  rw [PrimArray.checkIndex, hfits.toInt_eq, if_pos (by rw [hlength]; exact hn)]
  rfl

/-- An `int` out of the range of an array. -/
theorem throws_checkIndex {items : List Scalar}
    (hitems : (s.elements a).map nans.scalar? = items.map some) (hfits : FitsInt n)
    (hn : ¬ (0 ≤ n.toInt ∧ n.toInt < s.length a)) :
    Throws (PrimArray.checkIndex ⟨a.kind, items⟩ n.toInt32) h := by
  have hlength := length_items hitems
  rw [PrimArray.checkIndex, hfits.toInt_eq, if_neg (by rw [hlength]; exact hn)]
  exact throws_raise _

namespace Agrees

/-- Every array of the heap has a length of type `int`, and the store agrees with it. -/
theorem length_le (hagree : Agrees nans s h) (ha : h.kind? a.place = some a.kind) :
    s.length a ≤ maxLength := by
  obtain ⟨items, hcell, hitems⟩ := hagree.exists_items ha
  rw [← length_items hitems]
  exact hagree.bounded _ (List.mem_of_getElem? hcell)

/-- So an index within an array fits. -/
theorem fitsInt (hagree : Agrees nans s h) (ha : h.kind? a.place = some a.kind)
    (hn : 0 ≤ n.toInt ∧ n.toInt < s.length a) : FitsInt n := by
  have hle := hagree.length_le ha
  exact .of_le hn.1 (by omega)

end Agrees

/-- Reading within the range, in both. -/
theorem load_agrees (hagree : Agrees nans s h) (ha : h.kind? a.place = some a.kind)
    (hn : 0 ≤ n.toInt ∧ n.toInt < s.length a) :
    ∃ x, nans.scalar? (s.element a n.toInt.toNat) = some x ∧
      (toIntExact n >>= load (.array a.place)) h = .ok (.scalar x) h := by
  obtain ⟨items, hcell, hitems⟩ := hagree.exists_items ha
  -- an index within the array passes the exact conversion to an int
  have hfits := hagree.fitsInt ha hn
  obtain ⟨x, hx, hscalar⟩ := exists_item hitems (i := n.toInt.toNat) (by omega)
  refine ⟨x, hscalar, ?_⟩
  rw [bind_of_ok (toIntExact_apply hfits), load, bind_of_ok (arrayAt_apply hcell)]
  dsimp only
  rw [bind_of_ok (checkIndex_apply hitems hfits hn), hx]
  rfl

/-- Whatever is to be done at an index outside of an array is not done. -/
theorem throws_at {α : Type} {f : Nat × PrimArray → Int32 → Nat → Exec α} (hagree : Agrees nans s h)
    (ha : h.kind? a.place = some a.kind) (hn : ¬ (0 ≤ n.toInt ∧ n.toInt < s.length a)) :
    Throws (toIntExact n >>= fun i => arrayAt (.array a.place) >>= fun found =>
      found.2.checkIndex i >>= f found i) h := by
  obtain ⟨items, hcell, hitems⟩ := hagree.exists_items ha
  by_cases hfits : FitsInt n
  · -- the index fits and lies outside
    refine Throws.after (toIntExact_apply hfits) (Throws.after (arrayAt_apply hcell) ?_)
    exact (throws_checkIndex hitems hfits hn).bind _
  · exact (throws_toIntExact hfits).bind _

/-- Reading out of the range. -/
theorem throws_load (hagree : Agrees nans s h) (ha : h.kind? a.place = some a.kind)
    (hn : ¬ (0 ≤ n.toInt ∧ n.toInt < s.length a)) :
    Throws (toIntExact n >>= load (.array a.place)) h :=
  throws_at hagree ha hn

/-- Writing within the range, in both; heap and store agree afterwards. -/
theorem store_agrees {p : Prim} {x : Scalar} (hagree : Agrees nans s h)
    (ha : h.kind? a.place = some a.kind) (hp : p.kind = a.kind) (hx : nans.scalar? p = some x)
    (hn : 0 ≤ n.toInt ∧ n.toInt < s.length a) :
    ∃ h', (toIntExact n >>= fun i => store (.array a.place) i (.scalar x)) h =
        .ok (.scalar x) h' ∧
      h.Extends h' ∧ Agrees nans (s.write a n.toInt.toNat p) h' := by
  obtain ⟨items, hcell, hitems⟩ := hagree.exists_items ha
  have hfits := hagree.fitsInt ha hn
  have hxk : x.kind = a.kind := (NaNs.kind_of_scalar? hx).trans hp
  refine ⟨h.setItems a.place (items.set n.toInt.toNat x), ?_, .setItems .., ?_⟩
  · rw [bind_of_ok (toIntExact_apply hfits), store, bind_of_ok (arrayAt_apply hcell)]
    dsimp only
    rw [bind_of_ok (checkIndex_apply hitems hfits hn), if_pos hxk]
    rfl
  · -- the array that is written agrees again, and no other is touched
    refine hagree.setItems hcell (Store.size_write ..) ?_ ?_ (by simp)
    · rw [Store.elements_write rfl hp, List.map_set, hitems, hx, List.map_set]
    · intro b hb
      exact Store.elements_write_of_ne hb

/-- Writing out of the range. -/
theorem throws_store {v : Value} (hagree : Agrees nans s h) (ha : h.kind? a.place = some a.kind)
    (hn : ¬ (0 ≤ n.toInt ∧ n.toInt < s.length a)) :
    Throws (toIntExact n >>= fun i => store (.array a.place) i v) h :=
  throws_at hagree ha hn

theorem length_agrees (hagree : Agrees nans s h) (ha : h.kind? a.place = some a.kind) :
    member (.array a.place) "length" h = .ok (.scalar (.int (Int32.ofNat (s.length a)))) h := by
  obtain ⟨items, hcell, hitems⟩ := hagree.exists_items ha
  rw [member, if_pos rfl, bind_of_ok (arrayAt_apply hcell), ← length_items hitems]
  rfl

end

/-! ## Bulk copy -/

/-- The number of items past the offsets, for an offset outside its array any number. -/
def remainingCount (sourceLength destinationLength : Nat) (i j : Int32) : Int32 :=
  let m := Int32.ofNat sourceLength - i
  let n := Int32.ofNat destinationLength - j
  if m ≤ n then m else n

/-- The number of items that Java is asked to copy. -/
def intCount (sourceLength destinationLength : Nat) (i j : Int32) : Option Int64 → Int32
  | none => remainingCount sourceLength destinationLength i j
  | some n => n.toInt32

/-- Past an offset that is not negative a subtraction does not wrap. -/
theorem toInt_ofNat_sub {m : Nat} (hm : m ≤ maxLength) {i : Int32} (hi : 0 ≤ i.toInt) :
    (Int32.ofNat m - i).toInt = m - i.toInt := by
  have hmax : maxLength = 2147483647 := rfl
  have hlt := Int32.toInt_lt i
  rw [Int32.toInt_sub, Int32.toInt_ofNat_of_lt (by omega), Int.bmod_eq_of_le] <;> omega

/-- The differences are of numbers that fit, and do not overflow. -/
theorem toInt_remainingCount {m n : Nat} (hm : m ≤ maxLength) (hn : n ≤ maxLength) {i j : Int32}
    (hi : 0 ≤ i.toInt) (hj : 0 ≤ j.toInt) :
    (remainingCount m n i j).toInt = min (m - i.toInt) (n - j.toInt) := by
  rw [remainingCount]
  -- No array is so long that what is left of it past an offset would wrap around.
  split
  · rename_i hle
    rw [Int32.le_iff_toInt_le, toInt_ofNat_sub hm hi, toInt_ofNat_sub hn hj] at hle
    rw [toInt_ofNat_sub hm hi]
    omega
  · rename_i hle
    rw [Int32.le_iff_toInt_le, toInt_ofNat_sub hm hi, toInt_ofNat_sub hn hj] at hle
    rw [toInt_ofNat_sub hn hj]
    omega

section

variable {m n : Nat} {i j : Int64} {length : Option Int64}

/-- The range of a copy is checked on `int` operands. The default count wraps only for an offset
that is refused in any case. -/
theorem copyRange?_eq (hm : m ≤ maxLength) (hn : n ≤ maxLength) (hi : FitsInt i)
    (hj : FitsInt j) (hlength : ∀ c ∈ length, FitsInt c) :
    ArrayRef.copyRange? m n i j length =
      let count := intCount m n i.toInt32 j.toInt32 length
      if Copyable m n i.toInt32 j.toInt32 count then
        some ⟨i.toInt32.toInt.toNat, j.toInt32.toInt.toNat, count.toInt.toNat⟩
      else none := by
  have hi := hi.toInt_eq
  have hj := hj.toInt_eq
  dsimp only
  split <;> rename_i hcopy
  · -- a range that can be copied is taken: its bounds are those of the `int` numbers
    obtain ⟨hilo, hjlo, hclo, hihi, hjhi⟩ := hcopy
    refine ArrayRef.copyRange?_eq_some.mpr ⟨by dsimp only; omega, by dsimp only; omega, ?_⟩
    cases length with
    | none =>
      have hcount := toInt_remainingCount hm hn hilo hjlo
      dsimp only [intCount] at hclo hihi hjhi ⊢
      omega
    | some c =>
      have hc := (hlength c rfl).toInt_eq
      dsimp only [intCount] at hclo hihi hjhi ⊢
      omega
  · -- a range that is taken can be copied
    refine Option.eq_none_iff_forall_ne_some.mpr fun range hrange => hcopy ?_
    obtain ⟨⟨hsource, hshi⟩, ⟨hdestination, hdhi⟩, hcount⟩ :=
      ArrayRef.copyRange?_eq_some.mp hrange
    cases length with
    | none =>
      have hremaining := toInt_remainingCount hm hn (i := i.toInt32) (j := j.toInt32)
        (by omega) (by omega)
      rw [Copyable, intCount]
      omega
    | some c =>
      have hc := (hlength c rfl).toInt_eq
      rw [Copyable, intCount]
      omega

/-- Where the narrowing throws, the range is refused. -/
theorem copyRange?_eq_none (hm : m ≤ maxLength) (hn : n ≤ maxLength)
    (hfits : ¬ FitsInt i ∨ ¬ FitsInt j ∨ ∃ c ∈ length, ¬ FitsInt c) :
    ArrayRef.copyRange? m n i j length = none := by
  refine Option.eq_none_iff_forall_ne_some.mpr fun range hrange => ?_
  obtain ⟨⟨hsource, hshi⟩, ⟨hdestination, hdhi⟩, hcount⟩ := ArrayRef.copyRange?_eq_some.mp hrange
  -- operands of a range that is taken lie within the arrays
  rcases hfits with hi | hj | ⟨c, rfl, hc⟩
  · exact hi (.of_le (by omega) (by omega))
  · exact hj (.of_le (by omega) (by omega))
  · obtain ⟨hcount, hle⟩ := hcount
    exact hc (.of_le (by omega) (by omega))

end

section

variable {a d : ArrayRef} {i j n : Int32}

/-- A copy whose ranges are within both arrays moves the same items in both. Java copies as if
through a temporary array. -/
theorem arraycopy_agrees (hagree : Agrees nans s h) (ha : h.kind? a.place = some a.kind)
    (hd : h.kind? d.place = some d.kind) (hkind : d.kind = a.kind)
    (hcopy : Copyable (s.length a) (s.length d) i j n) :
    ∃ h', arraycopy (.array a.place) i (.array d.place) j n h = .ok () h' ∧ h.Extends h' ∧
      Agrees nans (a.moveElements d ⟨i.toInt.toNat, j.toInt.toNat, n.toInt.toNat⟩ s) h' := by
  obtain ⟨items, hcell, hitems⟩ := hagree.exists_items ha
  obtain ⟨items', hcell', hitems'⟩ := hagree.exists_items hd
  have hlength := length_items hitems
  have hlength' := length_items hitems'
  obtain ⟨hi, hj, hn, hsource, hdestination⟩ := id hcopy
  -- the range lies within the source
  have hmoved : ((items.drop i.toInt.toNat).take n.toInt.toNat).length = n.toInt.toNat := by
    rw [List.length_take, List.length_drop]
    omega
  refine ⟨h.setItems d.place
    (splice items' j.toInt.toNat ((items.drop i.toInt.toNat).take n.toInt.toNat)), ?_,
    .setItems .., ?_⟩
  · rw [arraycopy, bind_of_ok (arrayAt_apply hcell)]
    dsimp only
    rw [bind_of_ok (arrayAt_apply hcell')]
    dsimp only
    rw [if_neg (fun hne => hne hkind.symm), hlength, hlength', if_pos hcopy]
    rfl
  · refine hagree.setItems hcell' ArrayRef.size_moveElements ?_ ?_ ?_
    · rw [ArrayRef.elements_moveElements hkind (by dsimp only; omega) (by dsimp only; omega)]
      simp only [map_splice, List.map_take, List.map_drop, hitems, hitems']
    · intro b hb
      exact ArrayRef.elements_moveElements_of_ne hb
    · exact length_splice (by rw [hmoved]; omega)

/-- A copy out of the range of either array. -/
theorem throws_arraycopy (hagree : Agrees nans s h) (ha : h.kind? a.place = some a.kind)
    (hd : h.kind? d.place = some d.kind) (hkind : d.kind = a.kind)
    (hcopy : ¬ Copyable (s.length a) (s.length d) i j n) :
    Throws (arraycopy (.array a.place) i (.array d.place) j n) h := by
  obtain ⟨items, hcell, hitems⟩ := hagree.exists_items ha
  obtain ⟨items', hcell', hitems'⟩ := hagree.exists_items hd
  refine Throws.after (arrayAt_apply hcell) (Throws.after (arrayAt_apply hcell') ?_)
  dsimp only
  rw [if_neg (fun hne => hne hkind.symm), length_items hitems, length_items hitems',
    if_neg hcopy]
  exact throws_raise _

end

/-! ## The class library -/

theorem callStatic_toIntExact (n : Int64) :
    callStatic "Math" "toIntExact" [.scalar (.long n)] =
      toIntExact n >>= fun i => pure (some (.scalar (.int i))) := by
  simp [callStatic]

theorem callStatic_min (m n : Int32) :
    callStatic "Math" "min" [.scalar (.int m), .scalar (.int n)] =
      pure (some (.scalar (.int (if m ≤ n then m else n)))) := by
  simp [callStatic]

theorem callStatic_arraycopy (source destination : Value) (i j n : Int32) :
    callStatic "System" "arraycopy"
        [source, .scalar (.int i), destination, .scalar (.int j), .scalar (.int n)] =
      arraycopy source i destination j n >>= fun _ => pure none := by
  simp [callStatic]

theorem callStatic_fill (array value : Value) :
    callStatic "java.util.Arrays" "fill" [array, value] =
      fill array value >>= fun _ => pure none := by
  simp [callStatic]

end ArrayBridge.Java
