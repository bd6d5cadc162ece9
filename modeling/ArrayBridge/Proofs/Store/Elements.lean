import ArrayBridge.Store.Array

/-!
# Elements of arrays

The store holds words; these lemmas say what each change of the store does to the words and to the
elements that are seen in them. A bulk copy moves one word at a time, in an order in which none is
overwritten before it is read, so it comes down to replacing a range by what was there at the start.

Main results:

* `ofSlot_toSlot` — an element is read back from the word that stores it.
* `elements_newArray`, `elements_write` — the elements after an allocation and after a write.
* `slots_moveElements`, `elements_moveElements` — words and elements after a bulk copy, whether the
  ranges overlap or not.
* `moveElements_induction` — what every single move keeps is kept by a bulk copy.
-/

namespace ArrayBridge

/-! ## Words -/

namespace Binary

variable {l : Layout}

/-- The code of a number leaves the place of the sign free. -/
theorem Number.code_lt (x : Number l) : x.code < l.signWeight := by
  have hsum := l.infinity_add
  cases x with
  | notANumber negative fraction =>
    rw [code]
    omega
  | magnitude negative code =>
    have hpos : 0 < 2 ^ l.fraction := Nat.two_pow_pos _
    show code.val < l.signWeight
    omega

/-- The sign is the highest bit. -/
theorem Number.toBits_lt (x : Number l) : x.toBits < 2 * l.signWeight := by
  have hcode := x.code_lt
  rw [toBits]
  split <;> omega

/-- A number is read back from its bits, a NaN like any other. -/
theorem Number.ofBits_toBits (x : Number l) : Number.ofBits l x.toBits = x := by
  have hcode := x.code_lt
  -- codes end below the sign, so sign and code come apart
  have hbits : x.toBits = x.code + l.signWeight * (if x.isNegative then 1 else 0) := by
    rw [toBits]
    split <;> simp [Nat.add_comm]
  have hmod : x.toBits % l.signWeight = x.code := by
    rw [hbits, Nat.add_mul_mod_self_left, Nat.mod_eq_of_lt hcode]
  have hsign : (x.toBits / l.signWeight % 2 == 1) = x.isNegative := by
    rw [hbits, Nat.add_mul_div_left _ _ (by omega), Nat.div_eq_of_lt hcode, Nat.zero_add]
    cases x.isNegative <;> rfl
  rw [ofBits]
  simp only [hmod, hsign]
  cases x with
  | notANumber negative fraction =>
    have hnan : ¬ (notANumber negative fraction).code ≤ l.infinity := by
      rw [code]
      omega
    rw [dif_neg hnan]
    refine congrArg (notANumber negative) (Fin.ext ?_)
    exact Nat.add_sub_cancel_left (l.infinity + 1) fraction
  | magnitude negative code => exact dif_pos (Nat.le_of_lt_succ code.isLt)

/-- The bits of a number are found again in the number that they make. -/
theorem Number.toBits_ofBits {bits : Nat} (h : bits < 2 * l.signWeight) :
    (Number.ofBits l bits).toBits = bits := by
  have hpos : 0 < l.signWeight := Nat.two_pow_pos _
  have hsplit := Nat.div_add_mod bits l.signWeight
  have hlt : bits / l.signWeight < 2 := Nat.div_lt_of_lt_mul (by rwa [Nat.mul_comm])
  have hsign : bits / l.signWeight = 0 ∨ bits / l.signWeight = 1 := by
    generalize bits / l.signWeight = sign at hlt
    omega
  -- whether it is a NaN or not, the number has the sign and the code that the bits are split into
  have hparts : (Number.ofBits l bits).code = bits % l.signWeight ∧
      (Number.ofBits l bits).isNegative = (bits / l.signWeight % 2 == 1) := by
    rw [ofBits]
    split
    · exact ⟨rfl, rfl⟩
    · rename_i hnan
      exact ⟨Nat.add_sub_of_le (Nat.lt_of_not_le hnan), rfl⟩
  rw [toBits, hparts.1, hparts.2]
  obtain hzero | hone := hsign
  · rw [hzero] at hsplit ⊢
    simpa using hsplit
  · rw [hone] at hsplit ⊢
    simpa using hsplit

end Binary

/-- An element is read back from the word that stores it. -/
theorem Prim.ofSlot_toSlot (p : Prim) : p.kind.ofSlot p.toSlot = p := by
  -- floating-point numbers are stored by their bits, all of which fit into a slot
  cases p with
  | boolean b => cases b <;> rfl
  | float x =>
    have hword : (UInt64.ofNat x.toBits).toUInt32.toNat = x.toBits := by
      have hlt : x.toBits < 0x100000000 := x.toBits_lt
      simp only [UInt64.toNat_toUInt32, UInt64.toNat_ofNat']
      omega
    simp only [kind, toSlot, Kind.ofSlot, hword]
    rw [Binary.Number.ofBits_toBits]
  | double x =>
    have hword : (UInt64.ofNat x.toBits).toNat = x.toBits := by
      have hlt : x.toBits < 0x10000000000000000 := x.toBits_lt
      simp only [UInt64.toNat_ofNat']
      omega
    simp only [kind, toSlot, Kind.ofSlot, hword]
    rw [Binary.Number.ofBits_toBits]
  | _ => simp [kind, toSlot, Kind.ofSlot]

/-- A value is read back from its word at its own kind. -/
theorem Kind.ofSlot_toSlot {k : Kind} {p : Prim} (h : p.kind = k) : k.ofSlot p.toSlot = p :=
  h ▸ p.ofSlot_toSlot

/-- An element is the zero of its kind exactly if all bits of its word are zero. -/
theorem Prim.isZero_iff {p : Prim} : p.isZero = true ↔ p.toSlot = 0 := by
  rw [isZero, decide_eq_true_iff]
  constructor
  · intro h
    rw [h]
    cases p.kind <;> decide
  · intro h
    rw [← p.ofSlot_toSlot, h]
    cases p.kind <;> decide

-- the sign of a negative zero is one of its bits
example : (Prim.double (.magnitude true 0)).isZero = false := by decide

/-! ## Views -/

namespace Store

variable (s : Store) (a : ArrayRef)

@[simp] theorem length_elements : (s.elements a).length = s.length a := by
  simp [elements, length]

theorem getElem?_slots (i : Nat) :
    (s.slots a)[i]? = if i < s.length a then some (s.word a i) else none := by
  rw [word, Array.getD_eq_getD_getElem?, length]
  split
  · rename_i h
    rw [Array.getElem?_eq_getElem h, Option.getD_some]
  · rename_i h
    exact Array.getElem?_eq_none (Nat.not_lt.mp h)

theorem getElem?_elements (i : Nat) :
    (s.elements a)[i]? = if i < s.length a then some (s.element a i) else none := by
  rw [elements, List.getElem?_map, Array.getElem?_toList, getElem?_slots]
  split <;> rfl

theorem getElem?_elements_of_lt {i : Nat} (h : i < s.length a) :
    (s.elements a)[i]? = some (s.element a i) := by
  rw [getElem?_elements, if_pos h]

/-! ### Allocations and writes -/

/-- A new array is at a new place. -/
theorem slots_newArray (k : Kind) (els : Array Prim) :
    (s.newArray k els).2.slots a =
      if a.place = s.arrays.size then els.map Prim.toSlot else s.slots a := by
  simp only [newArray, slots, Array.getD_eq_getD_getElem?, Array.getElem?_push]
  split <;> rfl

theorem slots_newArray_self (k : Kind) (els : Array Prim) :
    (s.newArray k els).2.slots (s.newArray k els).1 = els.map Prim.toSlot := by
  have hplace : (s.newArray k els).1.place = s.arrays.size := rfl
  rw [slots_newArray, if_pos hplace]

/-- A fresh array holds the elements that it was made of. -/
theorem elements_newArray {k : Kind} {els : Array Prim} (h : ∀ p ∈ els.toList, p.kind = k) :
    (s.newArray k els).2.elements (s.newArray k els).1 = els.toList := by
  rw [elements, slots_newArray_self, Array.toList_map, List.map_map]
  refine (List.map_congr_left fun p hp => ?_).trans (List.map_id _)
  exact Kind.ofSlot_toSlot (h p hp)

/-- A filled array has its element as often as it is long. -/
theorem elements_newArray_replicate {k : Kind} {p : Prim} (n : Nat) (h : p.kind = k) :
    (s.newArray k (.replicate n p)).2.elements ⟨k, s.arrays.size⟩ = List.replicate n p := by
  have hkinds : ∀ q ∈ (Array.replicate n p).toList, q.kind = k := by simp [h]
  have helements := elements_newArray s hkinds
  rw [Array.toList_replicate] at helements
  exact helements

/-- No other array changes when one is allocated. -/
theorem elements_newArray_of_ne {k : Kind} {els : Array Prim} (h : a.place ≠ s.arrays.size) :
    (s.newArray k els).2.elements a = s.elements a := by
  rw [elements, elements, slots_newArray, if_neg h]

/-- A word goes into one place of one array, and into none if there is no such place. -/
theorem slots_writeWord (b : ArrayRef) (i : Nat) (w : Slot) :
    (s.writeWord b i w).slots a =
      if a.place = b.place then (s.slots a).setIfInBounds i w else s.slots a := by
  simp only [writeWord, slots, Array.getD_eq_getD_getElem?, Array.getElem?_modify, eq_comm]
  split
  · cases s.arrays[a.place]? <;> simp
  · rfl

@[simp] theorem length_writeWord (b : ArrayRef) (i : Nat) (w : Slot) :
    (s.writeWord b i w).length a = s.length a := by
  rw [length, length, slots_writeWord]
  split <;> simp

@[simp] theorem size_writeWord (b : ArrayRef) (i : Nat) (w : Slot) :
    (s.writeWord b i w).arrays.size = s.arrays.size :=
  Array.size_modify

/-- Writing a value is writing its word. -/
theorem slots_write (b : ArrayRef) (i : Nat) (value : Prim) :
    (s.write b i value).slots a =
      if a.place = b.place then (s.slots a).setIfInBounds i value.toSlot else s.slots a :=
  s.slots_writeWord a b i value.toSlot

@[simp] theorem length_write (b : ArrayRef) (i : Nat) (value : Prim) :
    (s.write b i value).length a = s.length a :=
  s.length_writeWord a b i value.toSlot

@[simp] theorem size_write (b : ArrayRef) (i : Nat) (value : Prim) :
    (s.write b i value).arrays.size = s.arrays.size :=
  s.size_writeWord b i value.toSlot

variable {s a}

theorem word_writeWord_self {b : ArrayRef} {i : Nat} {w : Slot} (hplace : a.place = b.place)
    (hi : i < s.length a) : (s.writeWord b i w).word a i = w := by
  rw [word, slots_writeWord, if_pos hplace, Array.getD_eq_getD_getElem?,
    Array.getElem?_setIfInBounds_self_of_lt hi, Option.getD_some]

/-- Every other word is as it was. -/
theorem word_writeWord_of_ne {b : ArrayRef} {i j : Nat} {w : Slot}
    (h : a.place = b.place → j ≠ i) : (s.writeWord b i w).word a j = s.word a j := by
  rw [word, word, slots_writeWord]
  split
  · rename_i hplace
    rw [Array.getD_eq_getD_getElem?, Array.getD_eq_getD_getElem?,
      Array.getElem?_setIfInBounds_ne (Ne.symm (h hplace))]
  · rfl

/-- The elements after a write: one of them is set. -/
theorem elements_write {b : ArrayRef} {i : Nat} {value : Prim} (hplace : a.place = b.place)
    (hkind : value.kind = a.kind) :
    (s.write b i value).elements a = (s.elements a).set i value := by
  rw [elements, elements, slots_write, if_pos hplace, Array.toList_setIfInBounds, List.map_set,
    Kind.ofSlot_toSlot hkind]

/-- Arrays at other places do not see a write. -/
theorem elements_write_of_ne {b : ArrayRef} {i : Nat} {value : Prim} (hplace : a.place ≠ b.place) :
    (s.write b i value).elements a = s.elements a := by
  rw [elements, elements, slots_write, if_neg hplace]

theorem element_write_self {b : ArrayRef} {i : Nat} {value : Prim} (hplace : a.place = b.place)
    (hkind : value.kind = a.kind) (hi : i < s.length a) :
    (s.write b i value).element a i = value := by
  rw [element, write, word_writeWord_self hplace hi, Kind.ofSlot_toSlot hkind]

end Store

/-! ## Bulk copy -/

/-- A list with the items from a place on replaced by others. -/
def splice {α : Type} (xs : List α) (i : Nat) (ys : List α) : List α :=
  xs.take i ++ ys ++ xs.drop (i + ys.length)

theorem map_splice {α β : Type} (f : α → β) (xs ys : List α) (i : Nat) :
    (splice xs i ys).map f = splice (xs.map f) i (ys.map f) := by
  simp [splice]

theorem length_splice {α : Type} {xs ys : List α} {i : Nat} (h : i + ys.length ≤ xs.length) :
    (splice xs i ys).length = xs.length := by
  simp [splice]
  omega

/-- Inside the range the new items are found, outside the old ones. -/
theorem getElem?_splice {α : Type} {xs ys : List α} {i : Nat} (h : i + ys.length ≤ xs.length)
    (j : Nat) :
    (splice xs i ys)[j]? = if i ≤ j ∧ j < i + ys.length then ys[j - i]? else xs[j]? := by
  have htake : (xs.take i).length = i := by simp; omega
  rw [splice]
  -- in the range that is replaced, before it, and behind it
  split
  · rename_i hrange
    rw [List.getElem?_append_left (by simp; omega), List.getElem?_append_right (by omega), htake]
  · by_cases hlt : j < i
    · rw [List.getElem?_append_left (by simp; omega), List.getElem?_append_left (by omega),
        List.getElem?_take_of_lt hlt]
    · rw [List.getElem?_append_right (by simp; omega), List.getElem?_drop]
      congr 1
      simp
      omega

namespace ArrayRef

/-- Moves the words at the given distances from the starts of the two ranges, one after another. -/
def moveAll (a destination : ArrayRef) (range : CopyRange) (order : List Nat) (s : Store) : Store :=
  order.foldl
    (fun s i => s.writeWord destination (range.destination + i) (s.word a (range.source + i))) s

variable {a destination b : ArrayRef} {range : CopyRange} {order : List Nat} {s : Store}

/-- What every single move keeps is kept by all of them. -/
theorem moveAll_induction {P : Store → Prop} (hstart : P s)
    (hmove : ∀ (s : Store), ∀ i ∈ order, P s →
      P (s.writeWord destination (range.destination + i) (s.word a (range.source + i)))) :
    P (moveAll a destination range order s) := by
  induction order generalizing s with
  | nil => exact hstart
  | cons i order ih =>
    rw [moveAll, List.foldl_cons]
    have hfirst := hmove s i List.mem_cons_self hstart
    exact ih hfirst fun s j hj => hmove s j (List.mem_cons_of_mem i hj)

@[simp] theorem length_moveAll : (moveAll a destination range order s).length b = s.length b :=
  moveAll_induction (P := fun s' => s'.length b = s.length b) rfl
    fun s' _ _ h => (s'.length_writeWord b destination _ _).trans h

/-- A word that no move goes to is as it was. -/
theorem word_moveAll_of_forall_ne {j : Nat} (h : ∀ i ∈ order, j ≠ range.destination + i) :
    (moveAll a destination range order s).word destination j = s.word destination j :=
  moveAll_induction (P := fun s' => s'.word destination j = s.word destination j) rfl
    fun _ i hi hkept => (Store.word_writeWord_of_ne fun _ => h i hi).trans hkept

/-- Each word that is moved arrives, if no move overwrites what a later one reads. -/
theorem word_moveAll (hnodup : order.Nodup)
    (hbound : ∀ i ∈ order, range.destination + i < s.length destination)
    (hsafe : order.Pairwise fun i j =>
      a.place = destination.place → range.source + j ≠ range.destination + i)
    {i : Nat} (hi : i ∈ order) :
    (moveAll a destination range order s).word destination (range.destination + i) =
      s.word a (range.source + i) := by
  -- the induction is on the moves, in a store that each of them changes
  induction order generalizing s with
  | nil => cases hi
  | cons first order ih =>
    obtain ⟨hfirst, hnodup⟩ := List.nodup_cons.mp hnodup
    obtain ⟨hfirstSafe, hsafe⟩ := List.pairwise_cons.mp hsafe
    rw [moveAll, List.foldl_cons]
    rcases List.mem_cons.mp hi with rfl | hi
    · -- the word arrives with this move, and no later one goes there
      have hlater : ∀ j ∈ order, range.destination + i ≠ range.destination + j := by
        intro j hj heq
        have : i = j := by omega
        exact hfirst (this ▸ hj)
      exact (word_moveAll_of_forall_ne hlater).trans
        (Store.word_writeWord_self rfl (hbound i List.mem_cons_self))
    · -- this move leaves alone what the later one reads
      have hrest := ih (s := s.writeWord destination (range.destination + first)
        (s.word a (range.source + first))) hnodup
        (fun j hj => by simpa using hbound j (List.mem_cons_of_mem first hj)) hsafe hi
      exact hrest.trans (Store.word_writeWord_of_ne (hfirstSafe i hi))

/-- Arrays of one kind share their storage if they are at one place. -/
theorem sharesStorageWith_iff_place_eq (hkind : destination.kind = a.kind) :
    a.sharesStorageWith destination = true ↔ a.place = destination.place := by
  rw [sharesStorageWith, decide_eq_true_iff]
  constructor
  · rintro rfl
    rfl
  · intro hplace
    cases a
    cases destination
    rw [ArrayRef.mk.injEq]
    exact ⟨hkind.symm, hplace⟩

/-- The order of a copy is such that no element is overwritten before it is read. -/
theorem moveOrder_pairwise (hkind : destination.kind = a.kind) :
    (a.moveOrder destination range).Pairwise fun i j =>
      a.place = destination.place → range.source + j ≠ range.destination + i := by
  have hlt : (List.range range.count).Pairwise (· < ·) := List.pairwise_lt_range
  rw [moveOrder]
  split
  · -- from the end: what is read lies before all that has been written
    rename_i hback
    simp only [Bool.and_eq_true, decide_eq_true_eq] at hback
    rw [List.pairwise_reverse]
    exact hlt.imp fun h _ => by omega
  · rename_i hforward
    -- from the start: in one array what is read lies after all that has been written
    refine hlt.imp fun h hplace => ?_
    have hshare := (sharesStorageWith_iff_place_eq hkind).mpr hplace
    simp only [hshare, Bool.true_and, decide_eq_true_eq] at hforward
    omega

/-- Both orders move every word of the range, -/
theorem mem_moveOrder {i : Nat} : i ∈ a.moveOrder destination range ↔ i < range.count := by
  rw [moveOrder]
  split <;> simp

/-- and each of them once. -/
theorem nodup_moveOrder : (a.moveOrder destination range).Nodup := by
  rw [moveOrder]
  split
  · exact List.pairwise_reverse.mpr (List.nodup_range.imp Ne.symm)
  · exact List.nodup_range

/-- What every single move keeps is kept by a copy. -/
theorem moveElements_induction {P : Store → Prop} (hstart : P s)
    (hmove : ∀ (s : Store), ∀ i < range.count, P s →
      P (s.writeWord destination (range.destination + i) (s.word a (range.source + i)))) :
    P (a.moveElements destination range s) :=
  moveAll_induction hstart fun s i hi => hmove s i (mem_moveOrder.mp hi)

theorem size_moveElements : (a.moveElements destination range s).arrays.size = s.arrays.size :=
  moveElements_induction (P := fun s' => s'.arrays.size = s.arrays.size) rfl
    fun s' _ _ h => (s'.size_writeWord destination _ _).trans h

theorem slots_moveElements_of_ne (h : b.place ≠ destination.place) :
    (a.moveElements destination range s).slots b = s.slots b :=
  moveElements_induction (P := fun s' => s'.slots b = s.slots b) rfl fun s' _ _ hkept => by
    rw [Store.slots_writeWord, if_neg h, hkept]

/-- A copy replaces a range of the destination by the words that were in the source at the start. -/
theorem slots_moveElements (hkind : destination.kind = a.kind)
    (hsource : range.source + range.count ≤ s.length a)
    (hdestination : range.destination + range.count ≤ s.length destination) :
    ((a.moveElements destination range s).slots destination).toList =
      splice (s.slots destination).toList range.destination
        (((s.slots a).toList.drop range.source).take range.count) := by
  change ((moveAll a destination range (a.moveOrder destination range) s).slots
    destination).toList = _
  have hmoved :
      (((s.slots a).toList.drop range.source).take range.count).length = range.count := by
    rw [List.length_take, List.length_drop, Array.length_toList, ← Store.length]
    omega
  have hlength : (s.slots destination).toList.length = s.length destination := rfl
  -- place by place: in the range, outside of it, and past the end
  refine List.ext_getElem? fun j => ?_
  rw [getElem?_splice (by rw [hmoved, hlength]; exact hdestination), hmoved,
    Array.getElem?_toList, Store.getElem?_slots, length_moveAll]
  split
  · rename_i hj
    split
    · rename_i hrange
      obtain ⟨i, rfl⟩ : ∃ i, j = range.destination + i := ⟨j - range.destination, by omega⟩
      have hi : i < range.count := by omega
      rw [word_moveAll nodup_moveOrder
        (fun i hi => by have := mem_moveOrder.mp hi; omega) (moveOrder_pairwise hkind)
        (mem_moveOrder.mpr hi), Nat.add_sub_cancel_left, List.getElem?_take_of_lt hi,
        List.getElem?_drop, Array.getElem?_toList, Store.getElem?_slots, if_pos (by omega)]
    · rename_i hrange
      rw [word_moveAll_of_forall_ne fun i hi => ?_, Array.getElem?_toList, Store.getElem?_slots,
        if_pos hj]
      have := mem_moveOrder.mp hi
      omega
  · rename_i hj
    rw [if_neg (by omega), Array.getElem?_toList, Store.getElem?_slots, if_neg hj]

/-- So it does with elements, as both arrays read words alike. -/
theorem elements_moveElements (hkind : destination.kind = a.kind)
    (hsource : range.source + range.count ≤ s.length a)
    (hdestination : range.destination + range.count ≤ s.length destination) :
    (a.moveElements destination range s).elements destination =
      splice (s.elements destination) range.destination
        (((s.elements a).drop range.source).take range.count) := by
  simp only [Store.elements, slots_moveElements hkind hsource hdestination, map_splice, hkind,
    List.map_take, List.map_drop]

theorem elements_moveElements_of_ne (h : b.place ≠ destination.place) :
    (a.moveElements destination range s).elements b = s.elements b := by
  rw [Store.elements, Store.elements, slots_moveElements_of_ne h]

end ArrayRef

end ArrayBridge
