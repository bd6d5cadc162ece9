import ArrayBridge.Proofs.Store.Words

/-!
# Round trips

Boxing and viewing lose nothing. An element is found again in its boxed form, so the view of an
array is made into an array of the same elements; and it is found again in the word that stores it,
so the words are the same too, as long as each of them stores an element. One thing is left open by
the way through the boxed form: which NaN of kind `float` a NaN comes back as.

Main results:

* `ArrayRef.exists_ofSequence_toSequence` — what the view of an array is made into.
* `ArrayRef.get_of_set` — what has been stored is read again.
* `ArrayRef.losesNothing` — boxing, viewing and storing, for an array and its copy.
-/

namespace ArrayBridge.ArrayRef

variable {s s' : Store} {a b : ArrayRef}

/-! ## Copies of a view -/

/-- The items of a view unbox to the elements that they are the boxed forms of. -/
theorem exists_unbox_toSequence (a : ArrayRef) (s : Store) :
    ∃ els, List.Forall₂ (fun b p => a.kind.unbox b = some p) (s.itemsOf a.toSequence) els ∧
      List.Forall₂ Prim.UpToNaN els (s.elements a) := by
  rw [toSequence, Store.itemsOf, Store.elements]
  -- one word after another, each of which stores an element of the array's kind
  induction (s.slots a).toList with
  | nil => exact ⟨[], .nil, .nil⟩
  | cons w ws ih =>
    obtain ⟨els, hels, hsame⟩ := ih
    obtain ⟨p, hp, hpw⟩ := (a.kind.ofSlot w).exists_unbox_box
    rw [Kind.kind_ofSlot] at hp
    exact ⟨p :: els, .cons hp hels, .cons hpw hsame⟩

/-- An element that is no NaN has come back as itself. -/
theorem getElem?_eq_of_upToNaN {els els' : List Prim} {i n : Nat} {p : Prim}
    (h : List.Forall₂ Prim.UpToNaN els els') (hi : els'[i]? = if i < n then some p else none)
    (hp : ¬ p.IsFloatNaN) : els[i]? = els'[i]? := by
  induction h generalizing i n with
  | nil => rfl
  | @cons q q' qs qs' hq _ ih =>
    cases i with
    | zero =>
      cases hq with
      | refl => rfl
      | float hx hy =>
        -- the element itself would be a NaN
        rw [List.getElem?_cons_zero] at hi
        split at hi
        · exact (hp ⟨_, (Option.some.inj hi).symm, hy⟩).elim
        · cases hi
    | succ i =>
      refine ih (n := n - 1) (hi.trans ?_)
      simp only [Nat.lt_sub_iff_add_lt]

/-- The view of an array is made into an array of the same elements. -/
theorem exists_ofSequence_toSequence (a : ArrayRef) (s : Store) :
    ∃ els, ofSequence a.kind a.toSequence s = .ok (s.newArray a.kind els.toArray).1
        (s.newArray a.kind els.toArray).2 ∧
      List.Forall₂ Prim.UpToNaN els (s.elements a) := by
  obtain ⟨els, hels, hsame⟩ := exists_unbox_toSequence a s
  exact ⟨els, ofSequence_eq_ok.mpr ⟨els, hels, rfl, rfl⟩, hsame⟩

/-- From one store to another, an array has been copied by way of its view. -/
structure CopiedByView (a b : ArrayRef) (s s' : Store) : Prop where
  made : ofSequence a.kind a.toSequence s = .ok b s'
  kind : b.kind = a.kind
  /-- The copy has the same elements, which are the same bit for bit unless they are NaNs. -/
  elements : List.Forall₂ Prim.UpToNaN (s'.elements b) (s.elements a)
  /-- It also has the same words, if those of the array store elements at all. The only words that
  may have changed are those of NaNs of kind `float`. -/
  slots (h : s.Encodes a) (i : Nat) (hi : ¬ (s.element a i).IsFloatNaN) :
    (s'.slots b)[i]? = (s.slots a)[i]?
  /-- The array itself has not changed. -/
  kept : s'.slots a = s.slots a
  /-- The storages are two. -/
  separate : b.place ≠ a.place ∧ a.sharesStorageWith b = false

/-- Every array can be copied by way of its view: each item is boxed, and unboxed at the same kind.
-/
theorem exists_copiedByView (ha : s.Has (.array a.place)) : ∃ b s', CopiedByView a b s s' := by
  -- the copy is made past all arrays that there are
  have hplace : a.place < s.arrays.size := ha
  obtain ⟨els, hmade, hsame⟩ := exists_ofSequence_toSequence a s
  refine ⟨_, _, hmade, rfl, ?_, fun h i hi => ?_, ?_, ?_⟩
  · have hkinds : ∀ p ∈ els.toArray.toList, p.kind = a.kind := by
      intro p hp
      obtain ⟨q, hq, hpq⟩ := exists_of_forall₂_right hsame.flip hp
      obtain ⟨w, -, rfl⟩ := List.mem_map.mp hq
      exact hpq.kind_eq.trans (Kind.kind_ofSlot ..)
    rw [Store.elements_newArray s hkinds]
    exact hsame
  · rw [Store.slots_newArray_self, ← Array.getElem?_toList, ← Array.getElem?_toList,
      Array.toList_map, h.toList_slots, List.getElem?_map, List.getElem?_map]
    exact congrArg (Option.map Prim.toSlot)
      (getElem?_eq_of_upToNaN hsame (s.getElem?_elements a i) hi)
  · rw [Store.slots_newArray, if_neg (Nat.ne_of_lt hplace)]
  · refine ⟨Nat.ne_of_gt hplace, decide_eq_false fun hsame => ?_⟩
    exact Nat.ne_of_lt hplace (congrArg ArrayRef.place hsame)

/-! ## Stored elements -/

/-- What has been stored is read again. -/
theorem get_of_set {index : Int64} {p : Prim} (h : a.set index p s = .ok () s') :
    a.get index s' = .ok p s' := by
  obtain ⟨hkind, hindex, rfl⟩ := set_eq_ok.mp h
  rw [get_apply, Store.length_write, if_pos hindex,
    Store.element_write_self rfl hkind (by omega)]

/-- What boxing, viewing and storing leave of an array of a store: all of it. -/
structure LosesNothing (a : ArrayRef) (s : Store) : Prop where
  /-- The array made of its view is a copy of it. -/
  viewed : ∃ b s', CopiedByView a b s s'
  /-- An element is found again in its boxed form: bit for bit, unless it is a NaN, of which a NaN
  is found. -/
  boxed (p : Prim) : ∃ q, p.kind.unbox p.box = some q ∧ q.UpToNaN p ∧ (¬ p.IsFloatNaN → q = p)
  /-- It is found again in the word that stores it. -/
  encoded (p : Prim) : p.kind.ofSlot p.toSlot = p
  /-- So an element of the array's kind can be stored at each of its indices, and is read again. -/
  stored (index : Int64) (p : Prim) (hkind : p.kind = a.kind)
    (hindex : 0 ≤ index.toInt ∧ index.toInt < s.length a) :
    ∃ s', a.set index p s = .ok () s' ∧ a.get index s' = .ok p s'
  /-- No word is met that stores no element: none in an array of characters that is no code of a
  character. -/
  decodes (arrays : List ArrayRef) (h : Store.Arises arrays s) (ha : a ∈ arrays) :
    s.Encodes a ∧ (a.kind = .char → ∀ w ∈ s.slots a, w.toUInt32.toNat.isValidChar)

/-- Boxing and viewing lose nothing. -/
theorem losesNothing (h : s.Has (.array a.place)) : LosesNothing a s where
  viewed := exists_copiedByView h
  boxed p := by
    obtain ⟨q, hq, hsame⟩ := p.exists_unbox_box
    exact ⟨q, hq, hsame, fun hp => Option.some.inj (hq.symm.trans (Prim.unbox_box hp))⟩
  encoded := Prim.ofSlot_toSlot
  stored _ _ hkind hindex :=
    have hset := set_eq_ok.mpr ⟨hkind, hindex, rfl⟩
    ⟨_, hset, get_of_set hset⟩
  decodes _ harises ha :=
    ⟨harises.encodes ha, fun hkind _ hw => (harises.encodes ha).isValidChar hkind hw⟩

/-- An array of floating-point numbers: a negative zero, the least one and an infinity. -/
theorem losesNothing_float :
    (⟨#[#[0x80000000, 1, 0x7f800000]], #[]⟩ : Store).Has (.array 0) ∧
      LosesNothing ⟨.float, 0⟩ ⟨#[#[0x80000000, 1, 0x7f800000]], #[]⟩ := by
  have hplace : (⟨#[#[0x80000000, 1, 0x7f800000]], #[]⟩ : Store).Has (.array 0) := Nat.zero_lt_one
  exact ⟨hplace, losesNothing hplace⟩

end ArrayBridge.ArrayRef
