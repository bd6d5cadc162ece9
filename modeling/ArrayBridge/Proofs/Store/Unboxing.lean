import ArrayBridge.Proofs.Binary.Rounding
import ArrayBridge.Proofs.Store.Sequences

/-!
# Unboxing a sequence

An array is made of a generic sequence by unboxing the items in turn, and only when all of them have
been unboxed is the array allocated. Several kinds share a boxed form, so the sequence may be a view
of an array of another kind, and each kind has a rule of its own for what fits; none but `float`
changes an item that it takes.

Main results:

* `Kind.shows_box_of_unbox` — what becomes of an item that is unboxed and boxed again.
* `ArrayRef.ofSequence_eq_ok`, `ArrayRef.ofSequence_eq_error` — when a sequence is made into an
  array and which item is refused.
* `ArrayRef.converts` — a conversion is exact, and all or nothing.
-/

namespace ArrayBridge

/-! ## Single items -/

namespace Kind

/-- How an item of a sequence shows in the view of an array of kind `k`: as it is, but in place of a
64-bit number an array of `float` has the nearest 32-bit one. -/
def Shows (k : Kind) (b shown : Boxed) : Prop :=
  match k with
  | .float => ∃ (x : Binary.Double) (y : Binary.Single),
      b = .float x ∧ x.RoundsTo y ∧ shown = .float y.widen
  | _ => shown = b

/-- A kind takes what fits, and `float` rounds, so the element shows as the item that it was. -/
theorem shows_box_of_unbox {k : Kind} {b : Boxed} {p : Prim} (h : k.unbox b = some p) :
    k.Shows b p.box := by
  cases k with
  | short | int =>
    cases b with
    | integer n =>
      obtain ⟨hfits, ⟨⟩⟩ := Option.ite_none_right_eq_some.mp h
      exact congrArg Boxed.integer hfits
    | _ => cases h
  | float =>
    cases b with
    | float x =>
      obtain rfl := Option.some.inj h
      exact ⟨x, x.narrow, rfl, Binary.Number.roundsTo_narrow x, rfl⟩
    | _ => cases h
  | _ =>
    -- the other kinds have a boxed form of their own width
    cases b <;> cases h
    rfl

theorem unboxAt_eq_ok {k : Kind} {op : Operation} {index : Int64} {b : Boxed} {p : Prim} :
    k.unboxAt op index b = .ok p ↔ k.unbox b = some p := by
  rw [unboxAt]
  cases k.unbox b <;> simp

theorem unboxAt_eq_error {k : Kind} {op : Operation} {index : Int64} {b : Boxed}
    {fault : ArrayFault} : k.unboxAt op index b = .error fault ↔
      k.unbox b = none ∧ fault = .typeMismatch op k index b := by
  rw [unboxAt]
  cases k.unbox b <;> simp [eq_comm]

end Kind

/-! ## Whole sequences -/

/-- The first of some items that does not unbox to a kind. -/
structure Kind.FirstRefused (k : Kind) (items : List Boxed) (i : Nat) (b : Boxed) : Prop where
  item : items[i]? = some b
  refused : k.unbox b = none
  before : ∀ (j : Nat) (b' : Boxed), j < i → items[j]? = some b' → ∃ p, k.unbox b' = some p

namespace ArrayRef

variable {k : Kind} {q : Sequence} {s s' : Store} {a : ArrayRef}

/-- No item is missing that is asked for, so an item can only be refused for what it is. -/
theorem unboxItem_of_getElem? {i : Nat} {b : Boxed} (h : (s.itemsOf q)[i]? = some b) :
    unboxItem k q s i = k.unboxAt .fromGenericView (Int64.ofNat i) b := by
  rw [Sequence.getElem?_itemsOf] at h
  rw [unboxItem, h]

/-- All items are unboxed exactly if each of them is, and in order. -/
theorem mapM_unboxItem_eq_ok {els : List Prim} :
    (List.range (q.size s)).mapM (unboxItem k q s) = .ok els ↔
      List.Forall₂ (fun b p => k.unbox b = some p) (s.itemsOf q) els := by
  -- the traversal is over places, the items stand at these places
  have hitem : ∀ (i : Nat) (hi : i < (s.itemsOf q).length) (p : Prim),
      unboxItem k q s i = .ok p ↔ k.unbox (s.itemsOf q)[i] = some p := by
    intro i hi p
    rw [unboxItem_of_getElem? (List.getElem?_eq_getElem hi), Kind.unboxAt_eq_ok]
  have hsize := Sequence.length_itemsOf (s := s) q
  rw [mapM_eq_ok_iff, List.forall₂_iff_get, List.forall₂_iff_get]
  simp only [List.get_eq_getElem, List.getElem_range, List.length_range]
  constructor
  · rintro ⟨hlength, heach⟩
    refine ⟨hsize.trans hlength, fun i hi hi' => ?_⟩
    exact (hitem i hi _).mp (heach i (by simpa [← hsize] using hi) hi')
  · rintro ⟨hlength, heach⟩
    refine ⟨hsize.symm.trans hlength, fun i hi hi' => ?_⟩
    have hlt : i < (s.itemsOf q).length := by simpa [hsize] using hi
    exact (hitem i hlt _).mpr (heach i hlt hi')

/-- A sequence is made into an array of its unboxed items. -/
theorem ofSequence_eq_ok :
    ofSequence k q s = .ok a s' ↔ ∃ els,
      List.Forall₂ (fun b p => k.unbox b = some p) (s.itemsOf q) els ∧
        a = (s.newArray k els.toArray).1 ∧ s' = (s.newArray k els.toArray).2 := by
  simp only [ofSequence_apply, ← mapM_unboxItem_eq_ok]
  cases (List.range (q.size s)).mapM (unboxItem k q s) <;> simp [eq_comm]

/-- It is not if an item is refused, and then the first such item is the one that is reported. -/
theorem ofSequence_eq_error {fault : ArrayFault} :
    ofSequence k q s = .error fault s' ↔ s' = s ∧ ∃ (i : Nat) (b : Boxed),
      k.FirstRefused (s.itemsOf q) i b ∧
        fault = .typeMismatch .fromGenericView k (Int64.ofNat i) b := by
  have herror : ofSequence k q s = .error fault s' ↔
      s' = s ∧ (List.range (q.size s)).mapM (unboxItem k q s) = .error fault := by
    rw [ofSequence_apply]
    cases (List.range (q.size s)).mapM (unboxItem k q s) <;> simp [eq_comm, and_comm]
  -- items are unboxed by their indices, so an index is its own place in the traversal
  have hplace : ∀ i x : Nat, (List.range (q.size s))[i]? = some x ↔ i < q.size s ∧ x = i := by
    intro i x
    rw [List.getElem?_eq_some_iff]
    simp [eq_comm]
  rw [herror, mapM_eq_error_iff]
  refine and_congr Iff.rfl ?_
  constructor
  · rintro ⟨i, x, hx, hfault, hbefore⟩
    obtain ⟨hi, rfl⟩ := (hplace i x).mp hx
    rw [← Sequence.length_itemsOf] at hi
    have hitem := List.getElem?_eq_getElem hi
    rw [unboxItem_of_getElem? hitem, Kind.unboxAt_eq_error] at hfault
    refine ⟨x, _, ⟨hitem, hfault.1, fun j b' hj hb' => ?_⟩, hfault.2⟩
    obtain ⟨p, hp⟩ := hbefore j j hj
      ((hplace j j).mpr ⟨by rw [← Sequence.length_itemsOf]; omega, rfl⟩)
    rw [unboxItem_of_getElem? hb', Kind.unboxAt_eq_ok] at hp
    exact ⟨p, hp⟩
  · rintro ⟨i, b, ⟨hb, hrefused, hbefore⟩, rfl⟩
    obtain ⟨hi, -⟩ := List.getElem?_eq_some_iff.mp hb
    refine ⟨i, i, (hplace i i).mpr ⟨by rwa [← Sequence.length_itemsOf], rfl⟩, ?_,
      fun j x hj hx => ?_⟩
    · rw [unboxItem_of_getElem? hb, Kind.unboxAt_eq_error]
      exact ⟨hrefused, rfl⟩
    · obtain ⟨hjlt, rfl⟩ := (hplace j x).mp hx
      rw [← Sequence.length_itemsOf] at hjlt
      have hitem := List.getElem?_eq_getElem hjlt
      obtain ⟨p, hp⟩ := hbefore x _ hj hitem
      exact ⟨p, by rw [unboxItem_of_getElem? hitem, Kind.unboxAt_eq_ok, hp]⟩

/-! ## Conversion -/

/-- What a conversion to kind `k` leaves: a fresh array of the unboxed items, in whose view they
show again, and besides it all that was there before. -/
structure MadeOf (k : Kind) (q : Sequence) (s : Store) (a : ArrayRef) (s' : Store) : Prop where
  kind : a.kind = k
  fresh : s.Allocates s' (.array a.place)
  length : s'.length a = q.size s
  element (i : Nat) (b : Boxed) (hb : (s.itemsOf q)[i]? = some b) :
    ∃ p, k.unbox b = some p ∧ (s'.elements a)[i]? = some p
  view : List.Forall₂ k.Shows (s.itemsOf q) (s'.itemsOf a.toSequence)
  kept : s.Frame (fun _ => False) s'
  items (hq : s.Has q.storage) : s'.itemsOf q = s.itemsOf q

/-- What an array made of a sequence is. -/
theorem madeOf_of_ofSequence (h : ofSequence k q s = .ok a s') : MadeOf k q s a s' := by
  obtain ⟨els, hels, rfl, rfl⟩ := ofSequence_eq_ok.mp h
  have hkinds : ∀ p ∈ els.toArray.toList, p.kind = k := by
    intro p hp
    obtain ⟨b, -, hb⟩ := exists_of_forall₂_right hels hp
    exact Kind.kind_of_unbox hb
  have helements := Store.elements_newArray s hkinds
  have hframe := Store.Frame.newArray (fun _ => False) s k els.toArray
  refine ⟨rfl, allocates_of_ofSequence h, ?_, fun i b hb => ?_, ?_, hframe, fun hq => ?_⟩
  · rw [← Store.length_elements, helements, ← Sequence.length_itemsOf]
    exact hels.length_eq.symm
  · -- the elements are the unboxed items, place by place
    obtain ⟨hi, rfl⟩ := List.getElem?_eq_some_iff.mp hb
    have hi' : i < els.length := by rwa [← hels.length_eq]
    refine ⟨els[i], (List.forall₂_iff_get.mp hels).2 i hi hi', ?_⟩
    rw [helements]
    exact List.getElem?_eq_getElem hi'
  · show List.Forall₂ k.Shows _ (((s.newArray k els.toArray).2.elements _).map Prim.box)
    rw [helements, List.forall₂_map_right_iff]
    exact hels.imp fun b p hb => Kind.shows_box_of_unbox hb
  · exact hframe.itemsOf_eq hq fun _ => id

/-- The conversion of a sequence in a store to an array of kind `k` is exact, and all or nothing. -/
structure Converts (k : Kind) (q : Sequence) (s : Store) : Prop where
  /-- It succeeds exactly if every item unboxes to the kind. -/
  ok_iff : (∃ a s', ofSequence k q s = .ok a s') ↔ ∀ b ∈ s.itemsOf q, ∃ p, k.unbox b = some p
  made (a : ArrayRef) (s' : Store) (h : ofSequence k q s = .ok a s') : MadeOf k q s a s'
  /-- Otherwise the fault names the first item that does not, with its index, and the store is as it
  was. The index is the one of the item wherever it is that of a signed word. -/
  refused (h : ¬ ∀ b ∈ s.itemsOf q, ∃ p, k.unbox b = some p) :
    ∃ (i : Nat) (b : Boxed), k.FirstRefused (s.itemsOf q) i b ∧
      ofSequence k q s = .error (.typeMismatch .fromGenericView k (Int64.ofNat i) b) s ∧
      (i ≤ Sequence.maxIndex → (Int64.ofNat i).toInt = i)
  /-- Each item that is asked for is there. -/
  present (i : Nat) (hi : i < q.size s) : ∃ b, q.item? s i = some b

/-- Conversion from a generic sequence is exact, and all or nothing. -/
theorem converts (k : Kind) (q : Sequence) (s : Store) : Converts k q s := by
  have hok : (∃ a s', ofSequence k q s = .ok a s') ↔
      ∀ b ∈ s.itemsOf q, ∃ p, k.unbox b = some p := by
    constructor
    · rintro ⟨a, s', h⟩ b hb
      obtain ⟨els, hels, -, -⟩ := ofSequence_eq_ok.mp h
      obtain ⟨p, -, hp⟩ := exists_of_forall₂_right hels.flip hb
      exact ⟨p, hp⟩
    · intro h
      obtain ⟨els, hels⟩ := exists_forall₂ h
      exact ⟨_, _, ofSequence_eq_ok.mpr ⟨els, hels, rfl, rfl⟩⟩
  -- the first item that is refused is there, and its index is one that can be named
  refine ⟨hok, fun a s' h => madeOf_of_ofSequence h, fun h => ?_, fun i hi => ?_⟩
  · cases hresult : ofSequence k q s with
    | ok a s' => exact absurd (hok.mp ⟨a, s', hresult⟩) h
    | error fault s' =>
      obtain ⟨rfl, i, b, hfirst, rfl⟩ := ofSequence_eq_error.mp hresult
      exact ⟨i, b, hfirst, rfl, fun hindex => Int64.toInt_ofNat_of_lt
        (by rw [Sequence.maxIndex] at hindex; omega)⟩
  · rw [← Sequence.length_itemsOf] at hi
    exact ⟨_, (Sequence.getElem?_itemsOf s q i).symm.trans (List.getElem?_eq_getElem hi)⟩

-- an int that is too large for a short is refused, whatever comes after it
example : ofSequence .short (.view ⟨.int, 0⟩) ⟨#[#[7, 70000, 80000]], #[]⟩ =
    .error (.typeMismatch .fromGenericView .short 1 (.integer 70000))
      ⟨#[#[7, 70000, 80000]], #[]⟩ := rfl

end ArrayRef

end ArrayBridge
