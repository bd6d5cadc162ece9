import ArrayBridge.Proofs.Store.Sequences

/-!
# Indices past the end

A generic sequence has nothing at or past its end: no item is found there, and none is stored.
Generic code has natural numbers for indices, but faults name signed ones of 64 bits. The view of an
array stops at the largest of those, a boxed sequence takes the low bits, so what a fault names is
the index that was asked for exactly if that is a signed one.

Main results:

* `SequenceFault.index?` — the index that a fault names.
* `Sequence.toInt_namedIndex_eq_iff` — when a sequence names an index as it is.
* `Sequence.refusesAt_of_size_le` — what happens at every index past the end.
-/

namespace ArrayBridge

/-! ## What faults name -/

/-- The index that a fault of an array names. Faults of copies name a range, others no index. -/
def ArrayFault.index? : ArrayFault → Option Int64
  | indexOutOfBounds _ _ index _ => some index
  | typeMismatch _ _ index _ => some index
  | invalidCopyRange .. => none
  | negativeSize .. => none
  | sizeTooLarge .. => none
  | unsupportedDirectInvocation .. => none
  | kindMismatch .. => none

/-- The index that a fault of a sequence names. -/
def SequenceFault.index? : SequenceFault → Option Int64
  | indexOutOfBounds index _ => some index
  | elementType .. => none
  | array fault => fault.index?

/-- Whether a fault is an index outside the bounds of a sequence or of the array behind it. -/
def SequenceFault.IsBounds : SequenceFault → Prop
  | indexOutOfBounds .. => True
  | elementType .. => False
  | array (.indexOutOfBounds ..) => True
  | array _ => False

namespace Sequence

variable {q : Sequence} {s : Store} {index : Nat} {value : Boxed}

/-- The signed index that a sequence names for an index of generic code. -/
def namedIndex (q : Sequence) (index : Nat) : Int64 :=
  match q with
  | view _ => Int64.ofNat (min index maxIndex)
  | boxed _ => Int64.ofNat index

/-- A sequence names an index as it is exactly if that is a signed one. -/
theorem toInt_namedIndex_eq_iff (q : Sequence) (index : Nat) :
    (q.namedIndex index).toInt = index ↔ index ≤ maxIndex := by
  constructor
  · intro h
    -- no signed index is larger
    have hlt := Int64.toInt_lt (q.namedIndex index)
    rw [maxIndex]
    omega
  · intro h
    cases q with
    | view a => exact toInt_ofNat_min h
    | boxed r => exact Int64.toInt_ofNat_of_lt (by rw [maxIndex] at h; omega)

/-- Nothing is found at or past the end. -/
theorem item?_of_size_le (h : q.size s ≤ index) : q.item? s index = none := by
  rw [← getElem?_itemsOf, List.getElem?_eq_none_iff, length_itemsOf]
  exact h

/-! ## Refusals -/

/-- How a sequence that has no item at an index answers for it: nothing is found there, and nothing
is stored. -/
structure RefusesAt (q : Sequence) (s : Store) (index : Nat) (value : Boxed) : Prop where
  item? : q.item? s index = none
  /-- What is set is refused, and the store stays as it was, whatever the value is. -/
  setItem : ∃ fault, q.setItem index value s = .error fault s ∧
    -- the value comes first: a bounds failure is that of a value which the sequence takes
    (fault.IsBounds ↔ q.Accepts value) ∧
    -- only a boxed sequence that does not take the value leaves the index out
    (fault.index? = none ↔ ¬ q.Accepts value ∧ ∃ r, q = .boxed r) ∧
    ∀ named, fault.index? = some named → (named.toInt = index ↔ index ≤ maxIndex)

/-- The view of an array asks the array for the index that it names, which lies past the end too. -/
theorem namedIndex_view_of_length_le {a : ArrayRef} (hlength : s.length a ≤ maxIndex)
    (h : s.length a ≤ index) :
    ¬ (0 ≤ (namedIndex (.view a) index).toInt ∧
      (namedIndex (.view a) index).toInt < s.length a) := by
  rintro ⟨-, hlt⟩
  have hnamed := toInt_ofNat_min (Nat.min_le_right index maxIndex)
  rw [Nat.min_assoc, Nat.min_self] at hnamed
  rw [namedIndex, hnamed] at hlt
  omega

/-- A view bounds the index by the largest signed one, which no array reaches. -/
theorem refusesAt_view {a : ArrayRef} (hlength : s.length a ≤ maxIndex) (h : s.length a ≤ index) :
    RefusesAt (.view a) s index value := by
  have hout := namedIndex_view_of_length_le hlength h
  refine ⟨item?_of_size_le h, ?_⟩
  rw [setItem_view_apply]
  cases hunbox : a.kind.unbox value with
  | none =>
    -- the array is not asked at all
    have hnot : ¬ Accepts (.view a) value := by
      rintro ⟨p, hp⟩
      rw [hunbox] at hp
      cases hp
    refine ⟨_, rfl, ⟨False.elim, hnot⟩, ⟨nofun, fun ⟨_, _, hq⟩ => nomatch hq⟩, ?_⟩
    rintro _ ⟨⟩
    exact toInt_namedIndex_eq_iff (.view a) index
  | some p =>
    have haccepts : Accepts (.view a) value := ⟨p, hunbox⟩
    refine ⟨_, if_neg hout, ⟨fun _ => haccepts, fun _ => trivial⟩,
      ⟨nofun, fun ⟨hnot, _⟩ => absurd haccepts hnot⟩, ?_⟩
    rintro _ ⟨⟩
    exact toInt_namedIndex_eq_iff (.view a) index

/-- A boxed sequence compares the index as it is, and reports it as a signed number. -/
theorem refusesAt_boxed {r : BoxedRef} (h : (s.items r).size ≤ index) :
    RefusesAt (.boxed r) s index value := by
  refine ⟨item?_of_size_le h, ?_⟩
  rw [setItem_boxed_apply]
  by_cases htype : value.isInstanceOf r.element = true
  · rw [if_pos htype, if_neg (Nat.not_lt.mpr h)]
    refine ⟨_, rfl, ⟨fun _ => htype, fun _ => trivial⟩,
      ⟨nofun, fun ⟨hnot, _⟩ => absurd htype hnot⟩, ?_⟩
    rintro _ ⟨⟩
    exact toInt_namedIndex_eq_iff (.boxed r) index
  · rw [if_neg htype]
    exact ⟨_, rfl, ⟨False.elim, fun haccepts => htype haccepts⟩,
      ⟨fun _ => ⟨htype, r, rfl⟩, fun _ => rfl⟩, nofun⟩

/-- Every index at or past the end is refused. The fault names it as it is exactly if it is a signed
one. No sequence in memory is longer than the largest signed index. -/
theorem refusesAt_of_size_le (hsize : q.size s ≤ maxIndex) (h : q.size s ≤ index) :
    RefusesAt q s index value := by
  cases q with
  | view a => exact refusesAt_view hsize h
  | boxed r => exact refusesAt_boxed h

/-- The first index that is no signed one is past the end of every sequence. It is refused by one
that holds a single item, and not named as it is. -/
theorem refusesAt_of_size_le_boxed :
    (boxed ⟨.boxed .int, 0⟩).size ⟨#[], #[#[.integer 1]]⟩ ≤ 9223372036854775808 ∧
      ∃ fault, (boxed ⟨.boxed .int, 0⟩).setItem 9223372036854775808 (.integer 2)
          ⟨#[], #[#[.integer 1]]⟩ = .error fault ⟨#[], #[#[.integer 1]]⟩ ∧
        fault.IsBounds ∧
          ∃ named, fault.index? = some named ∧ named.toInt ≠ 9223372036854775808 := by
  have hrefused : RefusesAt (.boxed ⟨.boxed .int, 0⟩) ⟨#[], #[#[.integer 1]]⟩ 9223372036854775808
      (.integer 2) := refusesAt_of_size_le (by decide) (by decide)
  have haccepts : Accepts (.boxed ⟨.boxed .int, 0⟩) (.integer 2) := rfl
  obtain ⟨fault, hfault, hbounds, hindex, hnamed⟩ := hrefused.setItem
  refine ⟨by decide, fault, hfault, hbounds.mpr haccepts, ?_⟩
  cases hi : fault.index? with
  | none => exact absurd haccepts (hindex.mp hi).1
  | some named =>
    refine ⟨named, rfl, fun heq => ?_⟩
    have hle := (hnamed named hi).mp heq
    exact absurd hle (by decide)

end Sequence

end ArrayBridge
