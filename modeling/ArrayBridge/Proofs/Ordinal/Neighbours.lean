import ArrayBridge.Proofs.Ordinal.Measures

/-!
# Neighbours

The steps of an ordinal type lead from each value to its immediate neighbours, and back again. They
are refused at the two ends of the type only: the characters on either side of the surrogates are
neighbours of each other.

Main results:

* `Ordinal.successor?_eq_some_iff_adjacent`, `Ordinal.predecessor?_eq_some_iff_adjacent` — where a
  step leads.
* `Ordinal.successor?_eq_none_iff`, `Ordinal.predecessor?_eq_none_iff` — where a step is refused.
* `Ordinal.stepsThrough` — the steps of each of the ordinal types.
-/

namespace ArrayBridge.Ordinal

variable {α : Type} [Ordinal α] [LE α] [LT α]

/-- How steps run through a type that has a least and a greatest value. -/
structure StepsThrough (least greatest : α) : Prop where
  bounds (a : α) : least ≤ a ∧ a ≤ greatest
  /-- A step up and a step down undo each other. -/
  inverse (a b : α) : successor? a = some b ↔ predecessor? b = some a
  /-- A step leads to the next value, and no other value is next. -/
  adjacent (a b : α) : successor? a = some b ↔ Adjacent a b
  successor?_eq_none_iff (a : α) : successor? a = none ↔ a = greatest
  predecessor?_eq_none_iff (a : α) : predecessor? a = none ↔ a = least
  /-- Every value but the two ends has both neighbours. -/
  exists_neighbours (a : α) (hleast : a ≠ least) (hgreatest : a ≠ greatest) :
    ∃ b c, predecessor? a = some b ∧ successor? a = some c

variable [Positioned α] {a b least greatest : α}

open Positioned (position position_injective le_iff lt_iff exists_position_eq)

/-! ## Steps that go through -/

/-- A successor is the next value above, -/
theorem successor?_eq_some_iff_adjacent : successor? a = some b ↔ Adjacent a b := by
  rw [Positioned.successor?_eq_some]
  exact ⟨adjacent_of_position_eq, Adjacent.position_eq⟩

/-- a predecessor the next one below, -/
theorem predecessor?_eq_some_iff_adjacent : predecessor? b = some a ↔ Adjacent a b := by
  rw [← successor?_eq_some_iff_adjacent, Positioned.predecessor?_eq_some,
    Positioned.successor?_eq_some]
  omega

/-- Below another value there is room for a step up. -/
theorem exists_successor?_of_lt (h : a < b) : ∃ c, successor? a = some c := by
  have hlt := lt_iff.mp h
  obtain ⟨c, hc⟩ := exists_position_eq (a := a) (b := b) (n := position a + 1) (by omega) (by omega)
  exact ⟨c, Positioned.successor?_eq_some.mpr hc⟩

/-- Above another value there is room for a step down. -/
theorem exists_predecessor?_of_lt (h : b < a) : ∃ c, predecessor? a = some c := by
  have hlt := lt_iff.mp h
  obtain ⟨c, hc⟩ := exists_position_eq (a := b) (b := a) (n := position a - 1) (by omega) (by omega)
  exact ⟨c, Positioned.predecessor?_eq_some.mpr hc⟩

/-! ## Steps that are refused -/

/-- One of two values in order is less than the other, unless they are the same. -/
theorem lt_of_le_of_ne (hle : a ≤ b) (hne : a ≠ b) : a < b := by
  have hposition : position a ≠ position b := fun h => hne (position_injective h)
  rw [le_iff] at hle
  rw [lt_iff]
  omega

/-- and only the greatest value has no successor, -/
theorem successor?_eq_none_iff (hgreatest : ∀ a : α, a ≤ greatest) :
    successor? a = none ↔ a = greatest := by
  constructor
  · -- below the greatest there is a next value
    intro hnone
    by_contra hne
    obtain ⟨b, hb⟩ := exists_successor?_of_lt (lt_of_le_of_ne (hgreatest a) hne)
    rw [hnone] at hb
    cases hb
  · rintro rfl
    refine Option.eq_none_iff_forall_ne_some.mpr fun b hb => ?_
    have hle := le_iff.mp (hgreatest b)
    rw [Positioned.successor?_eq_some] at hb
    omega

/-- only the least no predecessor. -/
theorem predecessor?_eq_none_iff (hleast : ∀ a : α, least ≤ a) :
    predecessor? a = none ↔ a = least := by
  constructor
  · intro hnone
    by_contra hne
    obtain ⟨b, hb⟩ := exists_predecessor?_of_lt (lt_of_le_of_ne (hleast a) (Ne.symm hne))
    rw [hnone] at hb
    cases hb
  · rintro rfl
    refine Option.eq_none_iff_forall_ne_some.mpr fun b hb => ?_
    have hle := le_iff.mp (hleast b)
    rw [Positioned.predecessor?_eq_some] at hb
    omega

/-! ## Types -/

/-- Together these are what stepping through a type with bounds means. -/
theorem stepsThrough_of_bounds (hbounds : ∀ a : α, least ≤ a ∧ a ≤ greatest) :
    StepsThrough least greatest where
  bounds := hbounds
  inverse a b := successor?_eq_some_iff_adjacent.trans predecessor?_eq_some_iff_adjacent.symm
  adjacent a b := successor?_eq_some_iff_adjacent
  successor?_eq_none_iff a := successor?_eq_none_iff fun b => (hbounds b).2
  predecessor?_eq_none_iff a := predecessor?_eq_none_iff fun b => (hbounds b).1
  exists_neighbours a hleast hgreatest := by
    obtain ⟨b, hb⟩ := exists_predecessor?_of_lt (lt_of_le_of_ne (hbounds a).1 hleast.symm)
    obtain ⟨c, hc⟩ := exists_successor?_of_lt (lt_of_le_of_ne (hbounds a).2 hgreatest)
    exact ⟨b, c, hb, hc⟩

/-- Steps up and down are inverse and lead to immediate neighbours, in each of the ordinal types and
from one of its ends to the other. -/
theorem stepsThrough : StepsThrough Int8.minValue Int8.maxValue ∧
    StepsThrough Int16.minValue Int16.maxValue ∧ StepsThrough Int32.minValue Int32.maxValue ∧
    StepsThrough Int64.minValue Int64.maxValue ∧ StepsThrough '\x00' (Char.ofNat 0x10ffff) := by
  refine ⟨stepsThrough_of_bounds fun a => ?_, stepsThrough_of_bounds fun a => ?_,
    stepsThrough_of_bounds fun a => ?_, stepsThrough_of_bounds fun a => ?_,
    stepsThrough_of_bounds fun a => ?_⟩
  · exact ⟨Int8.le_iff_toInt_le.mpr a.minValue_le_toInt, Int8.le_iff_toInt_le.mpr a.toInt_le⟩
  · exact ⟨Int16.le_iff_toInt_le.mpr a.minValue_le_toInt, Int16.le_iff_toInt_le.mpr a.toInt_le⟩
  · exact ⟨Int32.le_iff_toInt_le.mpr a.minValue_le_toInt, Int32.le_iff_toInt_le.mpr a.toInt_le⟩
  · exact ⟨Int64.le_iff_toInt_le.mpr a.minValue_le_toInt, Int64.le_iff_toInt_le.mpr a.toInt_le⟩
  · exact ⟨Nat.zero_le a.toNat, Measure.le_greatest_char a⟩

-- the gap is stepped over from either side
example : successor? lastBelowSurrogates = some firstAboveSurrogates ∧
    predecessor? firstAboveSurrogates = some lastBelowSurrogates := by decide

end ArrayBridge.Ordinal
