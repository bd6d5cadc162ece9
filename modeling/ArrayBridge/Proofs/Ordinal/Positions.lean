import ArrayBridge.Ordinal.Basic
import Mathlib.Logic.Function.Basic

/-!
# Positions of ordinal values

The values of an ordinal type stand at whole numbers, in their order and without a gap. An integer
stands at its own value. Characters are counted, so those above the surrogates move down and close
the gap.

Main results:

* `step_eq_some`, `step_down_eq_some` — a step that is refused at the end of a range of integers.
* `FixedWidth.positioned` — what a step does at each type of signed integers.
* the instances of `Positioned` — what a step does at each type.
-/

namespace ArrayBridge

/-- The values of an ordinal type stand at whole numbers, and the neighbours of each value at the
numbers next to it. -/
class Positioned (α : Type) [Ordinal α] [LE α] [LT α] where
  /-- The position of a value. -/
  position : α → Int
  position_injective : Function.Injective position
  le_iff {a b : α} : a ≤ b ↔ position a ≤ position b
  lt_iff {a b : α} : a < b ↔ position a < position b
  successor?_eq_some {a b : α} : Ordinal.successor? a = some b ↔ position b = position a + 1
  predecessor?_eq_some {a b : α} : Ordinal.predecessor? a = some b ↔ position b = position a - 1
  /-- No number between two positions is left out. -/
  exists_position_eq {a b : α} {n : Int} (ha : position a ≤ n) (hb : n ≤ position b) :
    ∃ c, position c = n

namespace Positioned

/-! ## Integers -/

section

variable {α : Type} [DecidableEq α] {position : α → Int} {a b : α}

/-- A step up that is refused at the greatest value. -/
theorem step_eq_some (next : α → α) (hinjective : Function.Injective position) {greatest : α}
    (hgreatest : ∀ a, position a ≤ position greatest)
    (hnext : ∀ a, position a < position greatest → position (next a) = position a + 1) :
    (if a = greatest then none else some (next a)) = some b ↔ position b = position a + 1 := by
  have hb := hgreatest b
  by_cases h : a = greatest
  · subst h
    simp only [if_true, reduceCtorEq, false_iff]
    omega
  · -- below the greatest the step is the one that machine arithmetic makes
    have hne : position a ≠ position greatest := fun heq => h (hinjective heq)
    have hnext := hnext a (Int.lt_iff_le_and_ne.mpr ⟨hgreatest a, hne⟩)
    rw [if_neg h, Option.some.injEq, ← hinjective.eq_iff, hnext, eq_comm]

/-- A step down that is refused at the least value. -/
theorem step_down_eq_some (previous : α → α) (hinjective : Function.Injective position) {least : α}
    (hleast : ∀ a, position least ≤ position a)
    (hprevious : ∀ a, position least < position a → position (previous a) = position a - 1) :
    (if a = least then none else some (previous a)) = some b ↔ position b = position a - 1 := by
  have hb := hleast b
  by_cases h : a = least
  · subst h
    simp only [if_true, reduceCtorEq, false_iff]
    omega
  · have hne : position least ≠ position a := fun heq => h (hinjective heq).symm
    have hprevious := hprevious a (Int.lt_iff_le_and_ne.mpr ⟨hleast a, hne⟩)
    rw [if_neg h, Option.some.injEq, ← hinjective.eq_iff, hprevious, eq_comm]

end

/-- The signed integers of a fixed width: they lie from `-half` to just below `half`, where
arithmetic wraps around, and a step is refused at either end. -/
structure FixedWidth (α : Type) [DecidableEq α] [Ordinal α] [LE α] [LT α] where
  half : Nat
  greatest : α
  least : α
  next : α → α
  previous : α → α
  toInt : α → Int
  ofInt : Int → α
  toInt_injective : Function.Injective toInt
  le_iff {a b : α} : a ≤ b ↔ toInt a ≤ toInt b
  lt_iff {a b : α} : a < b ↔ toInt a < toInt b
  toInt_bounds (a : α) : -half ≤ toInt a ∧ toInt a < half
  toInt_greatest : toInt greatest = half - 1
  toInt_least : toInt least = -half
  toInt_next (a : α) : toInt (next a) = (toInt a + 1).bmod (2 * half)
  toInt_previous (a : α) : toInt (previous a) = (toInt a - 1).bmod (2 * half)
  toInt_ofInt (n : Int) : toInt (ofInt n) = n.bmod (2 * half)
  successor?_eq (a : α) :
    Ordinal.successor? a = if a = greatest then none else some (next a)
  predecessor?_eq (a : α) :
    Ordinal.predecessor? a = if a = least then none else some (previous a)

/-- An integer stands at its own value. A step that is not refused does not wrap around. -/
@[reducible]
def FixedWidth.positioned {α : Type} [DecidableEq α] [Ordinal α] [LE α] [LT α] (w : FixedWidth α) :
    Positioned α where
  position := w.toInt
  position_injective := w.toInt_injective
  le_iff := w.le_iff
  lt_iff := w.lt_iff
  successor?_eq_some {a b} := by
    have hgreatest := w.toInt_greatest
    rw [w.successor?_eq]
    refine step_eq_some w.next w.toInt_injective (fun a => ?_) fun a ha => ?_
    · have hbounds := w.toInt_bounds a
      omega
    · have hbounds := w.toInt_bounds a
      rw [w.toInt_next, Int.bmod_eq_of_le] <;> omega
  predecessor?_eq_some {a b} := by
    have hleast := w.toInt_least
    rw [w.predecessor?_eq]
    refine step_down_eq_some w.previous w.toInt_injective (fun a => ?_) fun a ha => ?_
    · have hbounds := w.toInt_bounds a
      omega
    · have hbounds := w.toInt_bounds a
      rw [w.toInt_previous, Int.bmod_eq_of_le] <;> omega
  exists_position_eq {a b n} ha hb := by
    have hlow := w.toInt_bounds a
    have hhigh := w.toInt_bounds b
    refine ⟨w.ofInt n, ?_⟩
    rw [w.toInt_ofInt, Int.bmod_eq_of_le] <;> omega

instance : Positioned Int8 := FixedWidth.positioned {
  half := 0x80
  greatest := .maxValue
  least := .minValue
  next := (· + 1)
  previous := (· - 1)
  toInt := Int8.toInt
  ofInt := Int8.ofInt
  toInt_injective := fun _ _ => Int8.toInt_inj.mp
  le_iff := Int8.le_iff_toInt_le
  lt_iff := Int8.lt_iff_toInt_lt
  toInt_bounds := fun a => ⟨a.le_toInt, a.toInt_lt⟩
  toInt_greatest := Int8.toInt_maxValue
  toInt_least := Int8.toInt_minValue
  toInt_next := fun a => Int8.toInt_add a 1
  toInt_previous := fun a => Int8.toInt_sub a 1
  toInt_ofInt := fun _ => Int8.toInt_ofInt
  successor?_eq := fun _ => rfl
  predecessor?_eq := fun _ => rfl }

instance : Positioned Int16 := FixedWidth.positioned {
  half := 0x8000
  greatest := .maxValue
  least := .minValue
  next := (· + 1)
  previous := (· - 1)
  toInt := Int16.toInt
  ofInt := Int16.ofInt
  toInt_injective := fun _ _ => Int16.toInt_inj.mp
  le_iff := Int16.le_iff_toInt_le
  lt_iff := Int16.lt_iff_toInt_lt
  toInt_bounds := fun a => ⟨a.le_toInt, a.toInt_lt⟩
  toInt_greatest := Int16.toInt_maxValue
  toInt_least := Int16.toInt_minValue
  toInt_next := fun a => Int16.toInt_add a 1
  toInt_previous := fun a => Int16.toInt_sub a 1
  toInt_ofInt := fun _ => Int16.toInt_ofInt
  successor?_eq := fun _ => rfl
  predecessor?_eq := fun _ => rfl }

instance : Positioned Int32 := FixedWidth.positioned {
  half := 0x80000000
  greatest := .maxValue
  least := .minValue
  next := (· + 1)
  previous := (· - 1)
  toInt := Int32.toInt
  ofInt := Int32.ofInt
  toInt_injective := fun _ _ => Int32.toInt_inj.mp
  le_iff := Int32.le_iff_toInt_le
  lt_iff := Int32.lt_iff_toInt_lt
  toInt_bounds := fun a => ⟨a.le_toInt, a.toInt_lt⟩
  toInt_greatest := Int32.toInt_maxValue
  toInt_least := Int32.toInt_minValue
  toInt_next := fun a => Int32.toInt_add a 1
  toInt_previous := fun a => Int32.toInt_sub a 1
  toInt_ofInt := fun _ => Int32.toInt_ofInt
  successor?_eq := fun _ => rfl
  predecessor?_eq := fun _ => rfl }

instance : Positioned Int64 := FixedWidth.positioned {
  half := 0x8000000000000000
  greatest := .maxValue
  least := .minValue
  next := (· + 1)
  previous := (· - 1)
  toInt := Int64.toInt
  ofInt := Int64.ofInt
  toInt_injective := fun _ _ => Int64.toInt_inj.mp
  le_iff := Int64.le_iff_toInt_le
  lt_iff := Int64.lt_iff_toInt_lt
  toInt_bounds := fun a => ⟨a.le_toInt, a.toInt_lt⟩
  toInt_greatest := Int64.toInt_maxValue
  toInt_least := Int64.toInt_minValue
  toInt_next := fun a => Int64.toInt_add a 1
  toInt_previous := fun a => Int64.toInt_sub a 1
  toInt_ofInt := fun _ => Int64.toInt_ofInt
  successor?_eq := fun _ => rfl
  predecessor?_eq := fun _ => rfl }

/-! ## Characters -/

open ArrayBridge.Ordinal (charOfCode? lastBelowSurrogates firstAboveSurrogates)

/-- The number of characters below a character. -/
def charPosition (c : Char) : Nat := if c.toNat < 0xd800 then c.toNat else c.toNat - 0x800

/-- A character lies below the surrogates or above them. -/
theorem charPosition_cases (c : Char) :
    (c.toNat < 0xd800 ∧ charPosition c = c.toNat) ∨
      (0xe000 ≤ c.toNat ∧ c.toNat < 0x110000 ∧ charPosition c + 0x800 = c.toNat) := by
  unfold charPosition
  rcases c.valid with h | h
  · have hlow : c.toNat < 0xd800 := h
    exact .inl ⟨hlow, if_pos hlow⟩
  · -- above the surrogates, positions are closed up by as many codes as these take
    have hhigh : 0xdfff < c.toNat ∧ c.toNat < 0x110000 := h
    right
    rw [if_neg (by omega)]
    omega

/-- Characters are told apart by their positions. -/
theorem charPosition_injective : Function.Injective charPosition := by
  intro c d h
  have hc := charPosition_cases c
  have hd := charPosition_cases d
  exact Char.toNat_inj.mp (by omega)

theorem toNat_ofNatAux {n : Nat} (h : n.isValidChar) : (Char.ofNatAux n h).toNat = n := rfl

/-- A code is that of one character at most, and of none between the surrogates. -/
theorem charOfCode?_eq_some {n : Nat} {c : Char} : charOfCode? n = some c ↔ c.toNat = n := by
  by_cases hvalid : n.isValidChar
  · have hchar : charOfCode? n = some (.ofNatAux n hvalid) := dif_pos hvalid
    rw [hchar, Option.some.injEq, ← Char.toNat_inj, toNat_ofNatAux, eq_comm]
  · have hnone : charOfCode? n = none := dif_neg hvalid
    rw [hnone]
    refine iff_of_false (Option.some_ne_none c).symm ?_
    rintro rfl
    exact hvalid c.valid

theorem eq_iff_toNat_eq {c d : Char} : c = d ↔ c.toNat = d.toNat := Char.toNat_inj.symm

theorem toNat_lastBelowSurrogates : lastBelowSurrogates.toNat = 0xd7ff := by decide

theorem toNat_firstAboveSurrogates : firstAboveSurrogates.toNat = 0xe000 := by decide

/-- The successor of a character is the one at the next position, also across the gap. -/
theorem successor?_char_eq_some {c d : Char} :
    Ordinal.successor? c = some d ↔ charPosition d = charPosition c + 1 := by
  have hc := charPosition_cases c
  have hd := charPosition_cases d
  show (if c = lastBelowSurrogates then some firstAboveSurrogates else charOfCode? (c.toNat + 1)) =
    some d ↔ _
  -- past the last character below the surrogates the codes jump, and the positions do not
  split
  · rename_i hlast
    rw [eq_iff_toNat_eq, toNat_lastBelowSurrogates] at hlast
    rw [Option.some.injEq, eq_iff_toNat_eq, toNat_firstAboveSurrogates]
    omega
  · rename_i hlast
    rw [eq_iff_toNat_eq, toNat_lastBelowSurrogates] at hlast
    rw [charOfCode?_eq_some]
    omega

/-- The predecessor is the one at the position before, also across the gap. -/
theorem predecessor?_char_eq_some {c d : Char} :
    Ordinal.predecessor? c = some d ↔ charPosition d + 1 = charPosition c := by
  have hc := charPosition_cases c
  have hd := charPosition_cases d
  show (if c = firstAboveSurrogates then some lastBelowSurrogates
    else if c.toNat = 0 then none else charOfCode? (c.toNat - 1)) = some d ↔ _
  -- At the gap the codes are apart but the positions adjacent; elsewhere both go down by one.
  split
  · rename_i hfirst
    rw [eq_iff_toNat_eq, toNat_firstAboveSurrogates] at hfirst
    rw [Option.some.injEq, eq_iff_toNat_eq, toNat_lastBelowSurrogates]
    omega
  · rename_i hfirst
    rw [eq_iff_toNat_eq, toNat_firstAboveSurrogates] at hfirst
    split
    · simp only [reduceCtorEq, false_iff]
      omega
    · rw [charOfCode?_eq_some]
      omega

/-- Every position up to the last is that of a character. -/
theorem exists_charPosition_eq {n : Nat} (h : n < 0x10f800) : ∃ c, charPosition c = n := by
  by_cases hlow : n < 0xd800
  · refine ⟨.ofNatAux n (.inl hlow), ?_⟩
    rw [charPosition, toNat_ofNatAux, if_pos hlow]
  · refine ⟨.ofNatAux (n + 0x800) (.inr ⟨by omega, by omega⟩), ?_⟩
    rw [charPosition, toNat_ofNatAux, if_neg (by omega), Nat.add_sub_cancel]

/-- Codes and positions are in one order. -/
theorem charPosition_le_iff {c d : Char} : charPosition c ≤ charPosition d ↔ c.toNat ≤ d.toNat := by
  have hc := charPosition_cases c
  have hd := charPosition_cases d
  omega

instance : Positioned Char where
  position c := charPosition c
  position_injective _ _ h := charPosition_injective (Int.ofNat.inj h)
  le_iff {c d} := by
    rw [Int.ofNat_le, charPosition_le_iff]
    rfl
  lt_iff {c d} := by
    rw [Int.ofNat_lt, ← Nat.not_le, charPosition_le_iff, Nat.not_le]
    rfl
  successor?_eq_some {c d} := by
    rw [successor?_char_eq_some]
    omega
  predecessor?_eq_some {c d} := by
    rw [predecessor?_char_eq_some]
    omega
  exists_position_eq {c d n} hc hd := by
    have hbound := charPosition_cases d
    obtain ⟨e, he⟩ := exists_charPosition_eq (n := n.toNat) (by omega)
    exact ⟨e, by omega⟩

end Positioned

end ArrayBridge
