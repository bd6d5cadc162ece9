import ArrayBridge.Ordinal.Range
import ArrayBridge.Proofs.Ordinal.Positions
import Mathlib.Data.List.Chain

/-!
# Spans

A span hands out the values between its two ends. Each step goes to the position next to the one
before, towards the last value and never past it, so the distance of the two positions counts the
steps that are left.

Main results:

* `Span.next_last`, `Span.exists_next` — a call that hands out the last value, and one that goes on.
* `Span.exists_isRow_answer` — the answers of a span that has a value left.
* `Span.enumerates` — a span lists the values between its ends, at each of the ordinal types.
-/

namespace ArrayBridge

/-- What an iterator answers to its calls, from the first one on. -/
def answer {σ β : Type} (next : σ → β × σ) (s : σ) : Nat → β
  | 0 => (next s).1
  | n + 1 => answer next (next s).2 n

section

variable {α : Type} [Ordinal α] [LE α] [LT α]

/-! ## Rows of values -/

/-- Two values that follow one another directly. -/
structure Adjacent (a b : α) : Prop where
  lt : a < b
  not_between (c : α) : ¬ (a < c ∧ c < b)

/-- A value lies between two others, in the direction that leads from the first to the last. -/
def Between (increasing : Bool) (first last a : α) : Prop :=
  if increasing then first ≤ a ∧ a ≤ last else last ≤ a ∧ a ≤ first

/-- The values from one to another, each followed by its immediate neighbour in the direction of
the last one. -/
structure IsRow (increasing : Bool) (first last : α) (values : List α) : Prop where
  head? : values.head? = some first
  getLast? : values.getLast? = some last
  mem_iff (a : α) : a ∈ values ↔ Between increasing first last a
  nodup : values.Nodup
  adjacent : values.IsChain fun a b => if increasing then Adjacent a b else Adjacent b a

variable [Positioned α] {a b first last : α} {increasing : Bool}

open Positioned

/-- Values at neighbouring positions have none between them. -/
theorem adjacent_of_position_eq (h : position b = position a + 1) : Adjacent a b := by
  constructor
  · rw [lt_iff]
    omega
  · rintro c ⟨hac, hcb⟩
    rw [lt_iff] at hac hcb
    omega

/-- Whether the last value lies ahead in the direction of a row. -/
def Ahead (increasing : Bool) (a last : α) : Prop :=
  if increasing then position a ≤ position last else position last ≤ position a

/-- Order is that of positions, in both directions. -/
theorem between_iff : Between increasing first last a ↔
    if increasing then position first ≤ position a ∧ position a ≤ position last
    else position last ≤ position a ∧ position a ≤ position first := by
  unfold Between
  simp only [le_iff]

/-- A row from a value to itself has that value only. -/
theorem isRow_singleton : IsRow increasing last last [last] := by
  refine ⟨rfl, rfl, fun a => ?_, List.pairwise_singleton _ _, List.isChain_singleton last⟩
  have hinjective := position_injective (α := α)
  rw [List.mem_singleton, between_iff, ← hinjective.eq_iff]
  cases increasing
  all_goals
    simp only [if_true, Bool.false_eq_true, if_false]
    omega

/-- The position that a step in the direction of a row leads to. -/
def towards (increasing : Bool) (a : α) : Int :=
  if increasing then position a + 1 else position a - 1

/-- A row is continued at its beginning. -/
theorem IsRow.cons {values : List α} (hrow : IsRow increasing b last values)
    (hstep : position b = towards increasing a) (hahead : Ahead increasing b last) :
    IsRow increasing a last (a :: values) := by
  obtain ⟨rest, rfl⟩ : ∃ rest, values = b :: rest := by
    cases values with
    | nil => cases hrow.head?
    | cons c rest => exact ⟨rest, by rw [Option.some.inj hrow.head?]⟩
  -- in terms of positions, a step leaves nothing out between the two values
  have hmem : ∀ c, c ∈ a :: b :: rest ↔ Between increasing a last c := by
    intro c
    have hinjective := position_injective (α := α)
    rw [List.mem_cons, hrow.mem_iff, between_iff, between_iff, ← hinjective.eq_iff]
    unfold towards at hstep
    unfold Ahead at hahead
    cases increasing
    all_goals
      simp only [if_true, Bool.false_eq_true, if_false] at hstep hahead ⊢
      omega
  refine ⟨rfl, ?_, hmem, ?_, List.isChain_cons_cons.mpr ⟨?_, hrow.adjacent⟩⟩
  · rw [List.getLast?_cons_cons]
    exact hrow.getLast?
  · -- the values that follow lie on the other side of the step
    refine List.nodup_cons.mpr ⟨fun ha => ?_, hrow.nodup⟩
    rw [hrow.mem_iff, between_iff] at ha
    unfold towards at hstep
    cases increasing
    all_goals
      simp only [if_true, Bool.false_eq_true, if_false] at hstep ha
      omega
  · unfold towards at hstep
    cases increasing
    · exact adjacent_of_position_eq (by simp only [Bool.false_eq_true, if_false] at hstep; omega)
    · exact adjacent_of_position_eq hstep

end

namespace Span

open ArrayBridge.Ordinal (firstAboveSurrogates lastBelowSurrogates)

variable {α : Type} [Ordinal α] [DecidableEq α]

/-! ## Calls -/

/-- A span without a value left answers nothing, and stays as it is. -/
theorem answer_none (last : α) (increasing : Bool) (i : Nat) :
    answer next ⟨none, last, increasing⟩ i = .ok none := by
  induction i with
  | zero => rfl
  | succ i ih => exact ih

/-- The last value is handed out without a step. -/
theorem next_last (last : α) (increasing : Bool) :
    next ⟨some last, last, increasing⟩ = (.ok (some last), ⟨none, last, increasing⟩) := by
  simp [next]

variable [LE α] [LT α] [Positioned α] {a last : α} {increasing : Bool}

open Positioned

/-- Short of the last value a step goes through, and does not lead past it. -/
theorem exists_next (hne : a ≠ last) (hahead : Ahead increasing a last) :
    ∃ b, next ⟨some a, last, increasing⟩ = (.ok (some a), ⟨some b, last, increasing⟩) ∧
      position b = towards increasing a ∧ Ahead increasing b last := by
  have hposition : position a ≠ position last := fun h => hne (position_injective h)
  unfold Ahead at *
  -- every position between two values is that of a value, so there is a next one
  cases increasing with
  | true =>
    simp only [if_true] at *
    obtain ⟨b, hb⟩ := exists_position_eq (a := a) (b := last) (n := position a + 1)
      (by omega) (by omega)
    refine ⟨b, ?_, hb, by omega⟩
    simp [next, hne, Ordinal.successor, successor?_eq_some.mpr hb]
  | false =>
    simp only [Bool.false_eq_true, if_false] at *
    obtain ⟨b, hb⟩ := exists_position_eq (a := last) (b := a) (n := position a - 1)
      (by omega) (by omega)
    refine ⟨b, ?_, hb, by omega⟩
    simp [next, hne, Ordinal.predecessor, predecessor?_eq_some.mpr hb]

/-- A span that has a value left answers the row from there to its last value, and then nothing. -/
theorem exists_isRow_answer (hahead : Ahead increasing a last) :
    ∃ values, IsRow increasing a last values ∧
      ∀ i, answer next ⟨some a, last, increasing⟩ i = .ok values[i]? := by
  -- each step brings the two positions nearer by one
  generalize hdistance : (position last - position a).natAbs = distance
  induction distance generalizing a with
  | zero =>
    obtain rfl : a = last := position_injective (by omega)
    refine ⟨[a], isRow_singleton, fun i => ?_⟩
    cases i with
    | zero => rw [answer, next_last]; rfl
    | succ i => rw [answer, next_last]; exact answer_none a increasing i
  | succ distance ih =>
    have hne : a ≠ last := by
      rintro rfl
      omega
    obtain ⟨b, hnext, hstep, hahead'⟩ := exists_next hne hahead
    have hnearer : (position last - position b).natAbs = distance := by
      unfold Ahead at hahead'
      unfold towards at hstep
      cases increasing
      all_goals
        simp only [if_true, Bool.false_eq_true, if_false] at hstep hahead'
        omega
    obtain ⟨values, hrow, hanswer⟩ := ih hahead' hnearer
    refine ⟨a :: values, hrow.cons hstep hahead', fun i => ?_⟩
    cases i with
    | zero => rw [answer, hnext]; rfl
    | succ i => rw [answer, hnext]; exact hanswer i

/-! ## Ranges -/

/-- Spans of a type list exactly the values between their ends, and then answer nothing. -/
def Enumerates (α : Type) [Ordinal α] [DecidableEq α] [LE α] [LT α] [DecidableLE α] : Prop :=
  ∀ first last : α, ∃ values, IsRow (decide (first ≤ last)) first last values ∧
    ∀ i, answer next (between first last) i = .ok values[i]?

/-- Spans enumerate, over every type with positions. -/
theorem enumerates_of_positioned [DecidableLE α] : Enumerates α := by
  intro first last
  refine exists_isRow_answer ?_
  unfold Ahead
  by_cases h : first ≤ last
  · rw [if_pos (decide_eq_true h)]
    exact le_iff.mp h
  · rw [if_neg (by simpa using h)]
    rw [le_iff] at h
    omega

/-- A span lists the values between its ends, at each of the ordinal types. -/
theorem enumerates : Enumerates Int8 ∧ Enumerates Int16 ∧ Enumerates Int32 ∧ Enumerates Int64 ∧
    Enumerates Char :=
  ⟨enumerates_of_positioned, enumerates_of_positioned, enumerates_of_positioned,
    enumerates_of_positioned, enumerates_of_positioned⟩

-- downwards across the surrogates, which are left out
example : (List.range 4).map (answer next (between firstAboveSurrogates '\ud7fe')) =
    [.ok firstAboveSurrogates, .ok lastBelowSurrogates, .ok '\ud7fe', .ok none] := by decide

end Span

end ArrayBridge
