import ArrayBridge.Ordinal.Basic

/-!
# Ranges

Values of an ordinal type in a row, handed out one at a time. A value is taken before the one
after it is computed, so a step that overflows has used up the value it started from.

* `Span` runs from one value to another, in either direction.
* `Measure` counts a number of values upwards.
-/

namespace ArrayBridge

variable {α : Type} [Ordinal α]

/-- The values up to `last`, with the next of them if any is left. -/
structure Span (α : Type) where
  pending : Option α
  last : α
  increasing : Bool
deriving DecidableEq, Repr

namespace Span

/-- The values from `first` to `last`, both included. -/
def between [LE α] [DecidableLE α] (first last : α) : Span α := ⟨some first, last, first ≤ last⟩

/-- The next value, if any is left, and the rest. Nothing past `last` is computed. -/
def next [DecidableEq α] (s : Span α) : Except Overflow (Option α) × Span α :=
  match s.pending with
  | none => (.ok none, s)
  | some current =>
    let rest := { s with pending := none }
    if current = s.last then (.ok (some current), rest)
    else
      match if s.increasing then Ordinal.successor current else Ordinal.predecessor current with
      | .ok following => (.ok (some current), { s with pending := some following })
      | .error overflow => (.error overflow, rest)

/-- Bounds on the number of values left: nothing is promised. -/
def sizeHint (_ : Span α) : Nat × Option Nat := (0, none)

end Span

/-- A number of values still to come, with the next of them. -/
structure Measure (α : Type) where
  pending : Option α
  remaining : Nat
deriving DecidableEq, Repr

namespace Measure

/-- The given number of values from `first` on. -/
def counting (first : α) (count : Nat) : Measure α := ⟨some first, count⟩

/-- The next value, if any is left, and the rest. Nothing past the last value is computed. -/
def next (m : Measure α) : Except Overflow (Option α) × Measure α :=
  match m.remaining, m.pending with
  | 0, _ | _, none => (.ok none, m)
  | n + 1, some current =>
    -- the count goes down even if the step that follows overflows
    if n = 0 then (.ok (some current), ⟨none, 0⟩)
    else
      match Ordinal.successor current with
      | .ok following => (.ok (some current), ⟨some following, n⟩)
      | .error overflow => (.error overflow, ⟨none, n⟩)

/-- Bounds on the number of values left: as many as remain. -/
def sizeHint (m : Measure α) : Nat × Option Nat := (m.remaining, some m.remaining)

end Measure

end ArrayBridge
