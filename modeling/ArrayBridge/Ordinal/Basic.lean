import ArrayBridge.Text.Quoted

/-!
# Ordinal types

Types whose values follow one another: the signed integers of fixed width, and the characters,
which step over the surrogates.
-/

namespace ArrayBridge

/-- A type whose values follow one another. -/
class Ordinal (α : Type) where
  /-- The next value; the greatest has none. -/
  successor? : α → Option α
  /-- The previous value; the least has none. -/
  predecessor? : α → Option α
  /-- The text of a value. -/
  text : α → String

/-- A step past the end of an ordinal type, from the value with the given text. -/
inductive Overflow where
  | noSuccessor (value : String)
  | noPredecessor (value : String)
deriving DecidableEq, Repr

/-- The text of an overflow. -/
def Overflow.message : Overflow → String
  | noSuccessor value => s!"overflow: {value} has no successor"
  | noPredecessor value => s!"overflow: {value} has no predecessor"

namespace Ordinal

variable {α : Type} [Ordinal α]

/-- The next value. -/
def successor (a : α) : Except Overflow α :=
  match successor? a with
  | some b => .ok b
  | none => .error (.noSuccessor (text a))

/-- The previous value. -/
def predecessor (a : α) : Except Overflow α :=
  match predecessor? a with
  | some b => .ok b
  | none => .error (.noPredecessor (text a))

instance : Ordinal Int8 where
  successor? n := if n = Int8.maxValue then none else some (n + 1)
  predecessor? n := if n = Int8.minValue then none else some (n - 1)
  text n := toString n.toInt

instance : Ordinal Int16 where
  successor? n := if n = Int16.maxValue then none else some (n + 1)
  predecessor? n := if n = Int16.minValue then none else some (n - 1)
  text n := toString n.toInt

instance : Ordinal Int32 where
  successor? n := if n = Int32.maxValue then none else some (n + 1)
  predecessor? n := if n = Int32.minValue then none else some (n - 1)
  text n := toString n.toInt

instance : Ordinal Int64 where
  successor? n := if n = Int64.maxValue then none else some (n + 1)
  predecessor? n := if n = Int64.minValue then none else some (n - 1)
  text n := toString n.toInt

/-- The character with the given code, if the code is one of a character. -/
def charOfCode? (n : Nat) : Option Char :=
  if h : n.isValidChar then some (Char.ofNatAux n h) else none

/-- The last character below the surrogates. -/
def lastBelowSurrogates : Char := '\ud7ff'

/-- The first character above the surrogates. -/
def firstAboveSurrogates : Char := '\ue000'

instance : Ordinal Char where
  successor? c :=
    if c = lastBelowSurrogates then some firstAboveSurrogates else charOfCode? (c.toNat + 1)
  predecessor? c :=
    if c = firstAboveSurrogates then some lastBelowSurrogates
    -- subtraction would stay at zero
    else if c.toNat = 0 then none
    else charOfCode? (c.toNat - 1)
  text c := String.ofList (Text.quotedChar c)

end Ordinal

end ArrayBridge
