import ArrayBridge.Binary.Layout

/-!
# Decimal text of binary numbers

A number is written with the fewest decimal digits that read back to it, chosen by exact
arithmetic: the reals that round to a magnitude form an interval, which is compared with points
of ever finer decimal grids. `Number.text` then lays the digits out.
-/

namespace ArrayBridge.Binary

-- powers here are the plain powers of natural numbers, whatever else is in scope
attribute [local instance (high)] instPowNat

/-- A positive decimal, `d.ddd × 10 ^ place`, without trailing zeros in `digits`. -/
structure Decimal where
  digits : List Char
  /-- The power of ten that the first digit counts. -/
  place : Int
deriving DecidableEq, Repr

namespace Decimal

/-- The decimal `n × 10 ^ k`. -/
def ofScaled (n : Nat) (k : Int) : Decimal :=
  let digits := Nat.toDigits 10 n
  ⟨(digits.reverse.dropWhile (· == '0')).reverse, k + (digits.length - 1 : Nat)⟩

/-- The digits with a point after `n` of them, filled with zeros; at least one digit follows. -/
def withPoint (digits : List Char) (n : Nat) : List Char :=
  let whole := digits.take n ++ List.replicate (n - digits.length) '0'
  let rest := digits.drop n
  whole ++ '.' :: (if rest.isEmpty then ['0'] else rest)

/-- From `10 ^ -4` up to `10 ^ 16` a decimal is written with a point in its place, otherwise with
its first digit before the point and an exponent. -/
def text (d : Decimal) : List Char :=
  if d.place < -4 ∨ 16 ≤ d.place then
    let mantissa := if d.digits.length ≤ 1 then d.digits else withPoint d.digits 1
    mantissa ++ 'e' :: (toString d.place).toList
  else if d.place < 0 then
    '0' :: '.' :: List.replicate (d.place.natAbs - 1) '0' ++ d.digits
  else withPoint d.digits (d.place.toNat + 1)

end Decimal

namespace Layout

/-- The reals that round to a finite magnitude, in quarters of a grid step: from `low` to `high`,
with both ends if `closed`. -/
structure Interval where
  low : Nat
  value : Nat
  high : Nat
  closed : Bool
deriving Repr

/-- Half-way to the neighbour below and half-way to the neighbour above. Just above a power of
two the neighbour below is half as far away; the ends round to an even significand. -/
def interval (l : Layout) (code : Nat) : Interval :=
  let weight := 2 ^ l.lastPlace code
  let value := 4 * l.magnitude code
  -- the least normal magnitudes are spaced like those below them
  let narrow := l.significand code = 2 ^ l.fraction ∧ 2 * 2 ^ l.fraction ≤ code
  { low := value - (if narrow then weight else 2 * weight)
    value
    high := value + 2 * weight
    closed := l.significand code % 2 == 0 }

namespace Interval

/-- Whether `n × 10 ^ k` lies in the interval. -/
def contains (i : Interval) (n : Nat) (k : Int) : Bool :=
  let point := n * (4 * unit * 10 ^ k.toNat)
  let low := i.low * 10 ^ (-k).toNat
  let high := i.high * 10 ^ (-k).toNat
  if i.closed then low ≤ point && point ≤ high else low < point && point < high

/-- The better of the value's two neighbours among the multiples of `10 ^ k`: one inside the
interval, of two the nearer, of two equally near the larger. -/
def nearestPoint? (i : Interval) (k : Int) : Option Decimal :=
  let value := i.value * 10 ^ (-k).toNat
  let step := 4 * unit * 10 ^ k.toNat
  let below := value / step
  -- the value lies half a step above its lower neighbour, or higher
  let preferAbove := (2 * below + 1) * step ≤ 2 * value
  match i.contains below k, i.contains (below + 1) k with
  | true, above => some (.ofScaled (if above && preferAbove then below + 1 else below) k)
  | false, true => some (.ofScaled (below + 1) k)
  | false, false => none

/-- A number of decimal places past which no positive magnitude begins. -/
def leastPlace : Nat := 400

/-- The power of ten that the first digit of the value counts. -/
def leadingPlace (i : Interval) : Int :=
  (Nat.toDigits 10 (i.value * 10 ^ leastPlace / (4 * unit))).length - (leastPlace + 1)

/-- The decimal of fewest digits in the interval; seventeen digits always suffice. -/
def shortest (i : Interval) : Decimal :=
  ((List.range 17).findSome? fun (n : Nat) => i.nearestPoint? (i.leadingPlace - n)).getD
    (.ofScaled (i.value * 5 ^ gridPlaces / 4) (-gridPlaces))

end Interval

/-- The shortest decimal that reads back to the magnitude with the given code. -/
def shortest (l : Layout) (code : Nat) : Decimal := (l.interval code).shortest

end Layout

namespace Number

variable {l : Layout}

/-- The text of a number: its shortest decimal after a sign. -/
def text : Number l → List Char
  | .notANumber .. => "NaN".toList
  | .magnitude negative code =>
    let digits :=
      if code = l.infinity then "inf".toList
      else if code.val = 0 then "0.0".toList
      else (l.shortest code).text
    if negative then '-' :: digits else digits

/-- Whether the number is neither a NaN nor an infinity. -/
def isFinite : Number l → Bool
  | .notANumber .. => false
  | .magnitude _ code => code != l.infinity

end Number

end ArrayBridge.Binary
