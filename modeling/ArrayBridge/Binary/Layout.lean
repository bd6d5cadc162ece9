/-!
# Binary floating-point numbers

A `Layout` is a binary interchange format: a sign, a biased exponent and a fraction. Its
magnitudes are numbered by their codes (the bits without the sign), in increasing order. Every
finite magnitude of both layouts is a whole number of steps of one grid, so exact values are
natural numbers and conversions are exact arithmetic on them.

* `Layout.magnitude` is the value of a code in grid steps, `Layout.nearest` the code of the
  nearest magnitude, ties going to the even code and too large values to infinity.
* `Number l` is a number of layout `l`: one for each pattern of its bits, so that NaNs keep their
  sign and their fraction.
* `Number.convert` rounds a number of one layout to another.
-/

namespace ArrayBridge.Binary

-- powers here are the plain powers of natural numbers, whatever else is in scope
attribute [local instance (high)] instPowNat

/-- Divides by `2 ^ s`, rounding to the nearest whole number and a half to the even one. -/
def roundShift (v s : Nat) : Nat :=
  let quotient := v / 2 ^ s
  let twice := 2 * (v % 2 ^ s)
  if 2 ^ s < twice ∨ (twice = 2 ^ s ∧ quotient % 2 = 1) then quotient + 1 else quotient

@[simp] theorem roundShift_zero (v : Nat) : roundShift v 0 = v := by
  simp [roundShift, Nat.mod_one]

/-- A binary interchange format. -/
structure Layout where
  /-- Number of stored fraction bits. -/
  fraction : Nat
  /-- Number of exponent bits. -/
  exponent : Nat
  /-- The least step of the format is `2 ^ base` steps of the common grid. -/
  base : Nat
  /-- The first fraction bit tells quiet NaNs from signalling ones. -/
  fraction_pos : 0 < fraction
deriving DecidableEq, Repr

/-- The 32-bit format. -/
def Layout.single : Layout := ⟨23, 8, 925, by decide⟩

/-- The 64-bit format, whose least step is the step of the common grid. -/
def Layout.double : Layout := ⟨52, 11, 0, by decide⟩

/-- The binary places of the common grid: its step is `2 ^ -1074`. -/
def gridPlaces : Nat := 1074

/-- The number of grid steps that make one. -/
def unit : Nat := 2 ^ gridPlaces

namespace Layout

/-- The code of infinity, which is also the number of finite magnitudes. -/
def infinity (l : Layout) : Nat := (2 ^ l.exponent - 1) * 2 ^ l.fraction

/-- The weight of the sign bit. -/
def signWeight (l : Layout) : Nat := 2 ^ (l.exponent + l.fraction)

/-- The integer significand of the magnitude with the given code. -/
def significand (l : Layout) (code : Nat) : Nat :=
  if code < 2 ^ l.fraction then code else 2 ^ l.fraction + code % 2 ^ l.fraction

/-- The binary logarithm of the weight, in grid steps, of the last place of a code. -/
def lastPlace (l : Layout) (code : Nat) : Nat :=
  l.base + (code / 2 ^ l.fraction - 1)

/-- The finite magnitude with the given code, in grid steps. -/
def magnitude (l : Layout) (code : Nat) : Nat :=
  l.significand code * 2 ^ l.lastPlace code

/-- The code of the magnitude nearest to a number of grid steps. -/
def nearest (l : Layout) (v : Nat) : Nat :=
  -- the last place that a significand of full length leaves, but no finer than the least step
  let shift := max l.base (v.log2 - l.fraction)
  min l.infinity (roundShift v shift + (shift - l.base) * 2 ^ l.fraction)

theorem nearest_le_infinity (l : Layout) (v : Nat) : l.nearest v ≤ l.infinity :=
  Nat.min_le_left ..

/-- The codes past infinity, which are those of NaNs, fill the place below the sign. -/
theorem infinity_add (l : Layout) : l.infinity + 2 ^ l.fraction = l.signWeight := by
  have hpos : 0 < 2 ^ l.exponent := Nat.two_pow_pos _
  rw [infinity, signWeight, Nat.pow_add, ← Nat.succ_mul, Nat.succ_eq_add_one,
    Nat.sub_add_cancel hpos]

/-- The fraction of a quiet NaN, given its bits behind the first. A fraction of zero would be that
of infinity, so fractions are counted from one. -/
def quietFraction (l : Layout) (bits : Nat) : Fin (2 ^ l.fraction - 1) :=
  ⟨2 ^ (l.fraction - 1) + bits % 2 ^ (l.fraction - 1) - 1, by
    have hhalf : 0 < 2 ^ (l.fraction - 1) := Nat.two_pow_pos _
    have hbits : bits % 2 ^ (l.fraction - 1) < 2 ^ (l.fraction - 1) := Nat.mod_lt _ hhalf
    have htwice : 2 ^ l.fraction = 2 ^ (l.fraction - 1) * 2 := by
      rw [← Nat.pow_succ, Nat.succ_eq_add_one, Nat.sub_add_cancel l.fraction_pos]
    omega⟩

end Layout

/-- A number of layout `l`. The code of a magnitude does not exceed that of infinity, and the code
of a NaN exceeds it by the fraction, which is not zero and is counted from one. -/
inductive Number (l : Layout) where
  | notANumber (negative : Bool) (fraction : Fin (2 ^ l.fraction - 1))
  | magnitude (negative : Bool) (code : Fin (l.infinity + 1))
deriving DecidableEq, Repr

/-- A 32-bit number. -/
abbrev Single := Number .single

/-- A 64-bit number. -/
abbrev Double := Number .double

namespace Number

variable {l : Layout}

/-- Positive zero. -/
def zero : Number l := .magnitude false 0

/-- The quiet NaN without a sign whose other fraction bits are zero. -/
def nan : Number l := .notANumber false (l.quietFraction 0)

instance : Inhabited (Number l) := ⟨zero⟩

/-- Whether a number is a NaN. -/
def isNaN : Number l → Bool
  | .notANumber .. => true
  | .magnitude .. => false

/-- The number in which a NaN has become the one without a sign and a fraction of its own. -/
def plain (x : Number l) : Number l := if x.isNaN then nan else x

/-- The number with the given bits. Every pattern above infinity is a NaN. -/
def ofBits (l : Layout) (bits : Nat) : Number l :=
  let negative := bits / l.signWeight % 2 == 1
  let code := bits % l.signWeight
  if h : code ≤ l.infinity then .magnitude negative ⟨code, Nat.lt_succ_of_le h⟩
  else .notANumber negative ⟨code - (l.infinity + 1), by
    have hcode : code < l.signWeight := Nat.mod_lt _ (Nat.two_pow_pos _)
    have hsum := l.infinity_add
    omega⟩

/-- The bits of a number without the sign. -/
def code : Number l → Nat
  | .notANumber _ fraction => l.infinity + 1 + fraction
  | .magnitude _ code => code

/-- Whether the sign bit of a number is set. -/
def isNegative : Number l → Bool
  | .notANumber negative _ => negative
  | .magnitude negative _ => negative

/-- The bits of a number. -/
def toBits (x : Number l) : Nat := (if x.isNegative then l.signWeight else 0) + x.code

/-- Rounds a number to layout `m`. The sign is kept, and an infinity stays one. A NaN keeps as many
leading bits of its fraction as there is room for, and becomes a quiet one. -/
def convert (m : Layout) : Number l → Number m
  | .notANumber negative fraction =>
    .notANumber negative (m.quietFraction ((fraction + 1) * 2 ^ m.fraction / 2 ^ l.fraction))
  | .magnitude negative code =>
    if code = l.infinity then .magnitude negative (Fin.last m.infinity)
    else .magnitude negative
      ⟨m.nearest (l.magnitude code), Nat.lt_succ_of_le (m.nearest_le_infinity _)⟩

end Number

/-- The 64-bit number of the same value. -/
def Number.widen (x : Single) : Double := x.convert .double

/-- The nearest 32-bit number. -/
def Number.narrow (x : Double) : Single := x.convert .single

end ArrayBridge.Binary
