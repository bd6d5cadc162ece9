import ArrayBridge.Binary.Decimal
import ArrayBridge.Proofs.Binary.Rounding
import Mathlib.Data.Nat.Find
import Mathlib.Data.Rat.Cast.Order
import Mathlib.Tactic.FieldSimp
import Mathlib.Tactic.Linarith
import Mathlib.Tactic.Positivity
import Mathlib.Tactic.Ring

/-!
# Decimals of binary numbers

A decimal is read as the magnitude nearest to it, of two the one with the even code. The decimal
that a magnitude is written with lies between the middles to the neighbours of the magnitude, so it
is read back as that magnitude.

Main results:

* `Layout.low_interval`, `Layout.high_interval` — the interval that decimals are looked for in ends
  at the middles.
* `Layout.exists_shortest` — the decimal that is found lies in the interval.
* `Layout.round_shortest` — a magnitude is read back from its decimal.
-/

namespace ArrayBridge.Binary

-- powers here are the plain powers of natural numbers, whatever else is in scope
attribute [local instance (high)] instPowNat

theorem unit_pos : 0 < unit := Nat.two_pow_pos _

namespace Layout

/-! ## Rounding -/

variable (l : Layout) (q : ℚ)

/-- The middle of a magnitude and the next one. -/
def middle (code : Nat) : ℚ :=
  ((l.magnitude code + l.magnitude (code + 1) : Nat) : ℚ) / (2 * unit : Nat)

/-- Whether a number is nearer to the magnitudes past a code than to those up to it. In the middle
the even code counts as nearer. -/
def Passes (code : Nat) : Prop := l.middle code < q ∨ l.middle code = q ∧ code % 2 = 1

instance (code : Nat) : Decidable (l.Passes q code) := inferInstanceAs (Decidable (_ ∨ _))

theorem exists_not_passes : ∃ code, l.infinity ≤ code ∨ ¬ l.Passes q code :=
  ⟨l.infinity, .inl le_rfl⟩

/-- The code of the magnitude that a number is rounded to, that of infinity if the number is too
large. -/
def round : Nat := Nat.find (l.exists_not_passes q)

theorem round_le_infinity : l.round q ≤ l.infinity :=
  Nat.find_min' (l.exists_not_passes q) (.inl le_rfl)

variable {l q}

/-- A rational number is rounded to the first magnitude whose middle it does not pass. -/
theorem round_eq {code : Nat} (hcode : code ≤ l.infinity) (hbelow : ∀ c < code, l.Passes q c)
    (hnot : ¬ l.Passes q code) : l.round q = code := by
  rw [round, Nat.find_eq_iff]
  refine ⟨.inr hnot, fun c hc => not_or.mpr ⟨?_, not_not.mpr (hbelow c hc)⟩⟩
  omega

/-- Middles are in order. -/
theorem middle_lt_middle {code code' : Nat} (h : code < code') :
    l.middle code < l.middle code' := by
  have hsum : l.magnitude code + l.magnitude (code + 1) <
      l.magnitude code' + l.magnitude (code' + 1) :=
    Nat.add_lt_add (magnitude_lt_of_lt h) (magnitude_lt_of_lt (Nat.succ_lt_succ h))
  exact div_lt_div_of_pos_right (Nat.cast_lt.mpr hsum)
    (Nat.cast_pos.mpr (Nat.mul_pos two_pos unit_pos))

/-! ## Intervals -/

theorem lastPlace_join {q n : Nat} (h : l.Parts q n) : l.lastPlace (l.join q n) = l.base + n := by
  by_cases hlo : 2 ^ l.fraction ≤ q
  · rw [lastPlace, (div_join hlo h.lt).1, Nat.add_sub_cancel]
  · obtain rfl : n = 0 := h.full.resolve_left hlo
    rw [lastPlace, join, Nat.zero_mul, Nat.add_zero, Nat.div_eq_of_lt (Nat.not_le.mp hlo)]

theorem significand_join {q n : Nat} (h : l.Parts q n) : l.significand (l.join q n) = q := by
  by_cases hlo : 2 ^ l.fraction ≤ q
  · have hge : ¬ l.join q n < 2 ^ l.fraction := by
      rw [join]
      omega
    rw [significand, if_neg hge, (div_join hlo h.lt).2]
    omega
  · obtain rfl : n = 0 := h.full.resolve_left hlo
    rw [join, Nat.zero_mul, Nat.add_zero, significand, if_pos (Nat.not_le.mp hlo)]

/-- The next magnitude is a last place away. -/
theorem magnitude_add_one (code : Nat) :
    l.magnitude (code + 1) = l.magnitude code + 2 ^ l.lastPlace code := by
  obtain ⟨q, n, hparts, rfl⟩ := exists_parts (l := l) code
  rw [magnitude_succ hparts, magnitude_join hparts, lastPlace_join hparts, Nat.succ_mul]

/-- Just above a power of two, and there only, the magnitude below is half as far away. -/
theorem lastPlace_add_one (code : Nat) :
    l.lastPlace (code + 1) =
      if l.significand (code + 1) = 2 ^ l.fraction ∧ 2 * 2 ^ l.fraction ≤ code + 1 then
        l.lastPlace code + 1
      else l.lastPlace code := by
  obtain ⟨q, n, hparts, rfl⟩ := exists_parts (l := l) code
  rcases hparts.succ_cases with ⟨hnext, hjoin⟩ | ⟨hq, hnext, hjoin⟩
  · rw [hjoin, lastPlace_join hnext, significand_join hnext, lastPlace_join hparts, if_neg]
    -- a significand that reaches its full length is no further doubling
    rintro ⟨hq, hcode⟩
    have hn : n = 0 := hparts.full.resolve_left (by omega)
    rw [hn, join, Nat.zero_mul] at hcode
    omega
  · rw [hjoin, lastPlace_join hnext, significand_join hnext, lastPlace_join hparts, if_pos]
    · rfl
    · have hsucc := Nat.add_mul n 1 (2 ^ l.fraction)
      refine ⟨rfl, ?_⟩
      unfold join
      omega

/-- The interval of a magnitude ends at the middles to its neighbours. -/
theorem low_interval (code : Nat) :
    (l.interval (code + 1)).low = 2 * (l.magnitude code + l.magnitude (code + 1)) := by
  have hnext := magnitude_add_one (l := l) code
  have hplace := lastPlace_add_one (l := l) code
  rw [hnext]
  show 4 * l.magnitude (code + 1) - (if l.significand (code + 1) = 2 ^ l.fraction ∧
    2 * 2 ^ l.fraction ≤ code + 1 then 2 ^ l.lastPlace (code + 1)
    else 2 * 2 ^ l.lastPlace (code + 1)) = _
  rw [hplace, hnext]
  -- below a power of two the numbers are twice as close, so the middle is nearer
  split
  · rw [Nat.pow_succ]
    omega
  · omega

theorem high_interval (code : Nat) :
    (l.interval code).high = 2 * (l.magnitude code + l.magnitude (code + 1)) := by
  rw [magnitude_add_one]
  show 4 * l.magnitude code + 2 * 2 ^ l.lastPlace code = _
  omega

/-! ### Numbers in an interval -/

/-- Whether a number lies in an interval. -/
def Interval.Holds (i : Interval) (q : ℚ) : Prop :=
  if i.closed then (i.low : ℚ) ≤ 4 * unit * q ∧ 4 * unit * q ≤ i.high
  else (i.low : ℚ) < 4 * unit * q ∧ 4 * unit * q < i.high

/-- In quarters of a unit a middle is a whole number. -/
theorem middle_mul (code : Nat) :
    4 * unit * l.middle code = ((2 * (l.magnitude code + l.magnitude (code + 1)) : Nat) : ℚ) := by
  have hunit : (unit : ℚ) ≠ 0 := Nat.cast_ne_zero.mpr (Nat.ne_of_gt unit_pos)
  rw [middle, Nat.cast_mul, Nat.cast_mul]
  field_simp
  push_cast
  ring

theorem mul_unit_lt_mul_unit {x y : ℚ} : 4 * unit * x < 4 * unit * y ↔ x < y := by
  have hunit : (0 : ℚ) < 4 * unit := mul_pos (by norm_num) (Nat.cast_pos.mpr unit_pos)
  exact mul_lt_mul_iff_right₀ hunit

theorem mul_unit_le_mul_unit {x y : ℚ} : 4 * unit * x ≤ 4 * unit * y ↔ x ≤ y := by
  have hunit : (0 : ℚ) < 4 * unit := mul_pos (by norm_num) (Nat.cast_pos.mpr unit_pos)
  exact mul_le_mul_iff_right₀ hunit

/-- A significand is even exactly when its code is, which decides ties. -/
theorem significand_mod_two (code : Nat) : l.significand code % 2 = code % 2 := by
  obtain ⟨q, n, hparts, rfl⟩ := exists_parts (l := l) code
  rw [significand_join hparts, join_mod_two]

/-- A number in the interval of a magnitude lies between the middles to its neighbours, and in a
middle only if the code is even. -/
theorem holds_interval {code : Nat} {q : ℚ} (h : (l.interval (code + 1)).Holds q) :
    l.middle code ≤ q ∧ q ≤ l.middle (code + 1) ∧
      ((l.middle code = q ∨ l.middle (code + 1) = q) → (code + 1) % 2 = 0) := by
  have hclosed : (l.interval (code + 1)).closed = ((code + 1) % 2 == 0) := by
    show (l.significand (code + 1) % 2 == 0) = _
    rw [significand_mod_two]
  rw [Interval.Holds, hclosed, low_interval, high_interval, ← middle_mul, ← middle_mul] at h
  simp only [beq_iff_eq, mul_unit_lt_mul_unit, mul_unit_le_mul_unit] at h
  split at h
  · rename_i heven
    exact ⟨h.1, h.2, fun _ => heven⟩
  · refine ⟨h.1.le, h.2.le, ?_⟩
    rintro (heq | heq)
    · exact absurd heq h.1.ne
    · exact absurd heq h.2.ne'

/-- A number in the interval of a magnitude is rounded to it. -/
theorem round_of_holds {code : Nat} (hcode : code < l.infinity) {q : ℚ}
    (h : (l.interval (code + 1)).Holds q) : l.round q = code + 1 := by
  obtain ⟨hlo, hhi, heven⟩ := holds_interval h
  refine round_eq hcode (fun c hc => ?_) ?_
  -- the middle below is passed, if only as a tie that goes to an even code, and so are all before
  · rcases Nat.eq_or_lt_of_le (Nat.le_of_lt_succ hc) with rfl | hlt
    · rcases hlo.lt_or_eq with hlt | heq
      · exact .inl hlt
      · exact .inr ⟨heq, by have := heven (.inl heq); omega⟩
    · exact .inl ((middle_lt_middle hlt).trans_le hlo)
  · rintro (hlt | ⟨heq, hodd⟩)
    · exact absurd hlt (not_lt.mpr hhi)
    · have := heven (.inr heq)
      omega

/-! ## Decimals -/

theorem cast_ten_pow (n : Nat) : ((10 ^ n : Nat) : ℚ) = (10 : ℚ) ^ n := Nat.cast_pow 10 n

/-- A power of ten, by the powers that make its numerator and its denominator. -/
theorem ten_zpow (k : ℤ) : (10 : ℚ) ^ k = (10 ^ k.toNat : Nat) / (10 ^ (-k).toNat : Nat) := by
  rw [cast_ten_pow, cast_ten_pow, ← zpow_natCast, ← zpow_natCast, ← zpow_sub₀ (by norm_num)]
  congr 1
  omega

namespace Interval

variable (i : Interval) (n : Nat) (k : ℤ)

/-- A decimal in quarters of a grid step, as a fraction. -/
theorem mul_unit_decimal : 4 * unit * ((n : ℚ) * 10 ^ k) =
    ((n * (4 * unit * 10 ^ k.toNat) : Nat) : ℚ) / (10 ^ (-k).toNat : Nat) := by
  rw [ten_zpow, Nat.cast_mul n, Nat.cast_mul (4 * unit), Nat.cast_mul 4]
  ring

/-- The test of an interval on whole numbers is that on rational ones. -/
theorem contains_iff : i.contains n k = true ↔ i.Holds (n * 10 ^ k) := by
  have hpos : (0 : ℚ) < (10 ^ (-k).toNat : Nat) := Nat.cast_pos.mpr (Nat.pow_pos (by decide))
  rw [Holds, mul_unit_decimal, le_div_iff₀ hpos, div_le_iff₀ hpos, lt_div_iff₀ hpos,
    div_lt_iff₀ hpos]
  simp only [← Nat.cast_mul, Nat.cast_le, Nat.cast_lt]
  rw [contains]
  split <;> simp only [Bool.and_eq_true, decide_eq_true_eq]

/-- The point that is found is one in the interval. -/
theorem exists_nearestPoint {d : Decimal} (h : i.nearestPoint? k = some d) :
    ∃ n : Nat, d = .ofScaled n k ∧ i.Holds (n * 10 ^ k) := by
  simp only [← contains_iff]
  rw [nearestPoint?] at h
  split at h
  · rename_i hbelow
    injection h with h
    split at h
    · rename_i habove
      exact ⟨_, h.symm, (Bool.and_eq_true_iff.mp habove).1⟩
    · exact ⟨_, h.symm, hbelow⟩
  · rename_i habove
    injection h with h
    exact ⟨_, h.symm, habove⟩
  · cases h

end Interval

/-- A magnitude lies in its interval. -/
theorem holds_magnitude (code : Nat) :
    (l.interval (code + 1)).Holds (l.magnitude (code + 1) / unit) := by
  have hunit : (unit : ℚ) ≠ 0 := Nat.cast_ne_zero.mpr (Nat.ne_of_gt unit_pos)
  have hvalue : 4 * (unit : ℚ) * (l.magnitude (code + 1) / unit) =
      (4 * l.magnitude (code + 1) : Nat) := by
    rw [Nat.cast_mul]
    field_simp
    push_cast
    ring
  -- in quarters of a unit, the ends lie halfway to the neighbours
  have hlow : (l.interval (code + 1)).low < 4 * l.magnitude (code + 1) := by
    have hlt := magnitude_lt_succ (l := l) code
    rw [low_interval]
    omega
  have hhigh : 4 * l.magnitude (code + 1) < (l.interval (code + 1)).high := by
    have hlt := magnitude_lt_succ (l := l) (code + 1)
    rw [high_interval]
    omega
  rw [Interval.Holds, hvalue]
  simp only [Nat.cast_lt, Nat.cast_le]
  split
  · exact ⟨hlow.le, hhigh.le⟩
  · exact ⟨hlow, hhigh⟩

/-- The decimal that a magnitude is written with lies in its interval. -/
theorem exists_shortest (code : Nat) :
    ∃ (n : Nat) (k : ℤ), l.shortest (code + 1) = .ofScaled n k ∧
      (l.interval (code + 1)).Holds (n * 10 ^ k) := by
  rw [shortest, Interval.shortest]
  cases hfound : (List.range 17).findSome? fun (n : Nat) =>
      (l.interval (code + 1)).nearestPoint? ((l.interval (code + 1)).leadingPlace - n) with
  | some d =>
    obtain ⟨n, -, hd⟩ := List.exists_of_findSome?_eq_some hfound
    obtain ⟨m, rfl, hholds⟩ := Interval.exists_nearestPoint _ _ hd
    exact ⟨m, _, rfl, hholds⟩
  | none =>
    -- the magnitude itself is a decimal
    refine ⟨_, _, rfl, ?_⟩
    have hexact : (((l.interval (code + 1)).value * 5 ^ gridPlaces / 4 : Nat) : ℚ) *
        10 ^ (-(gridPlaces : ℤ)) = l.magnitude (code + 1) / unit := by
      have hdiv : (l.interval (code + 1)).value * 5 ^ gridPlaces / 4 =
          l.magnitude (code + 1) * 5 ^ gridPlaces := by
        show 4 * l.magnitude (code + 1) * 5 ^ gridPlaces / 4 = _
        rw [Nat.mul_assoc, Nat.mul_div_cancel_left _ (by decide)]
      have hten : (10 : ℚ) ^ gridPlaces = 2 ^ gridPlaces * 5 ^ gridPlaces := by
        rw [← mul_pow]
        norm_num
      have hunit : (unit : ℚ) = 2 ^ gridPlaces := Nat.cast_pow 2 gridPlaces
      have hfive : ((5 ^ gridPlaces : Nat) : ℚ) = 5 ^ gridPlaces := Nat.cast_pow 5 gridPlaces
      rw [hdiv, Nat.cast_mul, hfive, zpow_neg, zpow_natCast, hten, hunit]
      field_simp
    rw [hexact]
    exact holds_magnitude code

end Layout

/-! ## Values of decimals -/

namespace Decimal

/-- The value of a decimal. -/
def value (d : Decimal) : ℚ :=
  (Nat.ofDigitChars 10 d.digits 0 : ℚ) * 10 ^ (d.place + 1 - d.digits.length)

/-- Digits without the zeros at their end. -/
theorem exists_zeros (ds : List Char) :
    ∃ z, ds = (ds.reverse.dropWhile (· == '0')).reverse ++ List.replicate z '0' := by
  refine ⟨(ds.reverse.takeWhile (· == '0')).length, ?_⟩
  have hzeros : ds.reverse.takeWhile (· == '0') =
      List.replicate (ds.reverse.takeWhile (· == '0')).length '0' :=
    List.eq_replicate_of_mem fun c hc => by simpa using List.all_eq_true.mp List.all_takeWhile c hc
  have hsplit := congrArg List.reverse
    (List.takeWhile_append_dropWhile (p := (· == '0')) (l := ds.reverse))
  rw [List.reverse_append, List.reverse_reverse] at hsplit
  rw [← List.reverse_replicate, ← hzeros, hsplit]

/-- Zeros at the end add to the power of ten. -/
theorem value_ofScaled (n : Nat) (k : ℤ) : (ofScaled n k).value = n * 10 ^ k := by
  obtain ⟨z, hzeros⟩ := exists_zeros (Nat.toDigits 10 n)
  have hpos : 0 < (Nat.toDigits 10 n).length := Nat.length_toDigits_pos
  show (Nat.ofDigitChars 10 ((Nat.toDigits 10 n).reverse.dropWhile (· == '0')).reverse 0 : ℚ) *
    10 ^ (k + ((Nat.toDigits 10 n).length - 1 : Nat) + 1 -
      ((Nat.toDigits 10 n).reverse.dropWhile (· == '0')).reverse.length) = _
  have hvalue := Nat.ofDigitChars_ten_toDigits (n := n)
  have hlength := congrArg List.length hzeros
  rw [List.length_append, List.length_replicate] at hlength
  -- `ds` are the digits without the zeros at the end, which count as powers of ten
  generalize ((Nat.toDigits 10 n).reverse.dropWhile (· == '0')).reverse = ds at *
  rw [hzeros, Nat.ofDigitChars_append, Nat.ofDigitChars_replicate_zero] at hvalue
  have hplace : k + ((Nat.toDigits 10 n).length - 1 : Nat) + 1 - ds.length = k + z := by omega
  rw [hplace, ← hvalue, zpow_add₀ (by norm_num), zpow_natCast]
  push_cast
  ring

end Decimal

namespace Layout

variable {l : Layout}

/-- The magnitude that a decimal is read as. One that is too large for any is refused, and so is one
that is too small without being zero. -/
def read? (l : Layout) (q : ℚ) : Option (Fin (l.infinity + 1)) :=
  if l.round q = l.infinity ∨ l.round q = 0 ∧ q ≠ 0 then none
  else some ⟨l.round q, Nat.lt_succ_of_le (l.round_le_infinity q)⟩

/-- The digits of the decimal that a magnitude is written with. -/
theorem digits_shortest {code : Nat} (hpos : 0 < code) :
    (l.shortest code).digits ≠ [] ∧ ∀ c ∈ (l.shortest code).digits, c.isDigit = true := by
  obtain ⟨code, rfl⟩ := Nat.exists_eq_add_one_of_ne_zero (Nat.ne_of_gt hpos)
  obtain ⟨n, k, hshortest, hholds⟩ := exists_shortest (l := l) code
  constructor
  · intro hnil
    -- no interval of a positive magnitude reaches down to zero
    have hzero : (n : ℚ) * 10 ^ k = 0 := by
      rw [← Decimal.value_ofScaled, ← hshortest, Decimal.value, hnil, Nat.ofDigitChars_nil]
      simp
    have hlow : 0 < (l.interval (code + 1)).low := by
      have hlt := magnitude_lt_succ (l := l) code
      rw [low_interval]
      omega
    rw [hzero, Interval.Holds, mul_zero] at hholds
    split at hholds
    · exact absurd hholds.1 (not_le.mpr (Nat.cast_pos.mpr hlow))
    · exact absurd hholds.1 (not_lt.mpr (Nat.cast_nonneg _))
  · rw [hshortest]
    intro c hc
    refine Nat.isDigit_of_mem_toDigits (by decide) (by decide) (n := n) (b := 10) ?_
    exact List.mem_reverse.mp ((List.dropWhile_sublist _).subset (List.mem_reverse.mp hc))

theorem round_zero : l.round 0 = 0 := by
  refine round_eq (Nat.zero_le _) nofun ?_
  have hmiddle : 0 < l.middle 0 := by
    have hlt := magnitude_lt_succ (l := l) 0
    exact div_pos (Nat.cast_pos.mpr (by omega))
      (Nat.cast_pos.mpr (Nat.mul_pos two_pos unit_pos))
  rintro (hlt | ⟨heq, -⟩)
  · exact absurd hlt (not_lt.mpr hmiddle.le)
  · exact absurd heq hmiddle.ne'

/-- A magnitude is read back from the decimal that it is written with. -/
theorem round_shortest {code : Nat} (hpos : 0 < code) (hcode : code < l.infinity) :
    l.round (l.shortest code).value = code := by
  obtain ⟨code, rfl⟩ := Nat.exists_eq_add_one_of_ne_zero (Nat.ne_of_gt hpos)
  obtain ⟨n, k, hshortest, hholds⟩ := exists_shortest (l := l) code
  rw [hshortest, Decimal.value_ofScaled]
  exact round_of_holds (Nat.lt_of_succ_lt hcode) hholds

/-- The shortest decimal of a magnitude is read back as it. -/
theorem read?_shortest {code : Fin (l.infinity + 1)} (hpos : 0 < code.val)
    (hcode : code.val < l.infinity) : l.read? (l.shortest code).value = some code := by
  have hround := round_shortest hpos hcode
  rw [read?, if_neg]
  · exact congrArg some (Fin.ext hround)
  · omega

theorem read?_zero (hinfinity : 0 < l.infinity) : l.read? 0 = some 0 := by
  rw [read?, if_neg]
  · exact congrArg some (Fin.ext round_zero)
  · rw [round_zero]
    simp [Nat.ne_of_lt hinfinity]

end Layout

end ArrayBridge.Binary
