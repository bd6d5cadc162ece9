import ArrayBridge.Proofs.Binary.Conversion

/-!
# Rounding to the nearest magnitude

A value lies between two neighbouring magnitudes of a layout, a multiple of the last place and the
next one. Magnitudes grow with their codes, so no other code comes nearer than these two, and the
remainder of the value decides between them. Infinity takes part as the magnitude that would come
next, which is where values past the largest finite one are divided.

Main results:

* `Layout.magnitude_lt_of_lt` — magnitudes grow with their codes.
* `Layout.isNearest_nearest` — no magnitude is nearer to a value than the one it is rounded to, and
  of two equally near ones the even code is taken.
* `Number.roundsTo_convert` — a number is converted to the nearest one of the other layout.
-/

namespace ArrayBridge.Binary

-- powers here are the plain powers of natural numbers, whatever else is in scope
attribute [local instance (high)] instPowNat

/-- The distance between two magnitudes. -/
def gap (x y : Nat) : Nat := (x - y) + (y - x)

namespace Layout

variable {l : Layout}

/-! ## The order of magnitudes -/

/-- The code after one with parts has one more in the significand, which may overflow into one more
doubling. -/
theorem Parts.succ_cases {q n : Nat} (h : l.Parts q n) :
    (l.Parts (q + 1) n ∧ l.join q n + 1 = l.join (q + 1) n) ∨
      (q + 1 = 2 * 2 ^ l.fraction ∧ l.Parts (2 ^ l.fraction) (n + 1) ∧
        l.join q n + 1 = l.join (2 ^ l.fraction) (n + 1)) := by
  have hpow : 2 ^ (l.fraction + 1) = 2 * 2 ^ l.fraction := Nat.pow_succ'
  by_cases hlt : q + 1 < 2 ^ (l.fraction + 1)
  · refine .inl ⟨⟨h.full.imp_left fun hfull => by omega, hlt⟩, ?_⟩
    unfold join
    omega
  · -- the significand is the greatest of its size, so the next number has the next exponent
    have hq : q + 1 = 2 * 2 ^ l.fraction := by
      have hq := h.lt
      omega
    have hpos : 0 < 2 ^ l.fraction := Nat.two_pow_pos l.fraction
    refine .inr ⟨hq, ⟨.inl (Nat.le_refl _), by omega⟩, ?_⟩
    unfold join
    rw [Nat.succ_mul]
    omega

/-- The code after one with parts counts one more of the same last place. -/
theorem magnitude_succ {q n : Nat} (h : l.Parts q n) :
    l.magnitude (l.join q n + 1) = (q + 1) * 2 ^ (l.base + n) := by
  rcases h.succ_cases with ⟨hparts, hjoin⟩ | ⟨hq, hparts, hjoin⟩
  · rw [hjoin, magnitude_join hparts]
  · rw [hjoin, magnitude_join hparts, hq, ← Nat.add_assoc, Nat.pow_succ', ← Nat.mul_assoc,
      Nat.mul_comm (2 ^ l.fraction) 2]

theorem magnitude_lt_succ (code : Nat) : l.magnitude code < l.magnitude (code + 1) := by
  obtain ⟨q, n, hparts, rfl⟩ := exists_parts (l := l) code
  rw [magnitude_join hparts, magnitude_succ hparts]
  exact Nat.mul_lt_mul_of_pos_right (Nat.lt_succ_self q) (Nat.two_pow_pos _)

/-- Magnitudes grow with their codes. -/
theorem magnitude_lt_of_lt {code code' : Nat} (h : code < code') :
    l.magnitude code < l.magnitude code' := by
  induction h with
  | refl => exact magnitude_lt_succ code
  | step _ ih => exact Nat.lt_trans ih (magnitude_lt_succ _)

/-- A code is one of two neighbouring ones, or its magnitude lies beyond theirs. -/
theorem magnitude_cases (code c : Nat) :
    (c < code ∧ l.magnitude c < l.magnitude code) ∨ c = code ∨ c = code + 1 ∨
      (code + 1 < c ∧ l.magnitude (code + 1) < l.magnitude c) := by
  rcases Nat.lt_trichotomy c code with hlt | rfl | hgt
  · exact .inl ⟨hlt, magnitude_lt_of_lt hlt⟩
  · exact .inr (.inl rfl)
  · rcases Nat.eq_or_lt_of_le hgt with rfl | hgt
    · exact .inr (.inr (.inl rfl))
    · exact .inr (.inr (.inr ⟨hgt, magnitude_lt_of_lt hgt⟩))

/-! ## The nearest magnitude -/

/-- A code is that of the magnitude nearest to a value, the even one of two that are equally near.
Infinity counts as the magnitude that would come after the finite ones. -/
structure IsNearest (l : Layout) (v code : Nat) : Prop where
  le_infinity : code ≤ l.infinity
  le_gap : ∀ c ≤ l.infinity, gap (l.magnitude code) v ≤ gap (l.magnitude c) v
  even : ∀ c ≤ l.infinity, c ≠ code → gap (l.magnitude c) v = gap (l.magnitude code) v →
    code % 2 = 0

/-- The last place that is left to a value. -/
def lastShift (l : Layout) (v : Nat) : Nat := max l.base (v.log2 - l.fraction)

/-- What is left of a value past that place has the length of a significand. -/
theorem parts_lastShift (v : Nat) :
    l.Parts (v / 2 ^ l.lastShift v) (l.lastShift v - l.base) := by
  constructor
  case full =>
    by_cases hbase : l.lastShift v = l.base
    · exact .inr (by omega)
    · -- then the leading digit of the value is the leading digit of the significand
      have hshift : l.lastShift v = v.log2 - l.fraction ∧ l.fraction < v.log2 := by
        unfold lastShift at hbase ⊢
        omega
      have hv : v ≠ 0 := by
        rintro rfl
        rw [Nat.log2_zero] at hshift
        omega
      left
      rw [Nat.le_div_iff_mul_le (Nat.two_pow_pos _), ← Nat.pow_add]
      have hsum : l.fraction + l.lastShift v = v.log2 := by omega
      rw [hsum]
      exact Nat.log2_self_le hv
  case lt =>
    rw [Nat.div_lt_iff_lt_mul (Nat.two_pow_pos _), ← Nat.pow_add]
    have hle : v.log2 + 1 ≤ l.fraction + 1 + l.lastShift v := by
      unfold lastShift
      omega
    exact Nat.lt_of_lt_of_le Nat.lt_log2_self (Nat.pow_le_pow_right (by omega) hle)

/-- A value lies between a magnitude and the next one, and is rounded to the one that the remainder
decides for. -/
theorem exists_neighbours (v : Nat) : ∃ q n r place,
    r < place ∧ v = l.magnitude (l.join q n) + r ∧
      l.magnitude (l.join q n + 1) = l.magnitude (l.join q n) + place ∧
      l.nearest v = min l.infinity
        (if place < 2 * r ∨ (2 * r = place ∧ q % 2 = 1) then l.join q n + 1 else l.join q n) := by
  have hparts := parts_lastShift (l := l) v
  -- The bits of `v` that do not fit into a significand are the remainder, and the place of the last
  -- bit that does is the distance to the next number.
  have hbase : l.base + (l.lastShift v - l.base) = l.lastShift v := by
    unfold lastShift
    omega
  refine ⟨v / 2 ^ l.lastShift v, l.lastShift v - l.base, v % 2 ^ l.lastShift v, 2 ^ l.lastShift v,
    Nat.mod_lt _ (Nat.two_pow_pos _), ?_, ?_, ?_⟩
  · rw [magnitude_join hparts, hbase, Nat.mul_comm]
    exact (Nat.div_add_mod v _).symm
  · rw [magnitude_succ hparts, magnitude_join hparts, hbase, Nat.succ_mul]
  · show min l.infinity (roundShift v (l.lastShift v) + (l.lastShift v - l.base) * _) = _
    congr 1
    unfold roundShift join
    dsimp only
    split <;> omega

/-- The code of a significand of full length is as even as the significand. -/
theorem join_mod_two (q n : Nat) : l.join q n % 2 = q % 2 := by
  have hpos := l.fraction_pos
  -- The exponent is counted in multiples of an even number.
  have htwo : 2 ^ l.fraction = 2 * 2 ^ (l.fraction - 1) := by
    rw [← Nat.pow_succ']
    congr 1
    omega
  unfold join
  rw [htwo, Nat.mul_left_comm]
  omega

/-- No magnitude is nearer to a value than the one that it is rounded to. -/
theorem isNearest_nearest (v : Nat) : l.IsNearest v (l.nearest v) := by
  obtain ⟨q, n, r, place, hr, rfl, hnext, hnearest⟩ := exists_neighbours (l := l) v
  have hparity := join_mod_two (l := l) q n
  have hcases := magnitude_cases (l := l) (l.join q n)
  generalize l.join q n = code at *
  rw [hnearest]
  by_cases hfinite : code < l.infinity
  · -- other magnitudes lie beyond one of the two neighbours, so the remainder decides
    by_cases hup : place < 2 * r ∨ (2 * r = place ∧ q % 2 = 1)
    · have hnear : ∀ c, gap (l.magnitude (code + 1)) (l.magnitude code + r) ≤
            gap (l.magnitude c) (l.magnitude code + r) ∧
          (c ≠ code + 1 → gap (l.magnitude c) (l.magnitude code + r) =
            gap (l.magnitude (code + 1)) (l.magnitude code + r) → (code + 1) % 2 = 0) := by
        intro c
        unfold gap
        rcases hcases c with ⟨_, hc⟩ | rfl | rfl | ⟨_, hc⟩ <;> omega
      have hle : code + 1 ≤ l.infinity := hfinite
      rw [if_pos hup, Nat.min_eq_right hle]
      exact ⟨hle, fun c _ => (hnear c).1, fun c _ => (hnear c).2⟩
    · have hnear : ∀ c, gap (l.magnitude code) (l.magnitude code + r) ≤
            gap (l.magnitude c) (l.magnitude code + r) ∧
          (c ≠ code → gap (l.magnitude c) (l.magnitude code + r) =
            gap (l.magnitude code) (l.magnitude code + r) → code % 2 = 0) := by
        intro c
        unfold gap
        rcases hcases c with ⟨_, hc⟩ | rfl | rfl | ⟨_, hc⟩ <;> omega
      have hle : code ≤ l.infinity := Nat.le_of_lt hfinite
      rw [if_neg hup, Nat.min_eq_right hle]
      exact ⟨hle, fun c _ => (hnear c).1, fun c _ => (hnear c).2⟩
  · -- the value is infinity or lies past it, where no other magnitude is
    have hinfinity : min l.infinity
        (if place < 2 * r ∨ (2 * r = place ∧ q % 2 = 1) then code + 1 else code) = l.infinity := by
      split <;> omega
    have hpast : l.magnitude l.infinity ≤ l.magnitude code := by
      rcases Nat.eq_or_lt_of_le (Nat.not_lt.mp hfinite) with heq | hlt
      · exact Nat.le_of_eq (congrArg l.magnitude heq)
      · exact Nat.le_of_lt (magnitude_lt_of_lt hlt)
    rw [hinfinity]
    refine ⟨Nat.le_refl _, fun c hc => ?_, fun c hc hne heq => ?_⟩
    · unfold gap
      rcases Nat.eq_or_lt_of_le hc with rfl | hlt
      · omega
      · have hless := magnitude_lt_of_lt (l := l) hlt
        omega
    · have hless := magnitude_lt_of_lt (l := l) (Nat.lt_of_le_of_ne hc hne)
      unfold gap at heq
      omega

end Layout

/-! ## Numbers -/

namespace Number

variable {l m : Layout}

/-- A number of one layout is rounded to one of another: the sign is kept, an infinity stays one,
and a finite magnitude goes to the nearest. Of a NaN it is only said that it stays one. -/
inductive RoundsTo : Number l → Number m → Prop
  | nan {x : Number l} {y : Number m} (hx : x.isNaN = true) (hy : y.isNaN = true) : RoundsTo x y
  | infinity (negative : Bool) :
    RoundsTo (.magnitude negative (Fin.last _)) (.magnitude negative (Fin.last _))
  | finite {negative : Bool} {code : Fin (l.infinity + 1)} {code' : Fin (m.infinity + 1)}
    (hfinite : code.val < l.infinity) (hnearest : m.IsNearest (l.magnitude code) code') :
    RoundsTo (.magnitude negative code) (.magnitude negative code')

/-- A number is converted to the nearest one of the other layout. -/
theorem roundsTo_convert (x : Number l) : x.RoundsTo (x.convert m) := by
  cases x with
  | notANumber => exact .nan rfl rfl
  | magnitude negative code =>
    by_cases hcode : code.val = l.infinity
    · obtain rfl : code = Fin.last _ := Fin.ext hcode
      rw [convert, if_pos hcode]
      exact .infinity negative
    · have hlt : code.val < l.infinity := by omega
      rw [convert_of_lt m negative hlt]
      exact .finite hlt (Layout.isNearest_nearest _)

theorem roundsTo_narrow (x : Double) : x.RoundsTo x.narrow := roundsTo_convert x

-- half a step past the largest finite number is past the middle, as its significand is odd
example : (Layout.single.nearest (Layout.single.magnitude 0x7f7fffff + 2 ^ 1177)) =
    Layout.single.infinity := by decide +kernel

end Number

end ArrayBridge.Binary
