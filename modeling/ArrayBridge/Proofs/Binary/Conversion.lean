import ArrayBridge.Binary.Layout

/-!
# Conversions between layouts

The magnitudes of a layout are whole numbers of grid steps, so a conversion is exact as soon as the
target has enough places. A code is taken apart into a significand and the number of doublings of
the least step; this form is the same on both sides of a rounding.

Main results:

* `Layout.nearest_magnitude` — the magnitude nearest to a magnitude of the layout is that one.
* `Layout.exists_parts_double` — the wide layout has the places for every magnitude of the narrow
  one.
* `Number.narrow_widen` — widening and narrowing again gives the number back, unless it is a NaN.
-/

namespace ArrayBridge.Binary

-- powers here are the plain powers of natural numbers, whatever else is in scope
attribute [local instance (high)] instPowNat

/-- Nothing is rounded where the shift leaves no remainder. -/
theorem roundShift_mul (q s : Nat) : roundShift (q * 2 ^ s) s = q := by
  have hpos : 0 < 2 ^ s := Nat.two_pow_pos s
  have hmod : q * 2 ^ s % 2 ^ s = 0 := Nat.mul_mod_left q (2 ^ s)
  rw [roundShift, hmod, Nat.mul_div_cancel q hpos, if_neg (by omega)]

/-- Multiplying by a power of two adds to the logarithm. -/
theorem log2_mul_pow {q : Nat} (hq : q ≠ 0) (p : Nat) : (q * 2 ^ p).log2 = q.log2 + p := by
  have hpos : 0 < 2 ^ p := Nat.two_pow_pos p
  have hne : q * 2 ^ p ≠ 0 := Nat.mul_ne_zero hq (Nat.ne_of_gt hpos)
  rw [Nat.log2_eq_iff hne]
  constructor
  · rw [Nat.pow_add]
    exact Nat.mul_le_mul_right _ (Nat.log2_self_le hq)
  · have hsplit : 2 ^ (q.log2 + p + 1) = 2 ^ (q.log2 + 1) * 2 ^ p := by
      rw [← Nat.pow_add]
      congr 1
      omega
    rw [hsplit]
    exact Nat.mul_lt_mul_of_pos_right Nat.lt_log2_self hpos

namespace Layout

variable (l : Layout)

/-! ## Codes in two parts -/

/-- Whether a significand and a number of doublings of the least step are those of a code: only the
least step goes with a significand that is not of full length. -/
structure Parts (q n : Nat) : Prop where
  full : 2 ^ l.fraction ≤ q ∨ n = 0
  lt : q < 2 ^ (l.fraction + 1)

/-- The code of a significand and a number of doublings. -/
def join (q n : Nat) : Nat := q + n * 2 ^ l.fraction

variable {l} {q n : Nat}

/-- The full part of a significand counts as one more doubling in the code. -/
theorem div_join (hlo : 2 ^ l.fraction ≤ q) (hhi : q < 2 ^ (l.fraction + 1)) :
    l.join q n / 2 ^ l.fraction = n + 1 ∧ l.join q n % 2 ^ l.fraction = q - 2 ^ l.fraction := by
  have hpos : 0 < 2 ^ l.fraction := Nat.two_pow_pos l.fraction
  have hpow : 2 ^ (l.fraction + 1) = 2 * 2 ^ l.fraction := Nat.pow_succ'
  have hsplit : l.join q n = (q - 2 ^ l.fraction) + (n + 1) * 2 ^ l.fraction := by
    rw [join, Nat.succ_mul]
    omega
  rw [hsplit, Nat.add_mul_div_right _ _ hpos, Nat.add_mul_mod_self_right,
    Nat.div_eq_of_lt (by omega), Nat.mod_eq_of_lt (by omega)]
  exact ⟨Nat.zero_add _, rfl⟩

/-- The value of a code, by its parts. -/
theorem magnitude_join (h : l.Parts q n) : l.magnitude (l.join q n) = q * 2 ^ (l.base + n) := by
  by_cases hlo : 2 ^ l.fraction ≤ q
  · obtain ⟨hdiv, hmod⟩ := div_join (n := n) hlo h.lt
    have hge : ¬ l.join q n < 2 ^ l.fraction := by
      rw [join]
      omega
    rw [magnitude, significand, lastPlace, if_neg hge, hmod, hdiv, Nat.add_sub_cancel]
    congr 1
    omega
  · -- below the least full significand the code is the significand
    have hn : n = 0 := h.full.resolve_left hlo
    subst hn
    have hjoin : l.join q 0 = q := by
      rw [join]
      omega
    have hlt : q < 2 ^ l.fraction := Nat.not_le.mp hlo
    rw [hjoin, magnitude, significand, lastPlace, if_pos hlt, Nat.div_eq_of_lt hlt]

/-- Every code has parts. -/
theorem exists_parts (code : Nat) : ∃ q n, l.Parts q n ∧ l.join q n = code := by
  have hpos : 0 < 2 ^ l.fraction := Nat.two_pow_pos l.fraction
  have hpow : 2 ^ (l.fraction + 1) = 2 * 2 ^ l.fraction := Nat.pow_succ'
  by_cases hlt : code < 2 ^ l.fraction
  · refine ⟨code, 0, ⟨.inr rfl, by omega⟩, ?_⟩
    rw [join]
    omega
  · -- a normal number: the leading bit of its significand is not part of its code
    have hmod : code % 2 ^ l.fraction < 2 ^ l.fraction := Nat.mod_lt _ hpos
    have hdiv : 1 ≤ code / 2 ^ l.fraction := (Nat.one_le_div_iff hpos).mpr (Nat.not_lt.mp hlt)
    refine ⟨2 ^ l.fraction + code % 2 ^ l.fraction, code / 2 ^ l.fraction - 1,
      ⟨.inl (Nat.le_add_right _ _), by omega⟩, ?_⟩
    have hcode := Nat.div_add_mod code (2 ^ l.fraction)
    have hsplit : code / 2 ^ l.fraction * 2 ^ l.fraction =
        (code / 2 ^ l.fraction - 1) * 2 ^ l.fraction + 2 ^ l.fraction := by
      rw [← Nat.succ_mul]
      congr 1
      omega
    rw [Nat.mul_comm] at hcode
    rw [join]
    omega

/-! ## Rounding -/

/-- The last place that is left to a value with parts is that of its code. -/
theorem shift_of_parts (h : l.Parts q n) :
    max l.base ((q * 2 ^ (l.base + n)).log2 - l.fraction) = l.base + n := by
  by_cases hq : q = 0
  · -- zero is a value of the least step
    have hpos : 0 < 2 ^ l.fraction := Nat.two_pow_pos l.fraction
    have hn : n = 0 := h.full.resolve_left (by omega)
    subst hq hn
    rw [Nat.zero_mul, Nat.log2_zero]
    omega
  · rw [log2_mul_pow hq]
    have hle : q.log2 < l.fraction + 1 := (Nat.log2_lt hq).mpr h.lt
    rcases h.full with hfull | hn
    · have hge : l.fraction ≤ q.log2 := (Nat.le_log2 hq).mpr hfull
      omega
    · omega

/-- A value with parts is not rounded, unless it is too large. -/
theorem nearest_of_parts (h : l.Parts q n) :
    l.nearest (q * 2 ^ (l.base + n)) = min l.infinity (l.join q n) := by
  rw [nearest, shift_of_parts h, roundShift_mul, Nat.add_sub_cancel_left, join]

/-- The magnitude nearest to a magnitude of the layout is that one. -/
theorem nearest_magnitude {code : Nat} (h : code ≤ l.infinity) :
    l.nearest (l.magnitude code) = code := by
  obtain ⟨q, n, hparts, rfl⟩ := exists_parts (l := l) code
  rw [magnitude_join hparts, nearest_of_parts hparts]
  exact Nat.min_eq_right h

/-! ## The narrow layout in the wide one -/

/-- A significand may be made longer by taking doublings of the step for its last places. -/
theorem exists_parts_double {q n : Nat} (hq : q < 2 ^ (single.fraction + 1)) (hn : n ≤ 253) :
    ∃ q' n', double.Parts q' n' ∧ q' * 2 ^ (double.base + n') = q * 2 ^ (single.base + n) ∧
      double.join q' n' < double.infinity := by
  have hwide : double.infinity = 2047 * 2 ^ 52 := rfl
  by_cases hzero : q = 0
  · subst hzero
    refine ⟨0, 0, ⟨.inr rfl, Nat.two_pow_pos _⟩, by simp, ?_⟩
    decide
  · have hlog : q.log2 < 24 := (Nat.log2_lt hzero).mpr hq
    -- the significand is filled up to its full length
    let k := 52 - q.log2
    have hlo : 2 ^ 52 ≤ q * 2 ^ k := by
      have hsplit : (2 : Nat) ^ 52 = 2 ^ q.log2 * 2 ^ k := by
        rw [← Nat.pow_add]
        congr 1
        omega
      rw [hsplit]
      exact Nat.mul_le_mul_right _ (Nat.log2_self_le hzero)
    have hhi : q * 2 ^ k < 2 ^ 53 := by
      have hsplit : (2 : Nat) ^ 53 = 2 ^ (q.log2 + 1) * 2 ^ k := by
        rw [← Nat.pow_add]
        congr 1
        omega
      rw [hsplit]
      exact Nat.mul_lt_mul_of_pos_right Nat.lt_log2_self (Nat.two_pow_pos k)
    refine ⟨q * 2 ^ k, single.base + n - k, ⟨.inl hlo, hhi⟩, ?_, ?_⟩
    · have hbase : single.base = 925 := rfl
      have hbase' : double.base = 0 := rfl
      rw [Nat.mul_assoc, ← Nat.pow_add]
      congr 2
      omega
    · have hbase : single.base = 925 := rfl
      have hfraction : double.fraction = 52 := rfl
      rw [join, hwide, hfraction]
      omega

/-- A finite magnitude of the narrow layout is a finite magnitude of the wide one. -/
theorem magnitude_nearest_double {code : Nat} (h : code < single.infinity) :
    double.magnitude (double.nearest (single.magnitude code)) = single.magnitude code ∧
      double.nearest (single.magnitude code) < double.infinity := by
  obtain ⟨q, n, hparts, rfl⟩ := exists_parts (l := single) code
  -- the exponent of a finite single is within what a double can have
  have hn : n ≤ 253 := by
    have hinfinity : single.infinity = 255 * 2 ^ 23 := rfl
    have hfraction : single.fraction = 23 := rfl
    have hfull := hparts.full
    rw [join, hinfinity, hfraction] at h
    rw [hfraction] at hfull
    omega
  obtain ⟨q', n', hparts', hvalue, hlt⟩ := exists_parts_double hparts.lt hn
  rw [magnitude_join hparts, ← hvalue, nearest_of_parts hparts',
    Nat.min_eq_right (Nat.le_of_lt hlt), magnitude_join hparts']
  exact ⟨rfl, hlt⟩

end Layout

/-! ## Numbers -/

namespace Number

/-- A finite number is rounded by its magnitude. -/
theorem convert_of_lt {l : Layout} (m : Layout) (negative : Bool) {code : Fin (l.infinity + 1)}
    (h : code.val < l.infinity) :
    (magnitude negative code).convert m =
      magnitude negative ⟨m.nearest (l.magnitude code),
        Nat.lt_succ_of_le (m.nearest_le_infinity _)⟩ :=
  if_neg (Nat.ne_of_lt h)

/-- A NaN stays one in any layout, and nothing else becomes one. -/
@[simp] theorem isNaN_convert {l : Layout} (m : Layout) (x : Number l) :
    (x.convert m).isNaN = x.isNaN := by
  cases x with
  | notANumber => rfl
  | magnitude negative code =>
    rw [convert]
    split <;> rfl

/-- Every number of the narrow layout is one of the wide layout, and is found again. A NaN is found
again as some NaN, as it comes back a quiet one. -/
theorem narrow_widen {x : Single} (hx : x.isNaN = false) : x.widen.narrow = x := by
  cases x with
  | notANumber => cases hx
  | magnitude negative code =>
    by_cases hcode : code.val = Layout.single.infinity
    · -- an infinity stays one both ways
      have hwiden : (magnitude negative code : Single).widen = magnitude negative (Fin.last _) :=
        if_pos hcode
      rw [hwiden]
      exact congrArg (magnitude negative) (Fin.ext hcode.symm)
    · have hlt : code.val < Layout.single.infinity := by omega
      obtain ⟨hmagnitude, hfinite⟩ := Layout.magnitude_nearest_double hlt
      rw [widen, convert_of_lt .double negative hlt, narrow, convert_of_lt .single negative hfinite]
      refine congrArg (magnitude negative) (Fin.ext ?_)
      show Layout.single.nearest (Layout.double.magnitude _) = code.val
      rw [hmagnitude, Layout.nearest_magnitude (Nat.le_of_lt hlt)]

theorem isNaN_narrow_widen (x : Single) : x.widen.narrow.isNaN = x.isNaN :=
  (isNaN_convert .single x.widen).trans (isNaN_convert .double x)

-- the signalling NaN of the least fraction comes back as the quiet one with that bit
example : ((ofBits .single 0x7f800001).widen.toBits,
    (ofBits .single 0x7f800001).widen.narrow.toBits) =
    (0x7ff8000020000000, 0x7fc00001) := by decide +kernel

end Number

end ArrayBridge.Binary
