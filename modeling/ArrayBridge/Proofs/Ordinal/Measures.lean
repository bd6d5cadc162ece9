import ArrayBridge.Proofs.Ordinal.Spans

/-!
# Measures

A measure hands out values upwards until its count is used up. Each call takes the pending value and
counts down before it steps, so a measure that is to go past the greatest value of its type fails at
that value, and has nothing left to hand out afterwards.

Main results:

* `IsRow.getElem?_eq_some_iff` — the place of a value in a row that goes up.
* `Measure.after_eq` — a measure that still has values to hand out.
* `Measure.remaining_of_le`, `Measure.next_after_of_lt` — how a measure comes to its end.
* `Measure.countsExactly` — the answers of every measure, at each of the ordinal types.
-/

namespace ArrayBridge

/-! ## Rows that go up -/

section

variable {α : Type} [LE α] [LT α] {a b v first last greatest : α} {values shorter : List α}
  {i n : Nat}

theorem IsRow.length_pos (hrow : IsRow true first last values) : 0 < values.length := by
  have hhead := hrow.head?
  cases values with
  | nil => cases hhead
  | cons a rest => exact Nat.succ_pos _

variable [Ordinal α] [Positioned α]

open Positioned

/-- Nothing fits between neighbours, so they stand at numbers next to each other. -/
theorem Adjacent.position_eq (h : Adjacent a b) : position b = position a + 1 := by
  have hlt := lt_iff.mp h.lt
  obtain ⟨c, hc⟩ := exists_position_eq (a := a) (b := b) (n := position a + 1) (by omega) (by omega)
  have hnot := h.not_between c
  rw [lt_iff (a := a), lt_iff (a := c), hc] at hnot
  omega

/-- The values of a row stand at the numbers from that of the first one on. -/
theorem IsRow.position_of_getElem? (hrow : IsRow true first last values)
    (h : values[i]? = some v) : position v = position first + i := by
  induction i generalizing v with
  | zero =>
    have hhead := hrow.head?
    rw [List.head?_eq_getElem?, h, Option.some.injEq] at hhead
    rw [hhead]
    omega
  | succ i ih =>
    obtain ⟨hlt, rfl⟩ := List.getElem?_eq_some_iff.mp h
    have hprevious := ih (List.getElem?_eq_getElem (Nat.lt_of_succ_lt hlt))
    have hadjacent := List.isChain_iff_getElem.mp hrow.adjacent i hlt
    rw [if_pos rfl] at hadjacent
    have hstep := hadjacent.position_eq
    omega

/-- A value has the place in a row that its distance from the first one gives. -/
theorem IsRow.getElem?_eq_some_iff (hrow : IsRow true first last values) :
    values[i]? = some v ↔ position v = position first + i ∧ position v ≤ position last := by
  constructor
  · intro h
    have hmem := (hrow.mem_iff v).mp (List.mem_of_getElem? h)
    rw [between_iff, if_pos rfl] at hmem
    exact ⟨hrow.position_of_getElem? h, hmem.2⟩
  · rintro ⟨hposition, hle⟩
    -- The value is somewhere in the row, and its position says where.
    have hmem : v ∈ values := by
      rw [hrow.mem_iff, between_iff, if_pos rfl]
      omega
    obtain ⟨j, hj⟩ := List.mem_iff_getElem?.mp hmem
    have hplace := hrow.position_of_getElem? hj
    obtain rfl : j = i := by omega
    exact hj

/-- The beginning of a row is the row up to the last value of the beginning. -/
theorem IsRow.eq_take (hrow : IsRow true first greatest values)
    (hshorter : IsRow true first last shorter) (hlast : values[n]? = some last) :
    shorter = values.take (n + 1) := by
  obtain ⟨hposition, hle⟩ := hrow.getElem?_eq_some_iff.mp hlast
  -- both say of each place which value stands there, by positions
  refine List.ext_getElem? fun i => Option.ext fun v => ?_
  rw [hshorter.getElem?_eq_some_iff, List.getElem?_take]
  split
  · rw [hrow.getElem?_eq_some_iff]
    omega
  · simp only [reduceCtorEq, iff_false]
    omega

/-- In a row that ends with the greatest value of the type, a step leads to the next place. -/
theorem IsRow.successor?_eq (hrow : IsRow true first greatest values)
    (hgreatest : ∀ a : α, a ≤ greatest) (h : values[i]? = some v) :
    Ordinal.successor? v = values[i + 1]? := by
  refine Option.ext fun w => ?_
  have hw := le_iff.mp (hgreatest w)
  have hv := hrow.position_of_getElem? h
  rw [successor?_eq_some, hrow.getElem?_eq_some_iff]
  omega

end

/-! ## Iterators after some calls -/

/-- The state of an iterator after some calls. -/
def after {σ β : Type} (next : σ → β × σ) (s : σ) : Nat → σ
  | 0 => s
  | n + 1 => (next (after next s n)).2

section

variable {σ β : Type} {next : σ → β × σ} {s : σ}

/-- Steps are counted from the first. -/
theorem after_next (n : Nat) : after next (next s).2 n = after next s (n + 1) := by
  induction n with
  | zero => rfl
  | succ n ih => exact congrArg (fun s => (next s).2) ih

/-- An answer is that of the state which the calls before it have led to. -/
theorem answer_eq (i : Nat) : answer next s i = (next (after next s i)).1 := by
  induction i generalizing s with
  | zero => rfl
  | succ i ih => rw [answer, ih, after_next]

/-- A state that a call leaves as it is remains. -/
theorem after_eq_of_fixed {k i : Nat} (hfixed : (next (after next s k)).2 = after next s k)
    (hle : k ≤ i) : after next s i = after next s k := by
  induction i, hle using Nat.le_induction with
  | base => rfl
  | succ i _ ih => rw [after, ih, hfixed]

end

namespace Measure

variable {α : Type} [Ordinal α]

/-! ## Calls -/

/-- Nothing is left to hand out, be it that all has been counted or that a step has failed. -/
def Exhausted (m : Measure α) : Prop := m.remaining = 0 ∨ m.pending = none

/-- An exhausted measure gives nothing and stays as it is. -/
theorem next_of_exhausted {m : Measure α} (h : m.Exhausted) : next m = (.ok none, m) := by
  obtain ⟨pending, remaining⟩ := m
  unfold next
  rcases h with h | h
  · have hzero : remaining = 0 := h
    subst hzero
    cases pending <;> rfl
  · have hnone : pending = none := h
    subst hnone
    cases remaining <;> rfl

/-- The last value that is counted is handed out without a step. -/
theorem next_counting_one (a : α) : next (counting a 1) = (.ok (some a), ⟨none, 0⟩) := rfl

/-- An active one gives its value and moves to the successor, which it looks up only if more are
wanted. -/
theorem next_of_successor {a b : α} (h : Ordinal.successor? a = some b) (n : Nat) :
    next (counting a (n + 2)) = (.ok (some a), counting b (n + 1)) := by
  simp [next, counting, Ordinal.successor, h]

/-- Where there is no successor, the value that was pending is lost, and counted all the same. -/
theorem next_of_no_successor {a : α} (h : Ordinal.successor? a = none) (n : Nat) :
    next (counting a (n + 2)) = (.error (.noSuccessor (Ordinal.text a)), ⟨none, n + 1⟩) := by
  simp [next, counting, Ordinal.successor, h]

/-- Once a measure is exhausted, it answers nothing. -/
theorem answer_of_exhausted {m : Measure α} {k i : Nat} (h : (after next m k).Exhausted)
    (hle : k ≤ i) : answer next m i = .ok none := by
  have hnext := next_of_exhausted h
  rw [answer_eq, after_eq_of_fixed (congrArg Prod.snd hnext) hle, hnext]

/-! ## Runs -/

section

variable [LE α] [LT α] [Positioned α] {first greatest : α} {values : List α} {count : Nat}

/-- As long as there are values to hand out, the one at the place of the call is pending. -/
theorem after_eq (hrow : IsRow true first greatest values) (hgreatest : ∀ a : α, a ≤ greatest)
    {k : Nat} (hk : k < count) {v : α} (hv : values[k]? = some v) :
    after next (counting first count) k = counting v (count - k) := by
  induction k generalizing v with
  | zero =>
    have hhead := hrow.head?
    rw [List.head?_eq_getElem?, hv, Option.some.injEq] at hhead
    rw [hhead]
    rfl
  | succ k ih =>
    obtain ⟨hlt, -⟩ := List.getElem?_eq_some_iff.mp hv
    have hu : values[k]? = some values[k] := List.getElem?_eq_getElem (Nat.lt_of_succ_lt hlt)
    have hstep : Ordinal.successor? values[k] = some v := (hrow.successor?_eq hgreatest hu).trans hv
    -- at least two are left, so the value after this one is looked for at once
    obtain ⟨n, hn⟩ : ∃ n, count - k = n + 2 := ⟨count - k - 2, by omega⟩
    have hrest : count - (k + 1) = n + 1 := by omega
    rw [after, ih (Nat.lt_of_succ_lt hk) hu, hn, next_of_successor hstep, hrest]

/-- A count that the values suffice for ends once it is used up. -/
theorem remaining_of_le (hrow : IsRow true first greatest values)
    (hgreatest : ∀ a : α, a ≤ greatest) (hcount : count ≤ values.length) :
    (after next (counting first count) count).remaining = 0 := by
  cases count with
  | zero => rfl
  | succ n =>
    obtain ⟨v, hv⟩ : ∃ v, values[n]? = some v := ⟨_, List.getElem?_eq_getElem hcount⟩
    have hone : n + 1 - n = 1 := by omega
    rw [after, after_eq hrow hgreatest (by omega) hv, hone, next_counting_one]

/-- A greater count fails at the greatest value. -/
theorem next_after_of_lt (hrow : IsRow true first greatest values)
    (hgreatest : ∀ a : α, a ≤ greatest) {n : Nat} (hlength : values.length = n + 1)
    (hcount : n + 1 < count) :
    next (after next (counting first count) n) =
      (.error (.noSuccessor (Ordinal.text greatest)), ⟨none, count - (n + 1)⟩) := by
  have hlast := hrow.getLast?
  rw [List.getLast?_eq_getElem?, hlength, Nat.add_sub_cancel] at hlast
  -- the row ends with the greatest value, and one more is asked for
  have hstep : Ordinal.successor? greatest = none := by
    rw [hrow.successor?_eq hgreatest hlast, List.getElem?_eq_none_iff]
    omega
  obtain ⟨rest, hrest⟩ : ∃ rest, count - n = rest + 2 := ⟨count - n - 2, by omega⟩
  have hleft : count - (n + 1) = rest + 1 := by omega
  rw [after_eq hrow hgreatest (by omega) hlast, hrest, next_of_no_successor hstep, hleft]

/-- Short of the greatest value, and at the end of the count, the pending value is handed out. -/
theorem answer_of_getElem? (hrow : IsRow true first greatest values)
    (hgreatest : ∀ a : α, a ≤ greatest) {i : Nat} (hi : i < count) {v : α}
    (hv : values[i]? = some v) (hroom : i + 1 = count ∨ i + 1 < values.length) :
    answer next (counting first count) i = .ok (some v) := by
  rw [answer_eq, after_eq hrow hgreatest hi hv]
  by_cases hlast : i + 1 = count
  · have hone : count - i = 1 := by omega
    rw [hone, next_counting_one]
  · have hnext := List.getElem?_eq_getElem (hroom.resolve_left hlast)
    obtain ⟨n, hn⟩ : ∃ n, count - i = n + 2 := ⟨count - i - 2, by omega⟩
    rw [hn, next_of_successor ((hrow.successor?_eq hgreatest hv).trans hnext)]

/-! ## All answers -/

/-- A measure whose count the values suffice for. -/
theorem answer_counting_of_le (hrow : IsRow true first greatest values)
    (hgreatest : ∀ a : α, a ≤ greatest) (hcount : count ≤ values.length) (i : Nat) :
    answer next (counting first count) i = .ok (values.take count)[i]? := by
  rw [List.getElem?_take]
  split
  · rename_i hi
    have hv := List.getElem?_eq_getElem (Nat.lt_of_lt_of_le hi hcount)
    rw [hv, answer_of_getElem? hrow hgreatest hi hv (by omega)]
  · rename_i hi
    exact answer_of_exhausted (.inl (remaining_of_le hrow hgreatest hcount)) (Nat.le_of_not_lt hi)

/-- A measure that is to go past the greatest value. -/
theorem answer_counting_of_lt (hrow : IsRow true first greatest values)
    (hgreatest : ∀ a : α, a ≤ greatest) (hcount : values.length < count) (i : Nat) :
    answer next (counting first count) i =
      if i + 1 = values.length then .error (.noSuccessor (Ordinal.text greatest))
      else .ok values.dropLast[i]? := by
  obtain ⟨n, hn⟩ : ∃ n, values.length = n + 1 := Nat.exists_eq_add_one.mpr hrow.length_pos
  have hlt : n + 1 < count := hn ▸ hcount
  have hfails := next_after_of_lt hrow hgreatest hn hlt
  rw [hn, List.getElem?_dropLast, hn]
  rcases Nat.lt_trichotomy i n with hlt | rfl | hgt
  · have hv : values[i]? = some values[i] := List.getElem?_eq_getElem (by omega)
    have hanswer : answer next (counting first count) i = .ok (some values[i]) :=
      answer_of_getElem? hrow hgreatest (by omega) hv (by omega)
    rw [if_neg (by omega), if_pos (by omega), hv, hanswer]
  · rw [if_pos rfl, answer_eq, hfails]
  · rw [if_neg (by omega), if_neg (by omega)]
    -- the failed call has taken the value that was pending
    refine answer_of_exhausted (k := n + 1) (.inr ?_) hgt
    rw [after, hfails]

variable [DecidableEq α] [DecidableLE α]

/-- The span from the first value that is counted to the last one lists the same values. -/
theorem answer_span_of_le (hrow : IsRow true first greatest values) (hcount : count ≤ values.length)
    {last : α} (hlast : (values.take count).getLast? = some last) (i : Nat) :
    answer Span.next (Span.between first last) i = .ok (values.take count)[i]? := by
  obtain ⟨n, rfl, hn⟩ : ∃ n, count = n + 1 ∧ values[n]? = some last := by
    rw [List.getLast?_eq_getElem?, List.length_take, Nat.min_eq_left hcount,
      List.getElem?_take] at hlast
    split at hlast
    · exact ⟨count - 1, by omega, hlast⟩
    · cases hlast
  -- The span up to `last` enumerates a row of its own, which is the front of this one.
  have hle : first ≤ last := by
    rw [Positioned.le_iff, hrow.position_of_getElem? hn]
    omega
  obtain ⟨shorter, hshorter, hanswer⟩ := Span.enumerates_of_positioned first last
  rw [decide_eq_true hle] at hshorter
  rw [hanswer, hrow.eq_take hshorter hn]

/-- How a measure runs, given its count and the values from its first one up to the greatest of the
type, whose number is the most that can be counted. -/
structure Counts (greatest first : α) (values : List α) (count : Nat) : Prop where
  /-- As many values as are counted, and then nothing. -/
  answer_of_le (h : count ≤ values.length) (i : Nat) :
    answer next (counting first count) i = .ok (values.take count)[i]?
  /-- They are those of the span from the first to the last of them. -/
  span_of_le (h : count ≤ values.length) {last : α}
    (hlast : (values.take count).getLast? = some last) (i : Nat) :
    answer next (counting first count) i = answer Span.next (Span.between first last) i
  /-- On the way, the size that is promised is what is left. -/
  sizeHint_of_le (h : count ≤ values.length) {k : Nat} (hk : k ≤ count) :
    sizeHint (after next (counting first count) k) = (count - k, some (count - k))
  /-- All values but the greatest, the overflow at that one, and then nothing. -/
  answer_of_lt (h : values.length < count) (i : Nat) :
    answer next (counting first count) i =
      if i + 1 = values.length then .error (.noSuccessor (Ordinal.text greatest))
      else .ok values.dropLast[i]?

/-- A measure gives the values of the row in order, and fails where the row is over too soon. -/
theorem counts (hrow : IsRow true first greatest values) (hgreatest : ∀ a : α, a ≤ greatest)
    (count : Nat) : Counts greatest first values count where
  answer_of_le h i := answer_counting_of_le hrow hgreatest h i
  span_of_le h last hlast i := by
    rw [answer_span_of_le hrow h hlast, answer_counting_of_le hrow hgreatest h]
  sizeHint_of_le h k hk := by
    rcases Nat.lt_or_eq_of_le hk with hlt | rfl
    · have hv := List.getElem?_eq_getElem (Nat.lt_of_lt_of_le hlt h)
      rw [after_eq hrow hgreatest hlt hv]
      rfl
    · rw [sizeHint, remaining_of_le hrow hgreatest h, Nat.sub_self]
  answer_of_lt h i := answer_counting_of_lt hrow hgreatest h i

end

/-! ## Types -/

/-- Every measure of a type counts exactly, as far as there are values. -/
def CountsExactly (α : Type) [Ordinal α] [DecidableEq α] [LE α] [LT α] [DecidableLE α] : Prop :=
  ∃ greatest : α, (∀ a, a ≤ greatest) ∧ ∀ first, ∃ values, IsRow true first greatest values ∧
    ∀ count, Counts greatest first values count

/-- So measures count exactly, over every type with positions and a greatest value. -/
theorem countsExactly_of_greatest [DecidableEq α] [LE α] [LT α] [DecidableLE α] [Positioned α]
    {greatest : α} (hgreatest : ∀ a : α, a ≤ greatest) : CountsExactly α := by
  refine ⟨greatest, hgreatest, fun first => ?_⟩
  obtain ⟨values, hrow, -⟩ := Span.enumerates_of_positioned first greatest
  rw [decide_eq_true (hgreatest first)] at hrow
  exact ⟨values, hrow, counts hrow hgreatest⟩

theorem le_greatest_char (c : Char) : c ≤ Char.ofNat 0x10ffff := by
  have hcode : (Char.ofNat 0x10ffff).toNat = 0x10ffff := by decide
  have hc := Positioned.charPosition_cases c
  show c.toNat ≤ (Char.ofNat 0x10ffff).toNat
  omega

/-- A measure counts exactly, or stops at the greatest value, at each of the ordinal types. -/
theorem countsExactly : CountsExactly Int8 ∧ CountsExactly Int16 ∧ CountsExactly Int32 ∧
    CountsExactly Int64 ∧ CountsExactly Char :=
  ⟨countsExactly_of_greatest fun a => Int8.le_iff_toInt_le.mpr a.toInt_le,
    countsExactly_of_greatest fun a => Int16.le_iff_toInt_le.mpr a.toInt_le,
    countsExactly_of_greatest fun a => Int32.le_iff_toInt_le.mpr a.toInt_le,
    countsExactly_of_greatest fun a => Int64.le_iff_toInt_le.mpr a.toInt_le,
    countsExactly_of_greatest le_greatest_char⟩

-- one value is left of two, and it is the one at which the overflow is found
example : (List.range 3).map (answer next (counting Int8.maxValue 2)) =
    [.error (.noSuccessor "127"), .ok none, .ok none] := by decide

end Measure

end ArrayBridge
