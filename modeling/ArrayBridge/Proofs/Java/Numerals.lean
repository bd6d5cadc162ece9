import ArrayBridge.Proofs.Binary.Decimals
import ArrayBridge.Proofs.Java.Grammar

/-!
# Numerals as Java reads them

A numeral is a whole number, or it has a fraction, an exponent or a suffix that make it one of a
floating-point type, which is then read as the number of the type that is nearest to its value.

Main results:

* `readNumeral_toDigits`, `readNumeral_toDigits_long` — whole numbers are read back.
* `exists_scientific` — the text of a decimal is a numeral of the same value.
* `readNumeral_scientific` — a numeral with a fraction or an exponent is read by its value.
-/

namespace ArrayBridge.Java

open Binary (Layout Decimal)

/-! ## Reading -/

/-- The digits that come next, and what comes after them. -/
def splitDigits (cs : List Char) : List Char × List Char := cs.span Char.isDigit

/-- The value of digits. -/
def digitsValue (digits : List Char) : Nat := Nat.ofDigitChars 10 digits 0

/-- The whole number with some digits. A zero in front of others would make it an octal one. -/
def whole? (digits : List Char) : Option Nat :=
  if 1 < digits.length ∧ digits.head? = some '0' then none else some (digitsValue digits)

/-- Reads the digits behind a point, of which there need not be any. -/
def readFraction : List Char → List Char × List Char
  | '.' :: cs => splitDigits cs
  | cs => ([], cs)

/-- Reads the digits of an exponent. -/
def readPower (cs : List Char) : Option (Nat × List Char) :=
  let (digits, cs) := splitDigits cs
  if digits.isEmpty then none else some (digitsValue digits, cs)

/-- Reads an exponent with its sign. -/
def readSignedPower : List Char → Option (Int × List Char)
  | '-' :: cs => (readPower cs).map fun read => (-(read.1 : Int), read.2)
  | '+' :: cs => (readPower cs).map fun read => ((read.1 : Int), read.2)
  | cs => (readPower cs).map fun read => ((read.1 : Int), read.2)

/-- Reads an exponent, which is zero if there is none. -/
def readExponent : List Char → Option (Int × List Char)
  | 'e' :: cs | 'E' :: cs => readSignedPower cs
  | cs => some (0, cs)

/-- The numeral of a floating-point type that a value is with a suffix. -/
def floating? (value : ℚ) : List Char → Option Numeral
  | [] | ['d'] | ['D'] => (Layout.double.read? value).map .double
  | ['f'] | ['F'] => (Layout.single.read? value).map .float
  | _ => none

/-- The value of digits before and behind a point, with an exponent. -/
def decimalValue (whole fraction : List Char) (exponent : Int) : ℚ :=
  digitsValue (whole ++ fraction) * 10 ^ (exponent - fraction.length)

/-- Reads a numeral of a floating-point type, behind the digits it begins with. -/
def readFloating (whole cs : List Char) : Option Numeral := do
  let (fraction, cs) := readFraction cs
  let (exponent, suffix) ← readExponent cs
  floating? (decimalValue whole fraction exponent) suffix

/-- The numeral that a text is. -/
def readNumeral (cs : List Char) : Option Numeral :=
  let (whole, rest) := splitDigits cs
  if whole.isEmpty then none
  else
    match rest with
    | [] => (whole? whole).map .int
    | ['l'] | ['L'] => (whole? whole).map .long
    | rest => readFloating whole rest

/-! ## Digits -/

/-- Whether a text does not begin with a digit. -/
def NoDigit (cs : List Char) : Prop := ∀ c ∈ cs.head?, c.isDigit = false

theorem noDigit_nil : NoDigit [] := nofun

theorem noDigit_cons {c : Char} {cs : List Char} (h : c.isDigit = false) : NoDigit (c :: cs) := by
  rintro d ⟨⟩
  exact h

/-- Digits are read to their end. -/
theorem splitDigits_append {ds cs : List Char} (hds : ∀ c ∈ ds, c.isDigit = true)
    (hcs : NoDigit cs) : splitDigits (ds ++ cs) = (ds, cs) := by
  -- the rest does not start with a digit, so it is left as it is
  have htake : cs.takeWhile Char.isDigit = [] := by
    cases cs with
    | nil => rfl
    | cons c cs => simp [hcs c rfl]
  have hdrop : cs.dropWhile Char.isDigit = cs := by
    cases cs with
    | nil => rfl
    | cons c cs => simp [hcs c rfl]
  rw [splitDigits, List.span_eq_takeWhile_dropWhile, List.takeWhile_append_of_pos hds,
    List.dropWhile_append_of_pos hds, htake, hdrop, List.append_nil]

theorem isDigit_of_mem_zero {c : Char} (h : c ∈ ['0']) : c.isDigit = true := by
  rw [List.mem_singleton.mp h]
  rfl

theorem isDigit_of_mem_toDigits {n : Nat} {c : Char} (h : c ∈ Nat.toDigits 10 n) :
    c.isDigit = true :=
  Nat.isDigit_of_mem_toDigits (by decide) (by decide) h

/-- No number but zero has a zero for its first digit. -/
theorem head?_toDigits {n : Nat} (h : 0 < n) : (Nat.toDigits 10 n).head? ≠ some '0' := by
  -- the first digit stays first when the last one is taken off
  induction n using Nat.strong_induction_on with
  | _ n ih =>
    by_cases hlt : n < 10
    · have hall : ∀ n < 10, 0 < n → Nat.digitChar n ≠ '0' := by decide
      rw [Nat.toDigits_of_lt_base hlt]
      exact fun heq => hall n hlt h (Option.some.inj heq)
    · rw [Nat.toDigits_of_base_le (by decide) (Nat.le_of_not_lt hlt),
        List.head?_append_of_ne_nil _ Nat.toDigits_ne_nil]
      exact ih (n / 10) (Nat.div_lt_self h (by decide)) (Nat.div_pos (by omega) (by decide))

/-- Decimal digits are read back as the number. -/
theorem whole?_toDigits (n : Nat) : whole? (Nat.toDigits 10 n) = some n := by
  rw [whole?, if_neg, digitsValue, Nat.ofDigitChars_ten_toDigits]
  rintro ⟨hlength, hhead⟩
  rcases Nat.eq_zero_or_pos n with rfl | hpos
  · exact absurd hlength (by decide)
  · exact head?_toDigits hpos hhead

theorem isEmpty_toDigits (n : Nat) : (Nat.toDigits 10 n).isEmpty = false :=
  List.isEmpty_eq_false_iff.mpr Nat.toDigits_ne_nil

/-- A whole number is read back from its digits. -/
theorem readNumeral_toDigits (n : Nat) : readNumeral (Nat.toDigits 10 n) = some (.int n) := by
  have hsplit := splitDigits_append (fun c => isDigit_of_mem_toDigits (n := n)) noDigit_nil
  rw [List.append_nil] at hsplit
  simp [readNumeral, hsplit, isEmpty_toDigits, whole?_toDigits]

/-- Digits with an `L` behind them are read as a long number. -/
theorem readNumeral_toDigits_long (n : Nat) :
    readNumeral (Nat.toDigits 10 n ++ ['L']) = some (.long n) := by
  have hsuffix : NoDigit ['L'] := noDigit_cons (by decide)
  have hsplit := splitDigits_append (fun c => isDigit_of_mem_toDigits (n := n)) hsuffix
  simp [readNumeral, hsplit, isEmpty_toDigits, whole?_toDigits]

/-- The text of an integer: its digits, with a sign if it is negative. -/
theorem toList_toString (n : Int) :
    (toString n).toList = (if n < 0 then ['-'] else []) ++ Nat.toDigits 10 n.natAbs := by
  rw [Int.toString_eq_repr, Int.repr_eq_if]
  by_cases h : 0 ≤ n
  · have habs : n.toNat = n.natAbs := by omega
    rw [if_pos h, if_neg (by omega), habs, Nat.toList_repr]
    rfl
  · have habs : (-n).toNat = n.natAbs := by omega
    rw [if_neg h, if_pos (by omega), habs, String.toList_append, Nat.toList_repr]
    rfl

/-! ## Decimals -/

/-- A decimal as it is laid out: digits, of which some may stand behind a point, and an exponent
that it need not have if it has a point. -/
structure Scientific where
  whole : List Char
  fraction : List Char
  exponent : Option Int
  whole_ne_nil : whole ≠ []
  isDigit_whole : ∀ c ∈ whole, c.isDigit = true
  isDigit_fraction : ∀ c ∈ fraction, c.isDigit = true
  /-- No decimal is laid out as a whole number. -/
  not_whole : fraction ≠ [] ∨ exponent ≠ none

namespace Scientific

/-- The point and the digits behind it. -/
def fractionText (s : Scientific) : List Char :=
  if s.fraction.isEmpty then [] else '.' :: s.fraction

/-- The mark and the digits of the exponent. -/
def exponentText (s : Scientific) : List Char :=
  s.exponent.elim [] fun n => 'e' :: (toString n).toList

/-- The text that is laid out. -/
def text (s : Scientific) : List Char := s.whole ++ s.fractionText ++ s.exponentText

/-- The value of what is laid out. -/
def value (s : Scientific) : ℚ := decimalValue s.whole s.fraction (s.exponent.getD 0)

end Scientific

section

variable {d : Decimal}

/-- The value of a decimal is that of its digits, moved to their place. -/
theorem value_eq (d : Decimal) :
    d.value = digitsValue d.digits * 10 ^ (d.place + 1 - d.digits.length) := rfl

/-- With an exponent, one digit stands before the point. -/
theorem exists_scientific_exponent (hne : d.digits ≠ []) (hd : ∀ c ∈ d.digits, c.isDigit = true)
    (hplace : d.place < -4 ∨ 16 ≤ d.place) :
    ∃ s : Scientific, s.text = d.text ∧ s.value = d.value := by
  obtain ⟨c, cs, hdigits⟩ := List.exists_cons_of_ne_nil hne
  rw [hdigits] at hd
  refine ⟨⟨[c], cs, some d.place, List.cons_ne_nil _ _, ?_, ?_, .inr nofun⟩, ?_, ?_⟩
  · exact fun c' hc' => hd c' (List.mem_cons.mpr (.inl (List.mem_singleton.mp hc')))
  · exact fun c' hc' => hd c' (List.mem_cons_of_mem _ hc')
  · rw [Decimal.text, if_pos hplace, hdigits]
    cases cs <;> simp [Scientific.text, Scientific.fractionText, Scientific.exponentText,
      Decimal.withPoint]
  · rw [value_eq, hdigits]
    simp [Scientific.value, decimalValue]

/-- Zeros in front do not count. -/
theorem digitsValue_zeros (n : Nat) (ds : List Char) :
    digitsValue ('0' :: List.replicate n '0' ++ ds) = digitsValue ds := by
  rw [digitsValue, ← List.replicate_succ, Nat.ofDigitChars_append, Nat.ofDigitChars_replicate_zero,
    Nat.mul_zero, digitsValue]

/-- A decimal below one has zeros behind its point. -/
theorem exists_scientific_small (hne : d.digits ≠ []) (hd : ∀ c ∈ d.digits, c.isDigit = true)
    (hplace : ¬ (d.place < -4 ∨ 16 ≤ d.place)) (hneg : d.place < 0) :
    ∃ s : Scientific, s.text = d.text ∧ s.value = d.value := by
  have hfraction : List.replicate (d.place.natAbs - 1) '0' ++ d.digits ≠ [] :=
    List.append_ne_nil_of_right_ne_nil _ hne
  -- The whole part is a single zero; more zeros keep the digits in their place behind the point.
  refine ⟨⟨['0'], List.replicate (d.place.natAbs - 1) '0' ++ d.digits, none, List.cons_ne_nil _ _,
    fun _ => isDigit_of_mem_zero, ?_, .inl hfraction⟩, ?_, ?_⟩
  · intro c hc
    rcases List.mem_append.mp hc with hc | hc
    · rw [List.eq_of_mem_replicate hc]
      rfl
    · exact hd c hc
  · rw [Decimal.text, if_neg hplace, if_pos hneg]
    simp [Scientific.text, Scientific.fractionText, Scientific.exponentText, hne]
  · have hexponent : -((List.replicate (d.place.natAbs - 1) '0' ++ d.digits).length : Int) =
        d.place + 1 - d.digits.length := by
      rw [List.length_append, List.length_replicate]
      omega
    show (digitsValue ('0' :: (List.replicate _ '0' ++ d.digits)) : ℚ) * 10 ^ (0 - _) = _
    rw [← List.cons_append, digitsValue_zeros, zero_sub, hexponent, value_eq]

/-- From one on and up to sixteen places, a decimal is written with a point. -/
theorem text_large {n : Nat} (hn : d.place = n) (hplace : n < 16) :
    d.text = Decimal.withPoint d.digits (n + 1) := by
  rw [Decimal.text, if_neg (by omega), if_neg (by omega), hn]
  rfl

/-- If all digits stand before the point, zeros may stand between them and the point, and one stands
behind it. -/
theorem exists_scientific_zeros (hd : ∀ c ∈ d.digits, c.isDigit = true) {n : Nat}
    (hn : d.place = n) (hplace : n < 16) (hlength : d.digits.length ≤ n + 1) :
    ∃ s : Scientific, s.text = d.text ∧ s.value = d.value := by
  -- the zeros that fill the places up to the point multiply by a power of ten
  refine ⟨⟨d.digits ++ List.replicate (n + 1 - d.digits.length) '0', ['0'], none, ?_, ?_,
    fun _ => isDigit_of_mem_zero, .inl (List.cons_ne_nil _ _)⟩, ?_, ?_⟩
  · intro hnil
    have hlength' := congrArg List.length hnil
    rw [List.length_append, List.length_replicate, List.length_nil] at hlength'
    omega
  · intro c hc
    rcases List.mem_append.mp hc with hc | hc
    · exact hd c hc
    · rw [List.eq_of_mem_replicate hc]
      rfl
  · rw [text_large hn hplace]
    simp [Scientific.text, Scientific.fractionText, Scientific.exponentText, Decimal.withPoint,
      List.take_of_length_le hlength, List.drop_of_length_le hlength]
  · have hzeros : List.replicate (n + 1 - d.digits.length) '0' ++ ['0'] =
        List.replicate (n + 1 - d.digits.length + 1) '0' := List.replicate_succ'.symm
    have hexponent : (n : Int) + 1 - d.digits.length = (n + 1 - d.digits.length : Nat) := by omega
    show (digitsValue (d.digits ++ List.replicate _ '0' ++ ['0']) : ℚ) * 10 ^ (0 - 1 : Int) = _
    rw [List.append_assoc, hzeros, digitsValue, Nat.ofDigitChars_append,
      Nat.ofDigitChars_replicate_zero, value_eq, hn, hexponent, zpow_natCast, digitsValue]
    push_cast
    rw [pow_succ]
    norm_num
    ring

/-- Otherwise the point stands among the digits. -/
theorem exists_scientific_among (hd : ∀ c ∈ d.digits, c.isDigit = true) {n : Nat}
    (hn : d.place = n) (hplace : n < 16) (hlength : n + 1 < d.digits.length) :
    ∃ s : Scientific, s.text = d.text ∧ s.value = d.value := by
  have hdrop : d.digits.drop (n + 1) ≠ [] := by
    intro hnil
    exact Nat.not_le_of_lt hlength (List.drop_eq_nil_iff.mp hnil)
  have hzeros : n + 1 - d.digits.length = 0 := by omega
  -- the digits are split at the point, and the power of ten counts those behind it
  refine ⟨⟨d.digits.take (n + 1), d.digits.drop (n + 1), none, ?_, ?_, ?_, .inl hdrop⟩, ?_, ?_⟩
  · intro hnil
    have hlength' := congrArg List.length hnil
    rw [List.length_take, List.length_nil] at hlength'
    omega
  · exact fun c hc => hd c (List.mem_of_mem_take hc)
  · exact fun c hc => hd c (List.mem_of_mem_drop hc)
  · rw [text_large hn hplace]
    simp only [Scientific.text, Scientific.fractionText, Scientific.exponentText,
      Decimal.withPoint, hzeros, List.replicate_zero, List.append_nil, Option.elim_none,
      List.isEmpty_eq_false_iff.mpr hdrop, Bool.false_eq_true, if_false]
  · have hexponent : 0 - ((d.digits.drop (n + 1)).length : Int) = n + 1 - d.digits.length := by
      rw [List.length_drop]
      omega
    show (digitsValue (d.digits.take (n + 1) ++ d.digits.drop (n + 1)) : ℚ) * 10 ^ (0 - _) = _
    rw [List.take_append_drop, hexponent, value_eq, hn]

/-- The text of a decimal is that of a numeral of its value. -/
theorem exists_scientific (hne : d.digits ≠ []) (hd : ∀ c ∈ d.digits, c.isDigit = true) :
    ∃ s : Scientific, s.text = d.text ∧ s.value = d.value := by
  -- With an exponent; else the point is before all digits, behind all of them, or among them.
  by_cases hplace : d.place < -4 ∨ 16 ≤ d.place
  · exact exists_scientific_exponent hne hd hplace
  by_cases hneg : d.place < 0
  · exact exists_scientific_small hne hd hplace hneg
  obtain ⟨n, hn⟩ : ∃ n : Nat, d.place = n := ⟨d.place.toNat, by omega⟩
  by_cases hlength : d.digits.length ≤ n + 1
  · exact exists_scientific_zeros hd hn (by omega) hlength
  · exact exists_scientific_among hd hn (by omega) (Nat.lt_of_not_le hlength)

end

/-! ## Reading what is laid out -/

/-- Whether a text can follow a numeral as its suffix. -/
def IsSuffix (suffix : List Char) : Prop := suffix = [] ∨ suffix = ['f']

namespace IsSuffix

variable {suffix : List Char}

/-- Behind a suffix the digits are over. -/
theorem noDigit (h : IsSuffix suffix) : NoDigit suffix := by
  rcases h with rfl | rfl
  · exact noDigit_nil
  · exact noDigit_cons (by decide)

theorem readExponent (h : IsSuffix suffix) : readExponent suffix = some (0, suffix) := by
  rcases h with rfl | rfl <;> rfl

theorem readFraction (h : IsSuffix suffix) : readFraction suffix = ([], suffix) := by
  rcases h with rfl | rfl <;> rfl

end IsSuffix

/-- An exponent takes all digits that there are. -/
theorem readPower_toDigits (n : Nat) {cs : List Char} (h : NoDigit cs) :
    readPower (Nat.toDigits 10 n ++ cs) = some (n, cs) := by
  rw [readPower, splitDigits_append (fun c => isDigit_of_mem_toDigits) h]
  simp only [isEmpty_toDigits, Bool.false_eq_true, if_false, digitsValue,
    Nat.ofDigitChars_ten_toDigits]

/-- An exponent is read back from its text. -/
theorem readSignedPower_toString (n : Int) {cs : List Char} (h : NoDigit cs) :
    readSignedPower ((toString n).toList ++ cs) = some (n, cs) := by
  rw [toList_toString]
  by_cases hneg : n < 0
  · have hvalue : -(n.natAbs : Int) = n := by omega
    rw [if_pos hneg, List.append_assoc, List.singleton_append, readSignedPower,
      readPower_toDigits _ h, Option.map_some, hvalue]
  · have hvalue : (n.natAbs : Int) = n := by omega
    -- digits do not begin with a sign
    have hsign (c : Char) (cs' : List Char) (hc : c.isDigit = false) :
        Nat.toDigits 10 n.natAbs ++ cs ≠ c :: cs' := by
      intro heq
      obtain ⟨d, ds, hds⟩ :=
        List.exists_cons_of_ne_nil (Nat.toDigits_ne_nil (b := 10) (n := n.natAbs))
      have hd := isDigit_of_mem_toDigits (hds ▸ List.mem_cons_self : d ∈ Nat.toDigits 10 n.natAbs)
      rw [hds, List.cons_append] at heq
      injection heq with heq _
      rw [heq, hc] at hd
      cases hd
    rw [if_neg hneg, List.nil_append, readSignedPower, readPower_toDigits _ h, Option.map_some,
      hvalue]
    · exact fun cs' => hsign '-' cs' (by decide)
    · exact fun cs' => hsign '+' cs' (by decide)

namespace Scientific

variable (s : Scientific) {suffix : List Char}

/-- The exponent is read back, or zero if none is written. -/
theorem readExponent_append (h : IsSuffix suffix) :
    readExponent (s.exponentText ++ suffix) = some (s.exponent.getD 0, suffix) := by
  rw [exponentText]
  cases s.exponent with
  | none => exact h.readExponent
  | some n => exact readSignedPower_toString n h.noDigit

theorem noDigit_exponentText (h : IsSuffix suffix) : NoDigit (s.exponentText ++ suffix) := by
  rw [exponentText]
  cases s.exponent with
  | none => exact h.noDigit
  | some n => exact noDigit_cons (by decide)

/-- The digits behind the point are read back, or none if there is no point. -/
theorem readFraction_append (h : IsSuffix suffix) :
    readFraction (s.fractionText ++ (s.exponentText ++ suffix)) =
      (s.fraction, s.exponentText ++ suffix) := by
  rw [fractionText]
  split
  · rename_i hempty
    rw [List.isEmpty_iff.mp hempty, exponentText]
    cases s.exponent with
    | none => exact h.readFraction
    | some n => rfl
  · exact splitDigits_append s.isDigit_fraction (s.noDigit_exponentText h)

theorem noDigit_fractionText (h : IsSuffix suffix) :
    NoDigit (s.fractionText ++ (s.exponentText ++ suffix)) := by
  rw [fractionText]
  split
  · exact s.noDigit_exponentText h
  · exact noDigit_cons (by decide)

/-- What stands behind the first digits begins with a point or with the mark of an exponent. -/
theorem exists_rest : ∃ c cs, (c = '.' ∨ c = 'e') ∧ s.fractionText ++ s.exponentText = c :: cs := by
  rw [fractionText]
  split
  · rename_i hempty
    obtain ⟨n, hn⟩ := Option.ne_none_iff_exists'.mp
      (s.not_whole.resolve_left (not_not.mpr (List.isEmpty_iff.mp hempty)))
    exact ⟨'e', (toString n).toList, .inr rfl, by rw [exponentText, hn]; rfl⟩
  · exact ⟨'.', _, .inl rfl, rfl⟩

/-- A numeral with a fraction or an exponent is read by its value. -/
theorem readNumeral_append (h : IsSuffix suffix) :
    readNumeral (s.text ++ suffix) = floating? s.value suffix := by
  obtain ⟨c, cs, hc, hrest⟩ := s.exists_rest
  have htext : s.text ++ suffix = s.whole ++ (s.fractionText ++ (s.exponentText ++ suffix)) := by
    simp only [text, List.append_assoc]
  have hsplit := splitDigits_append s.isDigit_whole (s.noDigit_fractionText h)
  have hfloating : readFloating s.whole (s.fractionText ++ (s.exponentText ++ suffix)) =
      floating? s.value suffix := by
    simp only [readFloating, s.readFraction_append h, s.readExponent_append h, Option.bind_eq_bind,
      Option.bind_some, value]
  rw [htext, readNumeral, hsplit]
  simp only [List.isEmpty_eq_false_iff.mpr s.whole_ne_nil, Bool.false_eq_true, if_false]
  rw [← hfloating, ← List.append_assoc, hrest]
  -- What follows the whole part is a point or an exponent, so this is no whole number.
  rcases hc with rfl | rfl <;> rfl

/-- The text of zero. -/
def zero : Scientific :=
  ⟨['0'], ['0'], none, List.cons_ne_nil _ _, fun _ => isDigit_of_mem_zero,
    fun _ => isDigit_of_mem_zero, .inl (List.cons_ne_nil _ _)⟩

theorem value_zero : zero.value = 0 := by
  have hdigits : digitsValue (zero.whole ++ zero.fraction) = 0 := rfl
  rw [value, decimalValue, hdigits, Nat.cast_zero, zero_mul]

end Scientific

/-- A finite number is written as a sign and a numeral that is read as its magnitude. -/
theorem exists_scientific_number {l : Layout} (negative : Bool)
    {code : Fin (l.infinity + 1)} (hcode : code.val ≠ l.infinity) :
    ∃ s : Scientific, l.read? s.value = some code ∧
      (Binary.Number.magnitude negative code).text =
        (if negative then ['-'] else []) ++ s.text := by
  have htext (digits : List Char) :
      (if negative then '-' :: digits else digits) =
        (if negative then ['-'] else []) ++ digits := by cases negative <;> rfl
  have hlt : code.val < l.infinity := Nat.lt_of_le_of_ne (Nat.le_of_lt_succ code.isLt) hcode
  -- zero has no leading digit and a text of its own
  by_cases hzero : code.val = 0
  · refine ⟨.zero, ?_, ?_⟩
    · rw [Scientific.value_zero, Layout.read?_zero (by omega)]
      exact congrArg some (Fin.ext hzero.symm)
    · rw [Binary.Number.text, if_neg hcode, if_pos hzero]
      exact htext _
  · have hpos := Nat.pos_of_ne_zero hzero
    obtain ⟨hne, hdigits⟩ := Layout.digits_shortest (l := l) hpos
    obtain ⟨s, hs, hvalue⟩ := exists_scientific hne hdigits
    refine ⟨s, ?_, ?_⟩
    · rw [hvalue, Layout.read?_shortest hpos hlt]
    · rw [Binary.Number.text, if_neg hcode, if_neg hzero, hs]
      exact htext _

end ArrayBridge.Java
