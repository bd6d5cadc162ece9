import ArrayBridge.Proofs.Java.Tokens

/-!
# Texts of tokens

Each kind of token is scanned back from its text, if the token ends where its text ends, for which
it depends on what follows. A text with a literal that runs past its line is refused as a whole.

Main results:

* `Spells.append` — texts one after the other.
* `spells_identifier`, `spells_numeral`, `spells_charLit`, `spells_stringLit` — the texts of single
  tokens.
-/

namespace ArrayBridge.Java

/-! ## Texts one after the other -/

/-- A text is scanned as some tokens under a condition and is refused without it, before all that
may follow. -/
structure Spells (a : Alphabet) (text : List Char) (follows : List Char → Prop) (p : Prop)
    (ts : List Token) : Prop where
  scans : p → ∀ rest, follows rest → scan a (text ++ rest) = (scan a rest).map (ts ++ ·)
  refused : ¬ p → ∀ rest, follows rest → scan a (text ++ rest) = none

/-- What may follow a token that is at its end by itself. -/
def Anything (_ : List Char) : Prop := True

namespace Spells

variable {a : Alphabet} {text text₁ text₂ : List Char}
  {follows follows₁ follows₂ : List Char → Prop} {p p₁ p₂ : Prop} {ts ts₁ ts₂ : List Token}

/-- Texts that are spelled one after the other, where the second begins with something that may
follow the first. -/
theorem append (h₁ : Spells a text₁ follows₁ p₁ ts₁) (h₂ : Spells a text₂ follows₂ p₂ ts₂)
    (h : ∀ rest, follows₂ rest → follows₁ (text₂ ++ rest)) :
    Spells a (text₁ ++ text₂) follows₂ (p₁ ∧ p₂) (ts₁ ++ ts₂) where
  scans := by
    rintro ⟨hp₁, hp₂⟩ rest hrest
    rw [List.append_assoc, h₁.scans hp₁ _ (h rest hrest), h₂.scans hp₂ rest hrest]
    cases scan a rest <;> simp
  refused hp rest hrest := by
    rw [List.append_assoc]
    by_cases hp₁ : p₁
    · rw [h₁.scans hp₁ _ (h rest hrest), h₂.refused (fun hp₂ => hp ⟨hp₁, hp₂⟩) rest hrest]
      rfl
    · exact h₁.refused hp₁ _ (h rest hrest)

/-- What may follow can be restricted. -/
theorem mono (h₁ : Spells a text follows₁ p₁ ts) (hp : p₁ ↔ p₂)
    (h : ∀ rest, follows₂ rest → follows₁ rest) : Spells a text follows₂ p₂ ts where
  scans hp₂ rest hrest := h₁.scans (hp.mpr hp₂) rest (h rest hrest)
  refused hp₂ rest hrest := h₁.refused (mt hp.mp hp₂) rest (h rest hrest)

theorem nil : Spells a [] follows True [] where
  scans _ rest _ := by cases h : scan a rest <;> simp [h]
  refused h := absurd trivial h

end Spells

/-! ## Texts of units -/

section

variable {a : Alphabet} {text rest : List Char} {us more : List UInt16} {ts ts' : List Token}
  {s : Scanning} {follows : List Char → Prop}

/-- A text whose escapes are all complete is scanned in front of any other. -/
theorem scan_append (htext : translator.feed .text text = some (us, .text)) (rest : List Char) :
    scan a (text ++ rest) =
      (translator.run .text rest).bind fun more => (scanner a).run .idle (us ++ more) := by
  rw [scan, Machine.run_append, htext, Option.bind_some]
  cases translator.run .text rest <;> rfl

/-- A text is scanned as it would be alone if its last token takes nothing that follows. -/
theorem Spells.of_feed (htext : translator.feed .text text = some (us, .text))
    (hfeed : (scanner a).feed .idle us = some (ts, s)) (hs : s.pending a = some ts')
    (hends : ∀ rest, follows rest → ∀ more, translator.run .text rest = some more →
      ∀ u ∈ more.head?, s.takes u = false) :
    Spells a text follows True (ts ++ ts') where
  scans _ rest hrest := by
    rw [scan_append htext, scan]
    cases hmore : translator.run .text rest with
    | none => rfl
    | some more =>
      -- The next unit is not of the token that is pending, which therefore ends here.
      rw [Option.bind_some, Option.bind_some, Machine.run_append, hfeed, Option.bind_some,
        run_scanner_of_not_takes (hends rest hrest more hmore), hs, Option.bind_some]
      cases (scanner a).run .idle more <;> simp
  refused h := absurd trivial h

/-- A text that is refused in the middle spells nothing, whatever follows. -/
theorem Spells.of_refused (htext : translator.feed .text text = some (us, .text))
    (hfeed : (scanner a).feed .idle us = none) : Spells a text follows False ts where
  scans := False.elim
  refused _ rest _ := by
    rw [scan_append htext]
    cases translator.run .text rest with
    | none => rfl
    | some more => rw [Option.bind_some, Machine.run_append, hfeed, Option.bind_none]

/-- A text after which no token has begun. -/
theorem Spells.of_idle (htext : translator.feed .text text = some (us, .text))
    (hfeed : (scanner a).feed .idle us = some (ts, .idle)) : Spells a text follows True ts := by
  have h : Spells a text follows True (ts ++ []) :=
    of_feed htext hfeed (s := .idle) rfl fun _ _ _ _ _ _ => rfl
  rwa [List.append_nil] at h

theorem units_ne_nil (c : Char) : units c ≠ [] := by
  rcases units_cases c with ⟨u, hu, -⟩ | ⟨high, low, hu, -⟩ <;>
    exact hu ▸ List.cons_ne_nil _ _

/-- The first unit of a text belongs to its first character, unless that may begin an escape. -/
theorem exists_head? (h : translator.run .text rest = some more)
    (hplain : '\\' ∉ rest.head?) {u : UInt16} (hu : u ∈ more.head?) :
    ∃ c ∈ rest.head?, u ∈ units c := by
  cases rest with
  | nil =>
    injection h with h
    rw [← h] at hu
    cases hu
  | cons c cs =>
    -- Only a backslash can start an escape, so the units of the character come out as they are.
    have hc : c ≠ '\\' := by
      rintro rfl
      exact hplain rfl
    obtain ⟨v, vs, hv⟩ := List.exists_cons_of_ne_nil (units_ne_nil c)
    rw [← List.singleton_append, Machine.run_append, feed_translator_of_ne hc,
      Option.bind_some] at h
    obtain ⟨out, -, hout⟩ := Option.map_eq_some_iff.mp h
    rw [← hout, hv] at hu
    exact ⟨c, rfl, by rw [hv, Option.some.inj hu]; exact List.mem_cons_self⟩

/-- Without a backslash there is nothing to translate. -/
theorem feed_translator_of_not_mem {cs : List Char} (h : '\\' ∉ cs) :
    translator.feed .text cs = some (cs.flatMap units, .text) := by
  have hcs : cs.flatMap (fun c => [c]) = cs := by simp
  have hfeed := Machine.feed_flatMap (m := translator) (s := .text) (f := fun c => [c]) (g := units)
    fun c (hc : c ∈ cs) => feed_translator_of_ne fun heq => h (heq ▸ hc)
  rwa [hcs] at hfeed

end

/-! ## What follows an operand -/

/-- The characters that may follow an operand. A point or a sign would go on with a number. -/
def followers (numeric : Bool) : List Char :=
  [' ', '(', ')', '[', ']', '\x7d', ','] ++ if numeric then [] else ['.', '+']

/-- Whether a text may follow an operand. -/
def MayFollow (numeric : Bool) (rest : List Char) : Prop := ∀ c ∈ rest.head?, c ∈ followers numeric

theorem MayFollow.of_mem {numeric : Bool} {c : Char} (h : c ∈ followers numeric)
    (rest : List Char) : MayFollow numeric (c :: rest) := by
  rintro d ⟨⟩
  exact h

/-- What may follow a number may follow a word. -/
theorem MayFollow.weaken {numeric : Bool} {rest : List Char} (h : MayFollow true rest) :
    MayFollow numeric rest := by
  intro c hc
  have hmem := h c hc
  cases numeric with
  | true => exact hmem
  | false =>
    rw [followers] at hmem ⊢
    exact List.mem_append_left _ (by simpa using hmem)

/-- What may follow an operand belongs to no word, and to no number. -/
theorem MayFollow.not_word {numeric : Bool} {rest : List Char} {more : List UInt16}
    (h : MayFollow numeric rest) (hmore : translator.run .text rest = some more) {u : UInt16}
    (hu : u ∈ more.head?) :
    isWordUnit u = false ∧ (numeric = true → u ∉ [0x2e, 0x2b, 0x2d]) := by
  have hplain : '\\' ∉ followers numeric := by cases numeric <;> decide
  have hword : ((followers numeric).flatMap units).all fun u =>
      !isWordUnit u && (!numeric || !([0x2e, 0x2b, 0x2d].contains u)) := by
    cases numeric <;> rfl
  obtain ⟨c, hc, hunit⟩ := exists_head? hmore (fun hmem => hplain (h _ hmem)) hu
  have hall := List.all_eq_true.mp hword u (List.mem_flatMap.mpr ⟨c, h c hc, hunit⟩)
  simp only [Bool.and_eq_true, Bool.not_eq_true', Bool.or_eq_true, List.contains_eq_mem,
    decide_eq_false_iff_not] at hall
  exact ⟨hall.1, fun hnumeric => hall.2.resolve_left (by simp [hnumeric])⟩

/-! ## Words -/

theorem isBlank_of_word {u : UInt16} (h : isWordUnit u = true) : isBlank u = false := by
  by_contra hblank
  rw [Bool.not_eq_false] at hblank
  simp only [isBlank, Bool.or_eq_true, beq_iff_eq] at hblank
  rcases hblank with (((rfl | rfl) | rfl) | rfl) | rfl <;> exact absurd h (by decide)

/-- A character of the ASCII range is a unit by itself. -/
theorem toNat_of_mem_units_of_lt {c : Char} {u : UInt16} (h : u ∈ units c) (hc : c.toNat < 0x80) :
    u.toNat = c.toNat := by
  rcases units_cases c with ⟨v, hv, hvalue⟩ | ⟨_, _, -, -, -, hvalue⟩
  · rw [hv, List.mem_singleton] at h
    rw [h, hvalue]
  · omega

section

variable {a : Alphabet} {c : Char} {u : UInt16}

/-- A letter is no digit and belongs to a word. -/
theorem isWordUnit_of_alpha (h : c.isAlpha = true) (hu : u ∈ units c) :
    isWordUnit u = true ∧ isDigit u = false := by
  have hcase : (decide (0x41 ≤ c.val ∧ c.val ≤ 0x5a) ||
      decide (0x61 ≤ c.val) && decide (c.val ≤ 0x7a)) = true := h
  simp only [Bool.or_eq_true, Bool.and_eq_true, decide_eq_true_eq,
    UInt32.le_iff_toNat_le] at hcase
  have hletter : (0x41 ≤ c.toNat ∧ c.toNat ≤ 0x5a) ∨ (0x61 ≤ c.toNat ∧ c.toNat ≤ 0x7a) := hcase
  have hvalue := toNat_of_mem_units_of_lt hu (by omega)
  simp only [isWordUnit, isDigit, Bool.or_eq_true, Bool.and_eq_true, Bool.and_eq_false_iff,
    decide_eq_true_eq, decide_eq_false_iff_not, UInt16.le_iff_toNat_le, hvalue,
    UInt16.reduceToNat]
  omega

theorem toNat_of_mem_units_of_digit (h : c.isDigit = true) (hu : u ∈ units c) :
    u.toNat = c.toNat := by
  simp only [Char.isDigit, Bool.and_eq_true, decide_eq_true_eq, UInt32.le_iff_toNat_le,
    ge_iff_le] at h
  exact toNat_of_mem_units_of_lt hu (Nat.lt_of_le_of_lt h.2 (by decide))

/-- Digits are units of words and of numbers, -/
theorem isWordUnit_of_digit (h : c.isDigit = true) (hu : u ∈ units c) :
    isWordUnit u = true ∧ isDigit u = true := by
  have hvalue := toNat_of_mem_units_of_digit h hu
  simp only [Char.isDigit, Bool.and_eq_true, decide_eq_true_eq, UInt32.le_iff_toNat_le,
    ge_iff_le] at h
  have hdigit : isDigit u = true := by
    simp only [isDigit, Bool.and_eq_true, decide_eq_true_eq, UInt16.le_iff_toNat_le, hvalue]
    exact h
  exact ⟨by simp [isWordUnit, hdigit], hdigit⟩

/-- characters that open a name are none of numbers, -/
theorem isWordUnit_of_open (h : isOpen c = true) (hu : u ∈ units c) :
    isWordUnit u = true ∧ isDigit u = false := by
  have hopen := List.all_eq_true.mp h u hu
  refine ⟨by rw [isWordUnit, hopen, Bool.or_true], ?_⟩
  by_contra hdigit
  simp only [isDigit, Bool.not_eq_false, Bool.and_eq_true, decide_eq_true_eq,
    UInt16.le_iff_toNat_le] at hdigit
  simp only [isPrintable, Bool.and_eq_true, Bool.not_eq_true', Bool.and_eq_false_iff,
    decide_eq_false_iff_not, UInt16.le_iff_toNat_le] at hopen
  simp only [UInt16.reduceToNat] at hdigit hopen
  omega

/-- and so are those that may start an identifier, -/
theorem isWordUnit_of_start (h : a.isStart c = true) (hu : u ∈ units c) :
    isWordUnit u = true ∧ isDigit u = false := by
  simp only [Alphabet.isStart, Bool.or_eq_true, Bool.and_eq_true, beq_iff_eq] at h
  rcases h with ((halpha | rfl) | rfl) | hopen
  · exact isWordUnit_of_alpha halpha hu
  · rw [List.mem_singleton.mp hu]
    exact ⟨rfl, rfl⟩
  · rw [List.mem_singleton.mp hu]
    exact ⟨rfl, rfl⟩
  · exact isWordUnit_of_open hopen.1 hu

/-- and those that go on with it are units of words. -/
theorem isWordUnit_of_part (h : a.isPart c = true) (hu : u ∈ units c) : isWordUnit u = true := by
  simp only [Alphabet.isPart, Bool.or_eq_true, Bool.and_eq_true] at h
  rcases h with (hstart | hdigit) | hopen
  · exact (isWordUnit_of_start hstart hu).1
  · exact (isWordUnit_of_digit hdigit hu).1
  · exact (isWordUnit_of_open hopen.1 hu).1

end

section

variable {a : Alphabet} {c : Char} {cs : List Char} {t : Token}

/-- A word goes on as long as its units do. -/
theorem feed_word {us us' : List UInt16} (h : ∀ u ∈ us', isWordUnit u = true) :
    (scanner a).feed (.word us) us' = some ([], .word (us ++ us')) := by
  induction us' generalizing us with
  | nil => rw [List.append_nil]; rfl
  | cons u us' ih =>
    rw [Machine.feed, step_scanner_of_takes (s := .word us) (h u List.mem_cons_self)]
    simp only [Scanning.take, Option.map_some, Option.bind_some,
      ih fun u' hu' => h u' (List.mem_cons_of_mem u hu'), List.append_assoc, List.singleton_append,
      List.append_nil]

/-- A word as a whole, from its first unit on. -/
theorem feed_idle_word {u : UInt16} {us : List UInt16} (hdigit : isDigit u = false)
    (h : ∀ v ∈ u :: us, isWordUnit v = true) :
    (scanner a).feed .idle (u :: us) = some ([], .word (u :: us)) := by
  have hu := h u List.mem_cons_self
  have hstep : (scanner a).step .idle u = some ([], .word [u]) := by
    show (Scanning.begin? u).map ([], ·) = _
    rw [Scanning.begin?, isBlank_of_word hu, hdigit, hu]
    rfl
  rw [Machine.feed, hstep, Option.bind_some, feed_word fun v hv => h v (List.mem_cons_of_mem u hv)]
  rfl

/-- A word is scanned as the token that it is as a whole. -/
theorem spells_word (hfirst : ∀ u ∈ units c, isDigit u = false)
    (hword : ∀ d ∈ c :: cs, ∀ u ∈ units d, isWordUnit u = true)
    (htoken : a.word? (c :: cs) = some t) : Spells a (c :: cs) (MayFollow false) True [t] := by
  have hplain : '\\' ∉ c :: cs := fun hmem => absurd (hword _ hmem 0x5c (by decide)) (by decide)
  have hunits : ∀ u ∈ (c :: cs).flatMap units, isWordUnit u = true := by
    intro u hu
    obtain ⟨d, hd, hmem⟩ := List.mem_flatMap.mp hu
    exact hword d hd u hmem
  obtain ⟨u, us, hus⟩ := List.exists_cons_of_ne_nil (units_ne_nil c)
  have hdigit := hfirst u (by rw [hus]; exact List.mem_cons_self)
  have htext := feed_translator_of_not_mem hplain
  have hdecode := decode_units (c :: cs)
  rw [List.flatMap_cons, hus, List.cons_append] at htext hunits hdecode
  -- All units are taken up before the word is looked at: no token comes out, and one is pending.
  show Spells a (c :: cs) (MayFollow false) True ([] ++ [t])
  refine .of_feed htext (feed_idle_word hdigit hunits) ?_ ?_
  · simp only [Scanning.pending, Scanning.token?, hdecode, Option.bind_some, htoken,
      Option.map_some]
  · exact fun rest hrest more hmore v hv => (hrest.not_word hmore hv).1

/-- A word that is not reserved is no keyword. -/
theorem keyword?_eq_none {n : String} (h : n ∉ reservedWords) : keyword? n = none := by
  have hkind : Kind.ofNativeName? n = none := by
    refine List.find?_eq_none.mpr fun k _ hk => h ?_
    rw [← beq_iff_eq.mp hk]
    cases k <;> decide
  have hne : ∀ w ∈ ["new", "class", "null", "true", "false"], n ≠ w := by
    rintro w hw rfl
    exact h ((by decide : ∀ w ∈ ["new", "class", "null", "true", "false"], w ∈ reservedWords) n hw)
  rw [keyword?, if_neg (hne _ (by decide)), if_neg (hne _ (by decide)), if_neg (hne _ (by decide)),
    if_neg (hne _ (by decide)), if_neg (hne _ (by decide)), hkind]
  rfl

/-- An identifier is scanned as a name. -/
theorem spells_identifier {n : String} (h : a.IsIdentifier n) :
    Spells a n.toList (MayFollow false) True [.name n] := by
  obtain ⟨hspells, hreserved⟩ := id h
  cases hcs : n.toList with
  | nil =>
    rw [hcs] at hspells
    cases hspells
  | cons c cs =>
    have hn : String.ofList (c :: cs) = n := by rw [← hcs, String.ofList_toList]
    rw [hcs, Alphabet.spellsWord, Bool.and_eq_true] at hspells
    refine spells_word (fun u hu => (isWordUnit_of_start hspells.1 hu).2) ?_ ?_
    · intro d hd u hu
      rcases List.mem_cons.mp hd with rfl | hd
      · exact (isWordUnit_of_start hspells.1 hu).1
      · exact isWordUnit_of_part (List.all_eq_true.mp hspells.2 d hd) hu
    · rw [Alphabet.word?, hn, keyword?_eq_none hreserved]
      exact if_pos h

end

/-! ## Numerals -/

/-- Whether a text belongs to any numeral that it follows. -/
structure ContinuesNumber (a : Alphabet) (text : List Char) : Prop where
  plain : '\\' ∉ text
  feed (us : List UInt16) :
    (scanner a).feed (.number us) (text.flatMap units) =
      some ([], .number (us ++ text.flatMap units))

section

variable {a : Alphabet} {c : Char} {cs text text₁ text₂ : List Char} {n : Numeral}

/-- Parts of a number are a part of it. -/
theorem ContinuesNumber.append (h₁ : ContinuesNumber a text₁) (h₂ : ContinuesNumber a text₂) :
    ContinuesNumber a (text₁ ++ text₂) where
  plain hmem := (List.mem_append.mp hmem).elim h₁.plain h₂.plain
  feed us := by
    rw [List.flatMap_append, Machine.feed_append, h₁.feed, Option.bind_some, h₂.feed,
      Option.map_some, List.append_assoc]
    rfl

/-- Word units and points go on with a number. -/
theorem ContinuesNumber.of_forall
    (h : ∀ c ∈ text, ∀ u ∈ units c, isWordUnit u = true ∨ u = 0x2e) : ContinuesNumber a text where
  plain hmem := absurd (h _ hmem 0x5c (by decide)) (by decide)
  feed us := by
    have hunits : ∀ u ∈ text.flatMap units, isWordUnit u = true ∨ u = 0x2e := by
      intro u hu
      obtain ⟨c, hc, hmem⟩ := List.mem_flatMap.mp hu
      exact h c hc u hmem
    -- The units are taken up one by one, whichever characters they come from.
    generalize text.flatMap units = more at hunits
    induction more generalizing us with
    | nil => rw [List.append_nil]; rfl
    | cons u more ih =>
      have htakes : (Scanning.number us).takes u = true := by
        rcases hunits u List.mem_cons_self with hu | rfl
        · simp [Scanning.takes, hu]
        · rfl
      rw [Machine.feed, step_scanner_of_takes htakes]
      simp only [Scanning.take, Option.map_some, Option.bind_some, List.append_nil,
        ih _ fun u' hu' => hunits u' (List.mem_cons_of_mem u hu'), List.append_assoc,
        List.singleton_append]

theorem ContinuesNumber.of_all
    (h : ((text.flatMap units).all fun u => isWordUnit u || u == 0x2e) = true) :
    ContinuesNumber a text :=
  .of_forall fun c hc u hu => by
    simpa using List.all_eq_true.mp h u (List.mem_flatMap.mpr ⟨c, hc, hu⟩)

theorem ContinuesNumber.of_digits (h : ∀ c ∈ text, c.isDigit = true) : ContinuesNumber a text :=
  .of_forall fun c hc _ hu => .inl (isWordUnit_of_digit (h c hc) hu).1

/-- Behind the mark of an exponent, a sign belongs to its numeral. -/
theorem continuesNumber_sign : ContinuesNumber a ['e', '-'] where
  plain := by decide
  feed us := by
    have hmark : (scanner a).step (.number us) 0x65 = some ([], .number (us ++ [0x65])) := rfl
    have hsign : (Scanning.number (us ++ [0x65])).takes 0x2d = true := by simp [Scanning.takes]
    show (scanner a).feed (.number us) [0x65, 0x2d] = some ([], .number (us ++ [0x65, 0x2d]))
    rw [Machine.feed, hmark, Option.bind_some, Machine.feed_singleton, step_scanner_of_takes hsign]
    simp [Scanning.take]

/-- What stands behind the first digits of a decimal belongs to the numeral. -/
theorem Scientific.continuesNumber (s : Scientific) {suffix : List Char} (h : IsSuffix suffix) :
    ContinuesNumber a (s.fractionText ++ s.exponentText ++ suffix) := by
  have hsuffix : ContinuesNumber a suffix := by
    rcases h with rfl | rfl <;> exact .of_all rfl
  have hfraction : ContinuesNumber a s.fractionText := by
    rw [fractionText]
    split
    · exact .of_all rfl
    -- a point belongs to a numeral as digits do
    · have hpoint : ContinuesNumber a ['.'] := .of_all rfl
      exact hpoint.append (.of_digits s.isDigit_fraction)
  have hexponent : ContinuesNumber a s.exponentText := by
    rw [exponentText]
    cases s.exponent with
    | none => exact .of_all rfl
    | some n =>
      have hdigits : ContinuesNumber a (Nat.toDigits 10 n.natAbs) :=
        .of_digits fun c => isDigit_of_mem_toDigits
      rw [Option.elim_some, toList_toString]
      split
      · exact continuesNumber_sign.append hdigits
      · have hmark : ContinuesNumber a ['e'] := .of_all rfl
        exact hmark.append hdigits
  exact (hfraction.append hexponent).append hsuffix

/-- A numeral is scanned as what it is read as. -/
theorem spells_numeral (hdigit : c.isDigit = true) (htext : ContinuesNumber a cs)
    (hread : readNumeral (c :: cs) = some n) :
    Spells a (c :: cs) (MayFollow true) True [.numeral n] := by
  have hword (u : UInt16) (hu : u ∈ units c) := isWordUnit_of_digit hdigit hu
  have hplain : '\\' ∉ c :: cs := by
    rw [List.mem_cons, not_or]
    refine ⟨?_, htext.plain⟩
    rintro rfl
    exact absurd hdigit (by decide)
  -- the first unit begins the numeral, and the others continue it
  obtain ⟨u, us, hus⟩ := List.exists_cons_of_ne_nil (units_ne_nil c)
  obtain ⟨hu, hd⟩ := hword u (by rw [hus]; exact List.mem_cons_self)
  have hfirst : ContinuesNumber a [c] := .of_digits (by simpa using hdigit)
  have hstep : (scanner a).step .idle u = (scanner a).step (.number []) u := by
    have htakes : (Scanning.number []).takes u = true := by simp [Scanning.takes, hu]
    rw [step_scanner_of_takes htakes]
    show (Scanning.begin? u).map ([], ·) = _
    rw [Scanning.begin?, isBlank_of_word hu, hd]
    rfl
  have hfeed : (scanner a).feed .idle ((c :: cs).flatMap units) =
      some ([], .number ((c :: cs).flatMap units)) := by
    have hall := (hfirst.append htext).feed []
    rw [List.singleton_append, List.nil_append] at hall
    rw [← hall, List.flatMap_cons, hus, List.cons_append, Machine.feed, Machine.feed, hstep]
  show Spells a (c :: cs) (MayFollow true) True ([] ++ [.numeral n])
  refine .of_feed (feed_translator_of_not_mem hplain) hfeed ?_ ?_
  · simp only [Scanning.pending, Scanning.token?, decode_units, Option.bind_some, hread,
      Option.map_some]
  · intro rest hrest more hmore v hv
    obtain ⟨hnot, hsign⟩ := hrest.not_word hmore hv
    have hne := hsign rfl
    simp only [List.mem_cons, List.not_mem_nil, or_false, not_or] at hne
    simp [Scanning.takes, hnot, hne]

/-- A sign stands by itself before a digit. -/
theorem spells_minus :
    Spells a ['-'] (fun rest => ∃ c cs, rest = c :: cs ∧ c.isDigit = true) True [.minus] := by
  have htext : translator.feed .text ['-'] = some ([0x2d], .text) := rfl
  have hfeed : (scanner a).feed .idle [0x2d] = some ([], .sign ['-']) := rfl
  refine .of_feed htext hfeed rfl ?_
  rintro rest ⟨c, cs, rfl, hdigit⟩ more hmore u hu
  have hplain : '\\' ∉ (c :: cs).head? := by
    rintro ⟨⟩
    exact absurd hdigit (by decide)
  obtain ⟨d, ⟨⟩, hmem⟩ := exists_head? hmore hplain hu
  -- No sign that starts with a minus goes on with a digit.
  have hne (d : Char) (hd : d.isDigit = false) : c ≠ d := by
    rintro rfl
    rw [hdigit] at hd
    cases hd
  simp only [Scanning.takes, toNat_of_mem_units_of_digit hdigit hmem, Char.ofNat_toNat]
  simp [isSign, signs, otherSigns, hne '-' rfl, hne '=' rfl, hne '>' rfl]

end

/-! ## Literals -/

section

variable {a : Alphabet} {quote : UInt16} {us piece : List UInt16} {state : Lexing}

/-- The scanner reads a literal as the second stage does. -/
theorem feed_literal {state' : Lexing} {out : List UInt16}
    (h : (lexer quote).feed state piece = some (out, state')) :
    (scanner a).feed (.literal quote us state) piece =
      some ([], .literal quote (us ++ out) state') := by
  induction piece generalizing us state out with
  | nil =>
    injection h with h
    injection h with hout hstate
    rw [← hout, ← hstate, List.append_nil]
    rfl
  | cons u piece ih =>
    rw [Machine.feed] at h
    obtain ⟨first, hstep, hrest⟩ := Option.bind_eq_some_iff.mp h
    obtain ⟨⟨more, last⟩, hmore, heq⟩ := Option.map_eq_some_iff.mp hrest
    obtain ⟨rfl, rfl⟩ := Prod.mk.inj heq
    -- Only a closed literal takes nothing more, and the lexer does not leave that state either.
    have htakes : (Scanning.literal quote us state).takes u = true := by
      cases state with
      | closed => cases hstep
      | _ => rfl
    rw [Machine.feed, step_scanner_of_takes htakes, Scanning.take, hstep]
    simp only [Option.map_some, Option.bind_some, ih hmore, List.append_assoc, List.append_nil]

theorem step_quote (h : quote = 0x22 ∨ quote = 0x27) :
    (scanner a).step .idle quote = some ([], .literal quote [] .plain) := by
  rcases h with rfl | rfl <;> rfl

/-- A literal is scanned as what it denotes. -/
theorem spells_literal {q : Char} {body : List Char} {t : Token} {follows : List Char → Prop}
    (hquote : quote = 0x22 ∨ quote = 0x27) (hq : q ≠ '\\') (hunits : units q = [quote])
    (hbody : translator.feed .text body = some (piece, .text))
    (hpiece : (lexer quote).feed .plain piece = some (us, .plain))
    (htoken : Scanning.literalToken? quote us = some t) :
    Spells a (q :: body ++ [q]) follows True [t] := by
  -- The lexer of the literal reads the body and then the quote that closes it.
  have hclose : (lexer quote).feed .plain [quote] = some ([], .closed) := by
    rw [Machine.feed_singleton]
    exact if_pos rfl
  have hliteral : (lexer quote).feed .plain (piece ++ [quote]) = some (us, .closed) := by
    rw [Machine.feed_append, hpiece, Option.bind_some, hclose, Option.map_some, List.append_nil]
  have hfeed : (scanner a).feed .idle (quote :: piece ++ [quote]) =
      some ([], .literal quote us .closed) := by
    rw [List.cons_append, Machine.feed, step_quote hquote, Option.bind_some, feed_literal hliteral]
    rfl
  show Spells a (q :: body ++ [q]) follows True ([] ++ [t])
  refine .of_feed (feed_translator_quoted hq hunits hbody) hfeed ?_ ?_
  · simp only [Scanning.pending, Scanning.token?, htoken, Option.map_some]
  · exact fun _ _ _ _ _ _ => rfl

/-- A literal is refused at a unit that it cannot hold. -/
theorem refused_literal {q : Char} {body : List Char} {u : UInt16} {before after : List UInt16}
    {ts : List Token} {follows : List Char → Prop}
    (hquote : quote = 0x22 ∨ quote = 0x27) (hq : q ≠ '\\') (hunits : units q = [quote])
    (hbody : translator.feed .text body = some (before ++ u :: after, .text))
    (hbefore : (lexer quote).feed .plain before = some (us, .plain))
    (hu : lexPlain quote u = none) : Spells a (q :: body ++ [q]) follows False ts := by
  have hstep : (scanner a).step (.literal quote us .plain) u = none := by
    have hlexer : (lexer quote).step .plain u = none := hu
    rw [step_scanner_of_takes rfl, Scanning.take, hlexer]
    rfl
  refine .of_refused (feed_translator_quoted hq hunits hbody) ?_
  rw [List.cons_append, List.append_assoc, Machine.feed, step_quote hquote, Option.bind_some,
    Machine.feed_append, feed_literal hbefore, List.cons_append, List.nil_append, Option.bind_some,
    Machine.feed, hstep]
  rfl

/-- A character literal is scanned as its unit, unless that ends the line. -/
theorem spells_charLit (u : UInt16) :
    Spells a (charLit u) Anything (u ≠ 0x0a ∧ u ≠ 0x0d) [.char u] := by
  obtain ⟨body, hlit, hbody⟩ := exists_body_charLit u
  rw [hlit]
  by_cases hend : u = 0x0a ∨ u = 0x0d
  -- A line terminator stands in the literal as itself once its escape has been translated.
  · have hpiece : charPiece u = [] ++ u :: [] := by rcases hend with rfl | rfl <;> rfl
    have hrefused : lexPlain 0x27 u = none := by rcases hend with rfl | rfl <;> rfl
    rw [hpiece] at hbody
    have h : Spells a ('\'' :: body ++ ['\'']) Anything False [.char u] :=
      refused_literal (.inr rfl) (by decide) rfl hbody rfl hrefused
    exact h.mono (by simpa [or_iff_not_imp_left] using hend) fun _ => id
  · have hpiece := feed_lexer_charPiece u
    rw [if_neg hend] at hpiece
    have h : Spells a ('\'' :: body ++ ['\'']) Anything True [.char u] :=
      spells_literal (.inr rfl) (by decide) rfl hbody hpiece rfl
    exact h.mono (by simpa [not_or] using hend) fun _ => id

/-- A string literal is scanned as its string, unless that has a carriage return, which ends the
line. -/
theorem spells_stringLit (s : String) :
    Spells a (stringLit s) Anything ('\r' ∉ s.toList) [.string s] := by
  have hbody := Machine.feed_flatMap fun c (_ : c ∈ s.toList) => feed_translator_stringChar c
  by_cases hreturn : '\r' ∈ s.toList
  · -- its escape is translated before literals are read, so the line ends at the first one
    obtain ⟨before, after, hs, hbefore⟩ := List.eq_append_cons_of_mem hreturn
    have hpieces := feed_lexer_stringPieces before
    have hsplit : s.toList.flatMap stringPiece =
        before.flatMap stringPiece ++ 0x0d :: after.flatMap stringPiece := by
      rw [hs, List.flatMap_append, List.flatMap_cons]
      rfl
    rw [if_neg hbefore] at hpieces
    rw [hsplit] at hbody
    have h : Spells a (stringLit s) Anything False [.string s] :=
      refused_literal (.inl rfl) (by decide) rfl hbody hpieces rfl
    exact h.mono (by simpa using hreturn) fun _ => id
  · have hpieces := feed_lexer_stringPieces s.toList
    rw [if_neg hreturn] at hpieces
    have htoken : Scanning.literalToken? 0x22 (s.toList.flatMap units) = some (.string s) := by
      unfold Scanning.literalToken?
      rw [if_neg (by decide), decode_units, Option.map_some, String.ofList_toList]
    have h : Spells a (stringLit s) Anything True [.string s] :=
      spells_literal (.inl rfl) (by decide) rfl hbody hpieces htoken
    exact h.mono (by simpa using hreturn) fun _ => id

end

end ArrayBridge.Java
