import ArrayBridge.Java.Print

/-!
# Literals as Java reads them

Java reads source text in two stages. Unicode escapes are translated first, wherever they stand;
what comes out is then taken apart into tokens, and only that stage knows of literals and of the
escapes in them. An escape that is written for the second stage may therefore be undone by the
first: a line terminator that is written as a Unicode escape ends the line in the middle of its
literal.

Each stage is a machine that is fed one item after another.

Main results:

* `feed_translator_unicodeEscape` — a Unicode escape is translated to its unit.
* `feed_translator_stringChar`, `feed_lexer_stringPiece` — what each stage makes of a character in a
  string.
* `read_print_literal` — which literals denote what they are written for, and that the others are
  refused.
-/

namespace ArrayBridge.Java

/-! ## Machines -/

/-- A machine that puts out items as it is fed others. It may refuse what it is fed, and may refuse
to stop where it is. -/
structure Machine (State Input Output : Type) where
  step : State → Input → Option (List Output × State)
  finish : State → Option (List Output)

namespace Machine

variable {State Input Output : Type} (m : Machine State Input Output)

/-- What a machine puts out as it is fed one item after another, and the state it ends in. -/
def feed (s : State) : List Input → Option (List Output × State)
  | [] => some ([], s)
  | i :: rest =>
    (m.step s i).bind fun first => (feed first.2 rest).map fun more => (first.1 ++ more.1, more.2)

/-- All that a machine puts out for an input. -/
def run (s : State) (input : List Input) : Option (List Output) :=
  (m.feed s input).bind fun fed => (m.finish fed.2).map (fed.1 ++ ·)

variable {m} {s s' : State} {out : List Output}

/-- A machine goes on from where it was left. -/
theorem feed_append (s : State) (xs ys : List Input) :
    m.feed s (xs ++ ys) =
      (m.feed s xs).bind fun fed =>
        (m.feed fed.2 ys).map fun more => (fed.1 ++ more.1, more.2) := by
  induction xs generalizing s with
  | nil => simp [feed]
  | cons x xs ih =>
    rw [List.cons_append, feed, feed]
    -- an input that is refused ends both in the same way
    cases m.step s x with
    | none => rfl
    | some first =>
      rw [Option.bind_some, Option.bind_some, ih]
      cases m.feed first.2 xs with
      | none => rfl
      | some fed => simp [Function.comp_def]

/-- All that a machine puts out, from where it was left. -/
theorem run_append (s : State) (xs ys : List Input) :
    m.run s (xs ++ ys) =
      (m.feed s xs).bind fun fed => (m.run fed.2 ys).map (fed.1 ++ ·) := by
  rw [run, feed_append]
  cases m.feed s xs with
  | none => rfl
  | some fed =>
    simp only [Option.bind_some, run]
    cases m.feed fed.2 ys with
    | none => rfl
    | some more => simp [Function.comp_def]

theorem feed_singleton (s : State) (i : Input) : m.feed s [i] = m.step s i := by
  rw [feed]
  cases m.step s i <;> simp [feed]

/-- A machine that comes back to where it was after each part of its input. -/
theorem feed_flatMap {α : Type} {f : α → List Input} {g : α → List Output} {xs : List α}
    (h : ∀ x ∈ xs, m.feed s (f x) = some (g x, s)) :
    m.feed s (xs.flatMap f) = some (xs.flatMap g, s) := by
  induction xs with
  | nil => rfl
  | cons x xs ih =>
    have hrest := ih fun x' hx' => h x' (List.mem_cons_of_mem x hx')
    rw [List.flatMap_cons, List.flatMap_cons, feed_append, h x List.mem_cons_self,
      Option.bind_some, hrest]
    rfl

end Machine

/-! ## Unicode escapes -/

/-- How far the translation of Unicode escapes has come. -/
inductive Translating where
  /-- After an even number of backslashes. -/
  | text
  /-- After a backslash that may begin a Unicode escape. -/
  | backslash
  /-- After the beginning of an escape, whose mark may be repeated. -/
  | mark
  /-- Within an escape: how many digits are left, and the value of those before. -/
  | digits (left value : Nat)

/-- The value of a hexadecimal digit. -/
def hexDigit? (c : Char) : Option Nat :=
  if '0' ≤ c ∧ c ≤ '9' then some (c.toNat - '0'.toNat)
  else if 'a' ≤ c ∧ c ≤ 'f' then some (c.toNat - 'a'.toNat + 10)
  else if 'A' ≤ c ∧ c ≤ 'F' then some (c.toNat - 'A'.toNat + 10)
  else none

/-- The first stage: characters become UTF-16 units, and Unicode escapes the units that they name.
A backslash that follows another one begins no escape. -/
def translator : Machine Translating Char UInt16 where
  step
    | .text, c => if c = '\\' then some ([], .backslash) else some (units c, .text)
    | .backslash, c =>
      if c = 'u' then some ([], .mark) else some (units '\\' ++ units c, .text)
    | .mark, c =>
      if c = 'u' then some ([], .mark) else (hexDigit? c).map fun d => ([], .digits 3 d)
    | .digits left value, c => (hexDigit? c).map fun d =>
      if left = 1 then ([UInt16.ofNat (16 * value + d)], .text)
      else ([], .digits (left - 1) (16 * value + d))
  finish
    | .text => some []
    | .backslash => some (units '\\')
    -- an escape that is cut short
    | .mark | .digits .. => none

/-! ## Literals -/

/-- How far a literal has been read. -/
inductive Lexing where
  | plain
  /-- After a backslash. -/
  | escape
  /-- Within an octal escape: how many digits may follow, and the value of those before. -/
  | octal (left value : Nat)
  /-- After the closing quote. -/
  | closed

/-- The unit that a letter or a sign stands for after a backslash. -/
def escaped? (c : UInt16) : Option UInt16 :=
  if c = 0x62 then some 0x08
  else if c = 0x73 then some 0x20
  else if c = 0x74 then some 0x09
  else if c = 0x6e then some 0x0a
  else if c = 0x66 then some 0x0c
  else if c = 0x72 then some 0x0d
  else if c = 0x22 ∨ c = 0x27 ∨ c = 0x5c then some c
  else none

/-- The value of an octal digit. -/
def octalDigit? (c : UInt16) : Option Nat :=
  if 0x30 ≤ c ∧ c ≤ 0x37 then some (c.toNat - 0x30) else none

/-- Reads a unit that belongs to no escape. A literal does not go on past the end of its line. -/
def lexPlain (quote c : UInt16) : Option (List UInt16 × Lexing) :=
  if c = quote then some ([], .closed)
  else if c = 0x5c then some ([], .escape)
  else if c = 0x0a ∨ c = 0x0d then none
  else some ([c], .plain)

/-- The second stage, within a literal between the given quotes: the units that it denotes. -/
def lexer (quote : UInt16) : Machine Lexing UInt16 UInt16 where
  step
    | .plain, c => lexPlain quote c
    | .escape, c =>
      match escaped? c, octalDigit? c with
      | some u, _ => some ([u], .plain)
      -- three digits if the value stays below 256, else two
      | none, some d => some ([], .octal (if d ≤ 3 then 2 else 1) d)
      | none, none => none
    | .octal left value, c =>
      match octalDigit? c with
      | some d =>
        if left = 1 then some ([UInt16.ofNat (8 * value + d)], .plain)
        else some ([], .octal (left - 1) (8 * value + d))
      | none => (lexPlain quote c).map fun next => (UInt16.ofNat value :: next.1, next.2)
    | .closed, _ => none
  finish
    | .closed => some []
    | _ => none

/-- The units of the one literal between the given quotes that a text consists of. -/
def readLiteral (quote : UInt16) (text : List Char) : Option (List UInt16) :=
  match translator.run .text text with
  | some (c :: rest) => if c = quote then (lexer quote).run .plain rest else none
  | _ => none

/-- The unit of the character literal that a text consists of. -/
def readChar (text : List Char) : Option UInt16 :=
  match readLiteral 0x27 text with
  | some [c] => some c
  | _ => none

/-- The units of the string literal that a text consists of. -/
def readString (text : List Char) : Option (List UInt16) := readLiteral 0x22 text

/-! ## UTF-16 -/

/-- The encoding of characters in UTF-16: a unit each, or a surrogate pair beyond the first
65536. -/
inductive Utf16 : List Char → List UInt16 → Prop
  | nil : Utf16 [] []
  | unit {c : Char} {cs : List Char} {u : UInt16} {us : List UInt16} (h : u.toNat = c.toNat)
    (rest : Utf16 cs us) : Utf16 (c :: cs) (u :: us)
  | pair {c : Char} {cs : List Char} {high low : UInt16} {us : List UInt16}
    (hhigh : 0xd800 ≤ high.toNat ∧ high.toNat < 0xdc00)
    (hlow : 0xdc00 ≤ low.toNat ∧ low.toNat < 0xe000)
    (h : c.toNat = 0x10000 + (high.toNat - 0xd800) * 0x400 + (low.toNat - 0xdc00))
    (rest : Utf16 cs us) : Utf16 (c :: cs) (high :: low :: us)

theorem toNat_lt (c : Char) : c.toNat < 0x110000 := by
  rcases c.valid with h | h
  · exact Nat.lt_trans h (by decide)
  · exact h.2

theorem toNat_ofNat {n : Nat} (h : n < 0x10000) : (UInt16.ofNat n).toNat = n :=
  UInt16.toNat_ofNat_of_lt h

/-- A character is one unit, which has the number of the character, or a surrogate pair. -/
theorem units_cases (c : Char) :
    (∃ u, units c = [u] ∧ u.toNat = c.toNat) ∨
      ∃ high low, units c = [high, low] ∧ (0xd800 ≤ high.toNat ∧ high.toNat < 0xdc00) ∧
        (0xdc00 ≤ low.toNat ∧ low.toNat < 0xe000) ∧
        c.toNat = 0x10000 + (high.toNat - 0xd800) * 0x400 + (low.toNat - 0xdc00) := by
  have hlt := toNat_lt c
  rw [units]
  by_cases h : c.toNat < 0x10000
  · rw [if_pos h]
    exact .inl ⟨_, rfl, toNat_ofNat h⟩
  · -- a supplementary character: the upper and the lower ten bits of what is past the first plane
    have hhigh : 0xd800 + (c.toNat - 0x10000) / 0x400 < 0x10000 := by omega
    have hlow : 0xdc00 + (c.toNat - 0x10000) % 0x400 < 0x10000 := by omega
    rw [if_neg h]
    refine .inr ⟨_, _, rfl, ?_⟩
    rw [toNat_ofNat hhigh, toNat_ofNat hlow]
    omega

/-- The units of characters are their encoding. -/
theorem utf16_units (cs : List Char) : Utf16 cs (cs.flatMap units) := by
  induction cs with
  | nil => exact .nil
  | cons c cs ih =>
    rw [List.flatMap_cons]
    rcases units_cases c with ⟨u, hu, h⟩ | ⟨high, low, hu, hhigh, hlow, h⟩
    · rw [hu]
      exact .unit h ih
    · rw [hu]
      exact .pair hhigh hlow h ih

/-- A unit that is no surrogate is the character itself. -/
theorem toNat_of_mem_units {c : Char} {u : UInt16} (h : u ∈ units c) (hu : u.toNat < 0xd800) :
    u.toNat = c.toNat := by
  rcases units_cases c with ⟨v, hv, hc⟩ | ⟨high, low, hv, hhigh, hlow, -⟩
  · rw [hv, List.mem_singleton] at h
    rw [h, hc]
  · rw [hv, List.mem_cons, List.mem_singleton] at h
    rcases h with rfl | rfl <;> omega

/-- No unit of a character is that of another one, surrogates apart. -/
theorem ne_of_mem_units {c d : Char} {u v : UInt16} (h : u ∈ units c) (hcd : c ≠ d)
    (hv : v.toNat = d.toNat) (hd : d.toNat < 0xd800) : u ≠ v := by
  rintro rfl
  have hc := toNat_of_mem_units h (hv ▸ hd)
  exact hcd (Char.toNat_inj.mp (hc.symm.trans hv))

/-! ## The first stage -/

/-- Digits that are filled up with zeros: the last one, and those before it. -/
theorem toDigits_filled {width : Nat} (n : Nat) :
    List.replicate (width + 2 - (Nat.toDigits 16 n).length) '0' ++ Nat.toDigits 16 n =
      List.replicate (width + 1 - (Nat.toDigits 16 (n / 16)).length) '0' ++
        Nat.toDigits 16 (n / 16) ++ [Nat.digitChar (n % 16)] := by
  by_cases h : n < 16
  · -- the digit before the only one is a zero like those that fill up
    rw [Nat.toDigits_of_lt_base h, Nat.div_eq_of_lt h, Nat.mod_eq_of_lt h, Nat.toDigits_zero]
    show List.replicate (width + 1) '0' ++ [_] = List.replicate width '0' ++ ['0'] ++ [_]
    rw [List.replicate_succ']
  · have hle : 16 ≤ n := Nat.le_of_not_lt h
    have hlength : (Nat.toDigits 16 (n / 16) ++ [Nat.digitChar (n % 16)]).length =
        (Nat.toDigits 16 (n / 16)).length + 1 := List.length_append
    rw [Nat.toDigits_of_base_le (by decide) hle, hlength, ← List.append_assoc]
    congr 3
    omega

/-- The digits of a unit, each by its value. -/
theorem hex4_eq (u : UInt16) :
    hex4 u = [Nat.digitChar (u.toNat / 16 / 16 / 16), Nat.digitChar (u.toNat / 16 / 16 % 16),
      Nat.digitChar (u.toNat / 16 % 16), Nat.digitChar (u.toNat % 16)] := by
  have hlt : u.toNat / 16 / 16 / 16 < 16 := by
    have hu := u.toNat_lt
    omega
  show List.replicate (4 - (Nat.toDigits 16 u.toNat).length) '0' ++ Nat.toDigits 16 u.toNat = _
  rw [toDigits_filled, toDigits_filled, toDigits_filled, Nat.toDigits_of_lt_base hlt]
  rfl

/-- A hexadecimal digit is read as its value, -/
theorem hexDigit?_digitChar {d : Nat} (h : d < 16) : hexDigit? (Nat.digitChar d) = some d := by
  have hall : ∀ d < 16, hexDigit? (Nat.digitChar d) = some d := by decide
  exact hall d h

/-- and is not taken for a further `u` of the escape. -/
theorem digitChar_ne_u {d : Nat} (h : d < 16) : Nat.digitChar d ≠ 'u' := by
  have hall : ∀ d < 16, Nat.digitChar d ≠ 'u' := by decide
  exact hall d h

/-- A Unicode escape is translated to its unit. -/
theorem feed_translator_unicodeEscape (u : UInt16) :
    translator.feed .text (unicodeEscape u) = some ([u], .text) := by
  have hu := u.toNat_lt
  have h₃ : u.toNat / 16 / 16 / 16 < 16 := by omega
  have h₂ : u.toNat / 16 / 16 % 16 < 16 := Nat.mod_lt _ (by decide)
  have h₁ : u.toNat / 16 % 16 < 16 := Nat.mod_lt _ (by decide)
  have h₀ : u.toNat % 16 < 16 := Nat.mod_lt _ (by decide)
  have hvalue : 16 * (16 * (16 * (u.toNat / 16 / 16 / 16) + u.toNat / 16 / 16 % 16) +
      u.toNat / 16 % 16) + u.toNat % 16 = u.toNat := by omega
  rw [unicodeEscape, hex4_eq]
  -- the backslash, the mark, and four digits
  simp only [Machine.feed, translator, hexDigit?_digitChar h₃, hexDigit?_digitChar h₂,
    hexDigit?_digitChar h₁, hexDigit?_digitChar h₀, digitChar_ne_u h₃, Option.map_some,
    Option.bind_some, if_true, if_false, Nat.reduceEqDiff, Nat.reduceSub, hvalue]
  simp

/-- Any character but a backslash is translated to its units. -/
theorem feed_translator_of_ne {c : Char} (h : c ≠ '\\') :
    translator.feed .text [c] = some (units c, .text) := by
  rw [Machine.feed_singleton]
  exact if_neg h

/-- What the first stage makes of a character in a string literal. -/
def stringPiece (c : Char) : List UInt16 :=
  if c = '"' then [0x5c, 0x22]
  else if c = '\\' then [0x5c, 0x5c]
  else if c = '\n' then [0x5c, 0x6e]
  else units c

/-- What is written for a character in a string is translated to the piece that the lexer sees. -/
theorem feed_translator_stringChar (c : Char) :
    translator.feed .text (stringChar c) = some (stringPiece c, .text) := by
  rw [stringPiece, stringChar.eq_def]
  -- three characters are escaped for the second stage, and pass through the first as they stand
  split
  · rfl
  · rfl
  · rfl
  · rename_i hquote hbackslash hfeed
    rw [if_neg hquote, if_neg hbackslash, if_neg hfeed]
    split
    · exact feed_translator_of_ne hbackslash
    · -- each unit has an escape of its own, so a surrogate pair is put together again
      have hunits : (units c).flatMap (fun u => [u]) = units c := by simp
      rw [Machine.feed_flatMap fun u _ => feed_translator_unicodeEscape u, hunits]

/-- What the first stage makes of a unit in a character literal. -/
def charPiece (u : UInt16) : List UInt16 :=
  if u = 0x27 then [0x5c, 0x27] else if u = 0x5c then [0x5c, 0x5c] else [u]

/-- A printable unit is a character of one unit. -/
theorem units_ofNat {u : UInt16} (h : isPrintable u = true) : units (Char.ofNat u.toNat) = [u] := by
  have hlt : u.toNat < 0x7f := by
    simp only [isPrintable, Bool.and_eq_true, decide_eq_true_eq, UInt16.le_iff_toNat_le] at h
    exact Nat.lt_succ_of_le h.2
  have hvalid : u.toNat.isValidChar := .inl (by omega)
  have hchar : (Char.ofNat u.toNat).toNat = u.toNat := by
    rw [Char.ofNat, dif_pos hvalid]
    rfl
  rw [units, hchar, if_pos (by omega), UInt16.ofNat_toNat]

/-- A character literal is a piece between quotes, whose escapes are all complete. -/
theorem exists_body_charLit (u : UInt16) :
    ∃ body, charLit u = '\'' :: body ++ ['\''] ∧
      translator.feed .text body = some (charPiece u, .text) := by
  refine ⟨_, rfl, ?_⟩
  rw [charPiece]
  by_cases hquote : u = 0x27
  · rw [if_pos hquote, if_pos hquote]
    rfl
  by_cases hbackslash : u = 0x5c
  · rw [if_neg hquote, if_neg hquote, if_pos hbackslash, if_pos hbackslash]
    rfl
  rw [if_neg hquote, if_neg hquote, if_neg hbackslash, if_neg hbackslash]
  by_cases hprintable : isPrintable u = true
  · -- the only printable unit that would begin an escape has been dealt with
    have hne : Char.ofNat u.toNat ≠ '\\' := by
      intro hc
      have hunits := units_ofNat hprintable
      rw [hc] at hunits
      exact hbackslash (List.singleton_inj.mp hunits).symm
    rw [if_pos hprintable, feed_translator_of_ne hne, units_ofNat hprintable]
  · rw [if_neg hprintable]
    exact feed_translator_unicodeEscape u

/-! ## The second stage -/

/-- Units that end neither the literal nor its line, and begin no escape, denote themselves. -/
theorem feed_lexer_of_plain {quote : UInt16} {us : List UInt16}
    (h : ∀ u ∈ us, u ≠ quote ∧ u ≠ 0x5c ∧ u ≠ 0x0a ∧ u ≠ 0x0d) :
    (lexer quote).feed .plain us = some (us, .plain) := by
  induction us with
  | nil => rfl
  | cons u us ih =>
    obtain ⟨hquote, hbackslash, hfeed, hreturn⟩ := h u List.mem_cons_self
    have hstep : (lexer quote).step .plain u = some ([u], .plain) := by
      show lexPlain quote u = _
      rw [lexPlain, if_neg hquote, if_neg hbackslash, if_neg (not_or.mpr ⟨hfeed, hreturn⟩)]
    have hrest := ih fun u' hu' => h u' (List.mem_cons_of_mem u hu')
    rw [Machine.feed, hstep, Option.bind_some, hrest]
    rfl

/-- What the second stage makes of a character in a string literal: its units, unless it is the
carriage return, which is not escaped for this stage. -/
theorem feed_lexer_stringPiece (c : Char) :
    (lexer 0x22).feed .plain (stringPiece c) =
      if c = '\r' then none else some (units c, .plain) := by
  -- the escaped characters first, then the one that ends the line
  by_cases hquote : c = '"'
  · subst hquote
    rfl
  by_cases hbackslash : c = '\\'
  · subst hbackslash
    rfl
  by_cases hfeed : c = '\n'
  · subst hfeed
    rfl
  by_cases hreturn : c = '\r'
  · subst hreturn
    rfl
  rw [stringPiece, if_neg hquote, if_neg hbackslash, if_neg hfeed, if_neg hreturn]
  refine feed_lexer_of_plain fun u hu => ⟨?_, ?_, ?_, ?_⟩
  · exact ne_of_mem_units hu hquote rfl (by decide)
  · exact ne_of_mem_units hu hbackslash rfl (by decide)
  · exact ne_of_mem_units hu hfeed rfl (by decide)
  · exact ne_of_mem_units hu hreturn rfl (by decide)

/-- A string is lexed piece by piece as its units, up to a carriage return, which has become one
before the lexer. -/
theorem feed_lexer_stringPieces (cs : List Char) :
    (lexer 0x22).feed .plain (cs.flatMap stringPiece) =
      if '\r' ∈ cs then none else some (cs.flatMap units, .plain) := by
  induction cs with
  | nil => rfl
  | cons c cs ih =>
    rw [List.flatMap_cons, Machine.feed_append, feed_lexer_stringPiece]
    -- a carriage return is the only character of a string without an escape that the lexer reads
    by_cases hc : c = '\r'
    · rw [if_pos hc, if_pos (hc ▸ List.mem_cons_self)]
      rfl
    · have hmem : '\r' ∈ c :: cs ↔ '\r' ∈ cs := by simp [eq_comm, hc]
      rw [if_neg hc, Option.bind_some, ih]
      simp only [hmem]
      split <;> rfl

/-- A character is lexed as its unit, unless it is a line terminator. -/
theorem feed_lexer_charPiece (u : UInt16) :
    (lexer 0x27).feed .plain (charPiece u) =
      if u = 0x0a ∨ u = 0x0d then none else some ([u], .plain) := by
  by_cases hquote : u = 0x27
  · subst hquote
    rfl
  by_cases hbackslash : u = 0x5c
  · subst hbackslash
    rfl
  by_cases hend : u = 0x0a ∨ u = 0x0d
  · rcases hend with rfl | rfl <;> rfl
  rw [charPiece, if_neg hquote, if_neg hbackslash, if_neg hend]
  refine feed_lexer_of_plain fun v hv => ?_
  rw [List.mem_singleton] at hv
  exact hv ▸ ⟨hquote, hbackslash, not_or.mp hend⟩

/-! ## Literals -/

/-- The quotes of a literal are translated as they stand. -/
theorem feed_translator_quoted {q : Char} {quote : UInt16} {body : List Char} {piece : List UInt16}
    (hq : q ≠ '\\') (hunits : units q = [quote])
    (hbody : translator.feed .text body = some (piece, .text)) :
    translator.feed .text (q :: body ++ [q]) = some (quote :: piece ++ [quote], .text) := by
  show translator.feed .text ([q] ++ body ++ [q]) = _
  rw [Machine.feed_append, Machine.feed_append, feed_translator_of_ne hq, Option.bind_some, hbody,
    Option.map_some, Option.bind_some, feed_translator_of_ne hq, hunits]
  rfl

/-- A literal is read if its body is, between two quotes of a kind. -/
theorem readLiteral_quoted {q : Char} {quote : UInt16} {body : List Char} {piece us : List UInt16}
    {refused : Prop} [Decidable refused] (hq : q ≠ '\\') (hunits : units q = [quote])
    (hbody : translator.feed .text body = some (piece, .text))
    (hpiece : (lexer quote).feed .plain piece = if refused then none else some (us, .plain)) :
    readLiteral quote (q :: body ++ [q]) = if refused then none else some us := by
  -- escapes are translated first, and a quote is never one
  have hrun : translator.run .text (q :: body ++ [q]) = some (quote :: (piece ++ [quote])) := by
    rw [Machine.run, feed_translator_quoted hq hunits hbody, Option.bind_some]
    show some ((quote :: piece ++ [quote]) ++ []) = _
    rw [List.append_nil, List.cons_append]
  have hclose : (lexer quote).feed .plain [quote] = some ([], .closed) := by
    rw [Machine.feed_singleton]
    exact if_pos rfl
  show (match translator.run .text (q :: body ++ [q]) with
    | some (c :: rest) => if c = quote then (lexer quote).run .plain rest else none
    | _ => none) = _
  rw [hrun]
  show (if quote = quote then (lexer quote).run .plain (piece ++ [quote]) else none) = _
  rw [if_pos rfl, Machine.run, Machine.feed_append, hpiece]
  by_cases h : refused
  · rw [if_pos h, if_pos h]
    rfl
  · rw [if_neg h, if_neg h, Option.bind_some, hclose]
    show some ((us ++ []) ++ []) = _
    rw [List.append_nil, List.append_nil]

/-- A line feed or a carriage return ends the line in the middle of a character literal; every other
unit can be read back. -/
theorem readChar_charLit (u : UInt16) :
    readChar (charLit u) = if u = 0x0a ∨ u = 0x0d then none else some u := by
  obtain ⟨body, hlit, hbody⟩ := exists_body_charLit u
  rw [readChar, hlit, readLiteral_quoted (by decide) rfl hbody (feed_lexer_charPiece u)]
  by_cases hend : u = 0x0a ∨ u = 0x0d
  · rw [if_pos hend, if_pos hend]
  · rw [if_neg hend, if_neg hend]

/-- A carriage return ends the line in the middle of a string literal; every other string can be
read back. -/
theorem readString_stringLit (s : String) :
    readString (stringLit s) = if '\r' ∈ s.toList then none else some (s.toList.flatMap units) :=
  readLiteral_quoted (by decide) rfl
    (Machine.feed_flatMap fun c _ => feed_translator_stringChar c)
    (feed_lexer_stringPieces s.toList)

/-- The character literal of a unit denotes that unit, and the string literal of a string its
encoding in UTF-16; but the literal of a line feed or a carriage return is no character literal, and
that of a string with a carriage return no string literal. -/
theorem read_print_literal (u : UInt16) (s : String) :
    readChar (Expr.charLit u).print = (if u = 0x0a ∨ u = 0x0d then none else some u) ∧
      ∃ us, Utf16 s.toList us ∧
        readString (Expr.stringLit s).print = if '\r' ∈ s.toList then none else some us :=
  ⟨readChar_charLit u, _, utf16_units s.toList, readString_stringLit s⟩

end ArrayBridge.Java
