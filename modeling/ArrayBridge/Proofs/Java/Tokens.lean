import ArrayBridge.Proofs.Java.Lexing
import ArrayBridge.Proofs.Java.Numerals

/-!
# Tokens of Java text

The scanner takes the units of a text apart into tokens. A token goes as far as it can: a word, a
numeral or a sign ends only where the next unit does not belong to it, whatever comes after that. A
literal ends with its quote.

Which characters beyond ASCII are letters is left open; every theorem holds of all choices.

Main results:

* `decode_units` — characters are told from their units.
* `scan_append` — how a text is scanned that begins like another one.
* `run_scanner_of_not_takes` — a token ends before a unit that does not belong to it.
-/

namespace ArrayBridge.Java

/-! ## Characters -/

/-- The surrogate pair with the given halves, as a number. -/
def pairValue (high low : UInt16) : Nat :=
  0x10000 + (high.toNat - 0xd800) * 0x400 + (low.toNat - 0xdc00)

/-- The characters with the given units. Surrogates stand in pairs. -/
def decode : List UInt16 → Option (List Char)
  | [] => some []
  | u :: us =>
    if u.toNat < 0xd800 ∨ 0xe000 ≤ u.toNat then (decode us).map (Char.ofNat u.toNat :: ·)
    else
      match us with
      | v :: us =>
        if u.toNat < 0xdc00 ∧ 0xdc00 ≤ v.toNat ∧ v.toNat < 0xe000 then
          (decode us).map (Char.ofNat (pairValue u v) :: ·)
        else none
      | [] => none

/-- Whether a unit separates tokens. -/
def isBlank (u : UInt16) : Bool :=
  u == 0x20 || u == 0x09 || u == 0x0a || u == 0x0c || u == 0x0d

/-- Whether a unit is a decimal digit. -/
def isDigit (u : UInt16) : Bool := 0x30 ≤ u && u ≤ 0x39

/-- Whether a unit can belong to a word. Beyond ASCII, and among its control characters, there are
no signs, so that a word goes on there; whether it is an identifier is decided when it ends. -/
def isWordUnit (u : UInt16) : Bool :=
  isDigit u || (0x41 ≤ u && u ≤ 0x5a) || (0x61 ≤ u && u ≤ 0x7a) || u == 0x5f || u == 0x24 ||
    !isPrintable u && !isBlank u

/-! ## Words -/

/-- The characters of identifiers beyond those that everyone knows: the characters that identifiers
begin with, and those that stand further on. -/
structure Alphabet where
  start : Char → Bool
  part : Char → Bool

/-- The words that are no identifiers. -/
def reservedWords : List String :=
  ["abstract", "assert", "boolean", "break", "byte", "case", "catch", "char", "class", "const",
    "continue", "default", "do", "double", "else", "enum", "extends", "final", "finally", "float",
    "for", "goto", "if", "implements", "import", "instanceof", "int", "interface", "long", "native",
    "new", "package", "private", "protected", "public", "return", "short", "static", "strictfp",
    "super", "switch", "synchronized", "this", "throw", "throws", "transient", "try", "void",
    "volatile", "while", "_", "true", "false", "null"]

/-- Whether the alphabet decides on a character: beyond ASCII, or a control character. -/
def isOpen (c : Char) : Bool := (units c).all fun u => !isPrintable u && !isBlank u

namespace Alphabet

variable (a : Alphabet)

/-- Whether an identifier may begin with a character. -/
def isStart (c : Char) : Bool := c.isAlpha || c == '_' || c == '$' || isOpen c && a.start c

/-- Whether a character may stand in an identifier. -/
def isPart (c : Char) : Bool := a.isStart c || c.isDigit || isOpen c && a.part c

/-- Whether characters have the form of an identifier. -/
def spellsWord : List Char → Bool
  | [] => false
  | c :: cs => a.isStart c && cs.all a.isPart

/-- Whether a name is an identifier. -/
def IsIdentifier (n : String) : Prop := a.spellsWord n.toList = true ∧ n ∉ reservedWords

instance (n : String) : Decidable (a.IsIdentifier n) := inferInstanceAs (Decidable (_ ∧ _))

end Alphabet

/-- The token of a word that is no identifier. -/
def keyword? (word : String) : Option Token :=
  if word = "new" then some .new
  else if word = "class" then some .classWord
  else if word = "null" then some .null
  else if word = "true" then some (.boolean true)
  else if word = "false" then some (.boolean false)
  else (Kind.ofNativeName? word).map .prim

/-- The token of a word. -/
def Alphabet.word? (a : Alphabet) (cs : List Char) : Option Token :=
  match keyword? (String.ofList cs) with
  | some t => some t
  | none => if a.IsIdentifier (String.ofList cs) then some (.name (String.ofList cs)) else none

/-! ## Signs -/

/-- The signs that are emitted. -/
def signs : List (List Char × Token) :=
  [(['('], .openRound), ([')'], .closeRound), (['['], .openSquare), ([']'], .closeSquare),
    (['\x7b'], .openCurly), (['\x7d'], .closeCurly), ([','], .comma), (['.'], .dot),
    (['='], .assign), (['<'], .less), (['-'], .minus), (['+', '+'], .increment)]

/-- The other signs that begin like them. -/
def otherSigns : List (List Char) :=
  [['=', '='], ['<', '='], ['<', '<'], ['<', '<', '='], ['-', '-'], ['-', '='], ['-', '>'], ['+'],
    ['+', '=']]

/-- Whether characters are a sign. -/
def isSign (cs : List Char) : Bool := signs.any (·.1 == cs) || otherSigns.contains cs

/-- The token of a sign that is emitted. -/
def sign? (cs : List Char) : Option Token := signs.lookup cs

/-! ## The scanner -/

/-- What has been scanned of a token. -/
inductive Scanning where
  /-- Nothing yet. -/
  | idle
  | word (us : List UInt16)
  | number (us : List UInt16)
  | sign (cs : List Char)
  /-- A literal with its quote: what it denotes so far, and how far it has been read. -/
  | literal (quote : UInt16) (us : List UInt16) (state : Lexing)

namespace Scanning

/-- Whether a unit belongs to the token. A numeral has a sign within it only behind the mark of an
exponent. -/
def takes : Scanning → UInt16 → Bool
  | idle, _ => false
  | word _, u => isWordUnit u
  | number us, u =>
    isWordUnit u || u == 0x2e || (u == 0x2b || u == 0x2d) && us.getLast?.any (· ∈ [0x65, 0x45])
  | sign cs, u => isSign (cs ++ [Char.ofNat u.toNat])
  | literal _ _ .closed, _ => false
  | literal .., _ => true

/-- The token with one more unit. -/
def take : Scanning → UInt16 → Option Scanning
  | idle, _ => none
  | word us, u => some (word (us ++ [u]))
  | number us, u => some (number (us ++ [u]))
  | sign cs, u => some (sign (cs ++ [Char.ofNat u.toNat]))
  | literal quote us state, u =>
    ((lexer quote).step state u).map fun next => literal quote (us ++ next.1) next.2

/-- The token of a literal that denotes some units. -/
def literalToken? (quote : UInt16) (us : List UInt16) : Option Token :=
  if quote = 0x27 then
    match us with
    | [u] => some (.char u)
    | _ => none
  else (decode us).map fun cs => .string (String.ofList cs)

/-- The token that a token is if it ends. -/
def token? (a : Alphabet) : Scanning → Option Token
  | word us => (decode us).bind a.word?
  | number us => ((decode us).bind readNumeral).map .numeral
  | sign cs => sign? cs
  | literal quote us .closed => literalToken? quote us
  | idle | literal .. => none

/-- The tokens that have been scanned if the token ends. -/
def pending (a : Alphabet) : Scanning → Option (List Token)
  | idle => some []
  | s => (s.token? a).map ([·])

/-- What a unit begins that does not belong to the token before it. -/
def begin? (u : UInt16) : Option Scanning :=
  if isBlank u then some idle
  else if isDigit u then some (number [u])
  else if isWordUnit u then some (word [u])
  else if u = 0x22 ∨ u = 0x27 then some (literal u [] .plain)
  else if isSign [Char.ofNat u.toNat] then some (sign [Char.ofNat u.toNat])
  else none

end Scanning

/-- The scanner: units become tokens. -/
def scanner (a : Alphabet) : Machine Scanning UInt16 Token where
  step s u :=
    if s.takes u then (s.take u).map ([], ·)
    else (s.pending a).bind fun ts => (Scanning.begin? u).map (ts, ·)
  finish s := s.pending a

/-- The tokens of a text. -/
def scan (a : Alphabet) (text : List Char) : Option (List Token) :=
  (translator.run .text text).bind ((scanner a).run .idle)

/-- The expression that a text is. -/
noncomputable def readText (a : Alphabet) (text : List Char) : Option Expr :=
  (scan a text).bind readTokens

/-! ## Characters are told from their units -/

/-- A unit outside the surrogates is a character by itself, -/
theorem decode_cons {u : UInt16} {us : List UInt16} (h : u.toNat < 0xd800 ∨ 0xe000 ≤ u.toNat) :
    decode (u :: us) = (decode us).map (Char.ofNat u.toNat :: ·) := by
  rw [decode.eq_def]
  exact if_pos h

/-- and a pair of surrogates is one together. -/
theorem decode_pair {u v : UInt16} {us : List UInt16} (hu : 0xd800 ≤ u.toNat ∧ u.toNat < 0xdc00)
    (hv : 0xdc00 ≤ v.toNat ∧ v.toNat < 0xe000) :
    decode (u :: v :: us) = (decode us).map (Char.ofNat (pairValue u v) :: ·) := by
  have hsurrogate : ¬ (u.toNat < 0xd800 ∨ 0xe000 ≤ u.toNat) := by omega
  have hpair : u.toNat < 0xdc00 ∧ 0xdc00 ≤ v.toNat ∧ v.toNat < 0xe000 := ⟨hu.2, hv⟩
  rw [decode.eq_def]
  simp only [if_neg hsurrogate, if_pos hpair]

/-- Characters are told from their units. -/
theorem decode_units (cs : List Char) : decode (cs.flatMap units) = some cs := by
  induction cs with
  | nil => rfl
  | cons c cs ih =>
    rw [List.flatMap_cons]
    rcases units_cases c with ⟨u, hu, h⟩ | ⟨high, low, hu, hhigh, hlow, h⟩
    · -- a character of one unit is no surrogate, so the unit is not taken for half of a pair
      have hvalid : u.toNat < 0xd800 ∨ 0xe000 ≤ u.toNat := h ▸ c.valid.imp_right fun hc => hc.1
      rw [hu, List.singleton_append, decode_cons hvalid, ih, h, Option.map_some, Char.ofNat_toNat]
    · have hvalue : pairValue high low = c.toNat := h.symm
      rw [hu, List.cons_append, List.singleton_append, decode_pair hhigh hlow, ih, hvalue,
        Option.map_some, Char.ofNat_toNat]

/-! ## Where tokens end -/

section

variable {a : Alphabet} {s : Scanning} {us : List UInt16}

/-- A token ends before a unit that does not belong to it. -/
theorem run_scanner_of_not_takes (h : ∀ u ∈ us.head?, s.takes u = false) :
    (scanner a).run s us =
      (s.pending a).bind fun ts => ((scanner a).run .idle us).map (ts ++ ·) := by
  cases us with
  | nil =>
    show (s.pending a).map ([] ++ ·) = _
    cases s.pending a with
    | none => rfl
    | some ts => exact congrArg some (List.append_nil ts).symm
  | cons u us =>
    -- the unit begins the next token, just as it would from the start
    have hstep : (scanner a).step s u =
        (s.pending a).bind fun ts => (Scanning.begin? u).map (ts, ·) :=
      if_neg (by rw [h u rfl]; exact Bool.false_ne_true)
    have hidle : (scanner a).step .idle u = (Scanning.begin? u).map ([], ·) := rfl
    rw [Machine.run, Machine.feed, hstep, Machine.run, Machine.feed, hidle]
    cases s.pending a with
    | none => rfl
    | some ts =>
      cases Scanning.begin? u with
      | none => rfl
      | some next =>
        simp only [Option.bind_some, Option.map_some]
        cases (scanner a).feed next us with
        | none => rfl
        | some fed =>
          simp only [Option.bind_some, Option.map_some]
          cases (scanner a).finish fed.2 <;> simp

theorem step_scanner_of_takes {u : UInt16} (h : s.takes u = true) :
    (scanner a).step s u = (s.take u).map ([], ·) := if_pos h

end

end ArrayBridge.Java
