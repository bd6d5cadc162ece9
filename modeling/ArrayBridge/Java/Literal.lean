import ArrayBridge.Binary.Decimal

/-!
# Java literals

Printable ASCII stands for itself, except for the quote and the backslash; everything else is
written by its UTF-16 units as Unicode escapes, a line feed in a string excepted.
-/

namespace ArrayBridge.Java

open Binary (Single Double)

/-- The digits of a unit in hexadecimal, at least four. -/
def hex4 (unit : UInt16) : List Char :=
  let digits := Nat.toDigits 16 unit.toNat
  List.replicate (4 - digits.length) '0' ++ digits

/-- The Unicode escape of a UTF-16 unit. -/
def unicodeEscape (unit : UInt16) : List Char := '\\' :: 'u' :: hex4 unit

/-- The UTF-16 units of a character: one, or a surrogate pair. -/
def units (c : Char) : List UInt16 :=
  if c.toNat < 0x10000 then [UInt16.ofNat c.toNat]
  else
    let rest := c.toNat - 0x10000
    [UInt16.ofNat (0xd800 + rest / 0x400), UInt16.ofNat (0xdc00 + rest % 0x400)]

/-- Whether a UTF-16 unit is a printable ASCII character. -/
def isPrintable (unit : UInt16) : Bool := 0x20 ≤ unit && unit ≤ 0x7e

/-- A character literal. -/
def charLit (unit : UInt16) : List Char :=
  let body :=
    if unit = 0x27 then ['\\', '\'']
    else if unit = 0x5c then ['\\', '\\']
    else if isPrintable unit then [Char.ofNat unit.toNat]
    else unicodeEscape unit
  '\'' :: body ++ ['\'']

/-- A character inside a string literal. -/
def stringChar (c : Char) : List Char :=
  match c with
  | '"' => ['\\', '"']
  | '\\' => ['\\', '\\']
  | '\n' => ['\\', 'n']
  | c =>
    if ' ' ≤ c ∧ c ≤ '~' then [c] else (units c).flatMap unicodeEscape

/-- A string literal. -/
def stringLit (s : String) : List Char := '"' :: s.toList.flatMap stringChar ++ ['"']

/-- A floating-point number of the named class: the digits with a suffix, or one of the constants
of the class. -/
def numberLit {l : Binary.Layout} (className : String) (suffix : List Char) :
    Binary.Number l → List Char
  | .notANumber .. => className.toList ++ ".NaN".toList
  | .magnitude negative code =>
    if code = l.infinity then
      className.toList ++ (if negative then ".NEGATIVE" else ".POSITIVE").toList ++
        "_INFINITY".toList
    else (Binary.Number.magnitude negative code).text ++ suffix

/-- A literal of type `float`. -/
def floatLit (x : Single) : List Char := numberLit "Float" ['f'] x

/-- A literal of type `double`. -/
def doubleLit (x : Double) : List Char := numberLit "Double" [] x

end ArrayBridge.Java
