/-!
# Quoted characters

A character in single quotes. The quote, the backslash and the usual controls have short escapes;
a character that would not show is written by its code in hexadecimal.
-/

namespace ArrayBridge.Text

/-- Ranges of characters that do not show by themselves: controls, blanks other than the space,
combining marks, format characters, and characters of no agreed meaning. The end of each range
is included. -/
def hiddenRanges : List (Nat × Nat) :=
  [(0x00, 0x1f), (0x7f, 0xa0), (0xad, 0xad), (0x300, 0x36f), (0x1680, 0x1680),
   (0x2000, 0x200f), (0x2028, 0x202f), (0x205f, 0x206f), (0x3000, 0x3000), (0xd7fc, 0xd7ff),
   (0xe000, 0xf8ff), (0xfe00, 0xfe0f), (0xfe20, 0xfe2f), (0xfeff, 0xfeff), (0xfff0, 0xfffb),
   (0xfffe, 0xffff), (0xe0000, 0x10ffff)]

/-- Whether a character is in one of the ranges, or the last two of its plane. -/
def isHidden (c : Char) : Bool :=
  hiddenRanges.any (fun r => r.1 ≤ c.toNat && c.toNat ≤ r.2) || 0xfffe ≤ c.toNat % 0x10000

/-- Escapes of one letter. -/
def shortEscape? : Char → Option Char
  | '\x00' => some '0'
  | '\t' => some 't'
  | '\n' => some 'n'
  | '\r' => some 'r'
  | '\'' => some '\''
  | '\\' => some '\\'
  | _ => none

/-- A character between single quotes. -/
def quotedChar (c : Char) : List Char :=
  let body :=
    match shortEscape? c with
    | some e => ['\\', e]
    | none =>
      if isHidden c then '\\' :: 'u' :: '\x7b' :: Nat.toDigits 16 c.toNat ++ ['\x7d']
      else [c]
  '\'' :: body ++ ['\'']

end ArrayBridge.Text
