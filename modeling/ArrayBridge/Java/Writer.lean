/-!
# Writing of indented text

A text over several lines is written at a level of indentation, which changes while it is written: a
block goes to a deeper level for its contents, and back again before it is closed.

* `Writer.block`, `Writer.lines` and `Writer.separated` put writers together.
* `Writer.textAt` is the text that is written at a level.
-/

namespace ArrayBridge.Java

/-- How lines are indented: the spaces by which a block goes deeper, and the spaces in front of a
line. Both are words, so a level that is too deep for one wraps around. -/
structure Indentation where
  width : UInt32
  level : UInt32
deriving DecidableEq, Repr

/-- The indentation inside a block. -/
def Indentation.deeper (i : Indentation) : Indentation := { i with level := i.level + i.width }

/-- Gives a text, at the indentation that it finds, and may leave another one. -/
abbrev Writer := StateM Indentation (List Char)

/-- A new line, indented to a level. -/
def newlineAt (level : Nat) : List Char := '\n' :: List.replicate level ' '

namespace Writer

/-- Writes a new line, indented to the present level. -/
def newline : Writer := do return newlineAt (← get).level.toNat

/-- Writes contents between braces, a level deeper and on lines of their own. -/
def block (contents : Writer) : Writer := do
  let original := (← get).level
  modify Indentation.deeper
  let opening ← newline
  let text ← contents
  modify fun i => { i with level := original }
  let closing ← newline
  return '\x7b' :: opening ++ text ++ closing ++ ['\x7d']

/-- Writes one text after the other, with a separator between them. -/
def separated (separator : List Char) : List Writer → Writer
  | [] => return []
  | [w] => w
  | w :: ws => do return (← w) ++ separator ++ (← separated separator ws)

/-- Writes texts on lines of their own. -/
def lines (ws : List Writer) : Writer := do separated (← newline) ws

/-- The text that is written at a level, which is taken as a word, like the width. -/
def textAt (w : Writer) (width level : Nat) : List Char :=
  (w.run ⟨.ofNat width, .ofNat level⟩).1

end Writer

end ArrayBridge.Java
