/-!
# Error blocks

An error is reported as a block: a title in bold red between dashes, the lines of the message, and
an empty line.
-/

namespace ArrayBridge.Text

/-- The lines of a text, the current one so far being `line` in reverse. A line ends before a line
feed, or a carriage return and a line feed; there is no empty line after the last of them. -/
def linesFrom (line : List Char) : List Char → List (List Char)
  | [] => if line.isEmpty then [] else [line.reverse]
  | '\n' :: rest =>
    (match line with
      | '\r' :: line => line.reverse
      | line => line.reverse) :: linesFrom [] rest
  | c :: rest => linesFrom (c :: line) rest

/-- The lines of a text. -/
def lines (s : String) : List (List Char) := linesFrom [] s.toList

/-- Dashes before a title. -/
def leadingDashes : Nat := 10

/-- Width of a title with the dashes and blanks around it. -/
def titleWidth : Nat := 60

/-- The dashes after a title fill the line, as far as the title leaves room. -/
def trailingDashes (title : String) : Nat :=
  titleWidth - (2 + title.utf8ByteSize + leadingDashes)

/-- The line of a title. -/
def titleLine (title : String) : List Char :=
  "\x1b[1;31m".toList ++ List.replicate leadingDashes '-' ++ ' ' :: title.toList ++ ' ' ::
    List.replicate (trailingDashes title) '-' ++ "\x1b[0m".toList

/-- An error block. -/
def report (title message : String) : String :=
  String.ofList ('\n' :: titleLine title ++ '\n' ::
    (lines message).flatMap (· ++ ['\n']) ++ ['\n'])

end ArrayBridge.Text
