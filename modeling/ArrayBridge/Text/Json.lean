/-!
# JSON text

A small JSON value and its text over several lines, each level indented by two spaces.
-/

namespace ArrayBridge.Text

/-- A JSON value; the fields of an object keep their order. -/
inductive Json where
  | bool (value : Bool)
  | text (value : String)
  | list (items : List Json)
  | object (fields : List (String × Json))

namespace Json

/-- The escape of a character inside a string. -/
def escape (c : Char) : List Char :=
  match c with
  | '"' => ['\\', '"']
  | '\\' => ['\\', '\\']
  | '\n' => ['\\', 'n']
  | '\r' => ['\\', 'r']
  | '\t' => ['\\', 't']
  | '\x08' => ['\\', 'b']
  | '\x0c' => ['\\', 'f']
  | c =>
    if c.toNat < 0x20 then
      let digits := Nat.toDigits 16 c.toNat
      '\\' :: 'u' :: List.replicate (4 - digits.length) '0' ++ digits
    else [c]

/-- A string between quotes. -/
def quote (s : String) : List Char := '"' :: s.toList.flatMap escape ++ ['"']

/-- A new line at the given level. -/
def newline (level : Nat) : List Char := '\n' :: List.replicate (2 * level) ' '

mutual
/-- The text of a value whose surroundings are indented to `level`. -/
def pretty (level : Nat) : Json → List Char
  | bool b => (toString b).toList
  | text s => quote s
  | list [] => ['[', ']']
  | list (v :: vs) =>
    '[' :: newline (level + 1) ++ pretty (level + 1) v ++ prettyItems level vs
  | object [] => ['\x7b', '\x7d']
  | object ((k, v) :: fs) =>
    '\x7b' :: newline (level + 1) ++ quote k ++ ':' :: ' ' :: pretty (level + 1) v ++
      prettyFields level fs

/-- The items after the first, and the closing bracket. -/
def prettyItems (level : Nat) : List Json → List Char
  | [] => newline level ++ [']']
  | v :: vs => ',' :: newline (level + 1) ++ pretty (level + 1) v ++ prettyItems level vs

/-- The fields after the first, and the closing brace. -/
def prettyFields (level : Nat) : List (String × Json) → List Char
  | [] => newline level ++ ['\x7d']
  | (k, v) :: fs =>
    ',' :: newline (level + 1) ++ quote k ++ ':' :: ' ' :: pretty (level + 1) v ++
      prettyFields level fs
end

/-- The text of a value. -/
def render (v : Json) : String := String.ofList (v.pretty 0)

end Json

end ArrayBridge.Text
