import ArrayBridge.Descriptor
import ArrayBridge.Text.Json
import ArrayBridge.Wrapper.Signature

/-!
# The contract of a wrapper

The table of members that the wrapper of one kind declares, as text with one member a line and as
JSON.
-/

namespace ArrayBridge

open Text (Json)

namespace ParamType

/-- The name of the type in a JSON table. -/
def label : ParamType → String
  | integer => "integer"
  | element => "element"
  | wrapper => "wrapper"
  | genericView => "generic_view"

/-- The type of a parameter in a wrapper of kind `k`. -/
def text (k : Kind) : ParamType → String
  | integer => "long"
  | element => k.nativeName
  | wrapper => k.wrapperName
  | genericView => (Descriptor.genericView k).text

end ParamType

namespace DefaultRule

/-- The name of the rule in a JSON table. -/
def label : DefaultRule → String
  | elementDefault => "element_default"
  | zero => "zero"
  | remainingLength => "remaining_length"

/-- The value that stands for an omitted argument in a wrapper of kind `k`. -/
def text (k : Kind) : DefaultRule → String
  | elementDefault => k.zero.text
  | zero => "0"
  | remainingLength => "<remaining>"

end DefaultRule

namespace ReturnType

/-- The name of the type in a JSON table. -/
def label : ReturnType → String
  | unit => "unit"
  | integer => "integer"
  | element => "element"
  | wrapper => "wrapper"
  | genericView => "generic_view"
  | descriptor => "descriptor"

/-- The type of a result in a wrapper of kind `k`, if there is one. -/
def text? (k : Kind) : ReturnType → Option String
  | unit => none
  | integer => some "long"
  | element => some k.nativeName
  | wrapper => some k.wrapperName
  | genericView => some (Descriptor.genericView k).text
  | descriptor => some "TypeDescriptor"

end ReturnType

/-- The members of one wrapper. -/
structure Contract where
  kind : Kind
  members : List Signature

/-- The wrapper of every kind declares every operation. -/
def Kind.contract (k : Kind) : Contract := ⟨k, Operation.all.map Operation.signature⟩

namespace Contract

/-- A parameter, as in `element: int = 0`. -/
def paramText (k : Kind) (p : Param) : String :=
  let default := match p.default with
    | none => ""
    | some rule => " = " ++ rule.text k
  p.name ++ ": " ++ p.type.text k ++ default

/-- A member on a line of its own. -/
def memberLine (k : Kind) (s : Signature) : String :=
  let params := ", ".intercalate (s.params.map (paramText k))
  let result := match s.result.text? k with
    | none => ""
    | some type => ": " ++ type
  "    " ++ (if s.isStatic then "static " else "") ++ s.operation.memberName ++
    "(" ++ params ++ ")" ++ result ++ "\n"

/-- The table as text: the wrapper and its sequence type, then one member a line. -/
def text (c : Contract) : String :=
  c.kind.wrapperName ++ ": " ++ (Descriptor.genericView c.kind).text ++ "\n" ++
    String.join (c.members.map (memberLine c.kind))

/-- A parameter as JSON. The default is left out if there is none. -/
def paramJson (p : Param) : Json :=
  let default := match p.default with
    | none => []
    | some rule => [("default", .text rule.label)]
  .object ([("name", .text p.name), ("type", .text p.type.label)] ++ default)

/-- A member as JSON. -/
def memberJson (s : Signature) : Json :=
  .object
    [("operation", .text s.operation.label),
     ("name", .text s.operation.memberName),
     ("is_static", .bool s.isStatic),
     ("params", .list (s.params.map paramJson)),
     ("ret", .text s.result.label)]

/-- The table as JSON. -/
def json (c : Contract) : Json :=
  .object
    [("kind", .text c.kind.nativeName),
     ("wrapper_name", .text c.kind.wrapperName),
     ("generic_view", .text (Descriptor.genericView c.kind).text),
     ("operations", .list (c.members.map memberJson))]

end Contract

end ArrayBridge
