import ArrayBridge.Java.Syntax

/-!
# Java's expression grammar

A reader for the tokens of an expression, at each level of the grammar: the further down, the
tighter a construct binds. Suffixes and `++` bind tighter than casts, casts tighter than `-`, then
come `<` and `=`. What Java has beyond the expressions that are emitted is refused, as it stands for
none of them.

Three rules need more than a look at the next token:

* a sign belongs to a numeral only where an operand may begin, and to nothing else;
* after a type in round brackets stands an operand, and for a type that is not primitive none with a
  sign, so a name in round brackets may also be an operand itself;
* square brackets after `new T[n]` are further dimensions.

Main results:

* `readAssigned_eq_self`, `readLess_eq_self`, `readMinus_eq_self`, `readSuffixes_eq_self` — where
  each level stops.
-/

namespace ArrayBridge.Java

open Binary (Layout)

/-! ## Tokens -/

/-- A numeral, which has no sign. That of a floating-point type is a magnitude by its code. -/
inductive Numeral where
  | int (value : Nat)
  | long (value : Nat)
  | float (code : Fin (Layout.single.infinity + 1))
  | double (code : Fin (Layout.double.infinity + 1))
deriving DecidableEq

/-- A token. -/
inductive Token where
  | name (name : String)
  | prim (kind : Kind)
  | new
  | classWord
  | null
  | boolean (value : Bool)
  | numeral (value : Numeral)
  | char (unit : UInt16)
  | string (value : String)
  | openRound
  | closeRound
  | openSquare
  | closeSquare
  | openCurly
  | closeCurly
  | comma
  | dot
  | assign
  | less
  | minus
  | increment
deriving DecidableEq

/-- The literal that a numeral is with or without a sign. The least integer of a type has a
magnitude that is a numeral only behind its sign. -/
def Numeral.literal? (negative : Bool) : Numeral → Option Expr
  | int n =>
    if n < 0x80000000 ∨ negative ∧ n = 0x80000000 then
      some (.intLit (.ofInt (if negative then -n else n)))
    else none
  | long n =>
    if n < 0x8000000000000000 ∨ negative ∧ n = 0x8000000000000000 then
      some (.longLit (.ofInt (if negative then -n else n)))
    else none
  | float code => some (.floatLit (.magnitude negative code))
  | double code => some (.doubleLit (.magnitude negative code))

/-- Goes past a token that has to come next. -/
def expect (t : Token) : List Token → Option (List Token)
  | u :: ts => if u = t then some ts else none
  | [] => none

/-! ## Types -/

/-- The type that a token is by itself. -/
def Token.base? : Token → Option Ty
  | prim k => some (.prim k)
  | name n => some (.named n)
  | _ => none

/-- Reads the dimensions behind a type. -/
def readDims (t : Ty) : List Token → Ty × List Token
  | .openSquare :: .closeSquare :: ts => readDims (.array t) ts
  | ts => (t, ts)

/-- Reads a type. -/
def readType : List Token → Option (Ty × List Token)
  | t :: ts => t.base?.map fun base => readDims base ts
  | [] => none

/-- Reads a type in round brackets. -/
def readCastType : List Token → Option (Ty × List Token)
  | .openRound :: ts => do
    let (t, ts) ← readType ts
    let ts ← expect .closeRound ts
    return (t, ts)
  | _ => none

/-- Reads a class literal. -/
def readClassLit (ts : List Token) : Option (Ty × List Token) := do
  let (t, ts) ← readType ts
  let ts ← expect .dot ts
  let ts ← expect .classWord ts
  return (t, ts)

/-! ## Expressions -/

/-- Whether an operand without a sign may begin with a token. -/
def Token.startsOperand : Token → Bool
  | name _ | prim _ | new | null | boolean _ | numeral _ | char _ | string _ | openRound => true
  | _ => false

/-- Whether an expression is a variable, a field or an item of an array. -/
def Expr.isTarget : Expr → Bool
  | name _ | field .. | access .. => true
  | _ => false

/-- The levels of the grammar. Some go on from what has been read before. -/
inductive Level where
  | expr
  /-- A value to assign. -/
  | assigned (left : Expr)
  /-- Operands of `<`. -/
  | relation
  /-- Further operands of `<`. -/
  | less (left : Expr)
  /-- Operands of `-`. -/
  | sum
  /-- Further operands of `-`. -/
  | minus (left : Expr)
  /-- An operand that may have a sign, which only a numeral has. -/
  | unary
  /-- An operand without a sign. -/
  | unsigned
  /-- An operand with its suffixes. -/
  | suffixed
  /-- Suffixes behind an operand. -/
  | suffixes (operand : Expr)
  /-- An operand without suffixes. -/
  | primary
  /-- What stands behind `new`. -/
  | creation
  /-- Expressions up to a closing bracket. -/
  | items (close : Token)
  /-- At least one expression, up to a closing bracket. -/
  | more (close : Token)

/-- What is read at a level. -/
abbrev Level.Result : Level → Type
  | items _ | more _ => List Expr
  | _ => Expr

/-- Reads tokens at a level of the grammar, up to where the level ends. -/
noncomputable def Level.read (l : Level) (ts : List Token) : Option (l.Result × List Token) :=
  match l with
  | expr => do
    let (left, ts) ← relation |>.read ts
    assigned left |>.read ts
  | assigned left =>
    match ts with
    | .assign :: ts => do
      -- the value may be an assignment again, so `=` groups to the right
      guard left.isTarget
      let (value, ts) ← expr |>.read ts
      return (.assign left value, ts)
    | ts => some (left, ts)
  | relation => do
    let (left, ts) ← sum |>.read ts
    less left |>.read ts
  | less left =>
    match ts with
    | .less :: ts => do
      let (right, ts) ← sum |>.read ts
      -- what has been read becomes the left operand, so `<` groups to the left
      less (.binary .less left right) |>.read ts
    | ts => some (left, ts)
  | sum => do
    let (left, ts) ← unary |>.read ts
    minus left |>.read ts
  | minus left =>
    match ts with
    | .minus :: ts => do
      let (right, ts) ← unary |>.read ts
      -- so does `-`
      minus (.binary .minus left right) |>.read ts
    | ts => some (left, ts)
  | unary =>
    match ts with
    -- only with its sign is the magnitude of the least integer a literal
    | .minus :: .numeral n :: ts => (n.literal? true).map (·, ts)
    | ts => unsigned |>.read ts
  | unsigned =>
    match readCastType ts with
    | some (.prim k, rest) => do
      -- behind a primitive type a sign is one of the operand
      let (e, rest) ← unary |>.read rest
      return (.cast (.prim k) e, rest)
    | some (.array t, rest) => do
      let (e, rest) ← unsigned |>.read rest
      return (.cast (.array t) e, rest)
    | some (.named n, rest) =>
      -- a name in brackets, unless an operand follows
      if rest.head?.any Token.startsOperand then do
        let (e, rest) ← unsigned |>.read rest
        return (.cast (.named n) e, rest)
      else suffixed |>.read ts
    | none => suffixed |>.read ts
  | suffixed => do
    let (e, ts) ← primary |>.read ts
    suffixes e |>.read ts
  | suffixes e =>
    match ts with
    | .dot :: .name n :: .openRound :: ts => do
      let (args, ts) ← items .closeRound |>.read ts
      suffixes (.methodCall e n args) |>.read ts
    | .dot :: .name n :: ts => suffixes (.field e n) |>.read ts
    | .openSquare :: ts => do
      let (index, ts) ← expr |>.read ts
      let ts ← expect .closeSquare ts
      suffixes (.access e index) |>.read ts
    -- nothing may be attached to an increment
    | .increment :: ts => some (.postIncrement e, ts)
    | ts => some (e, ts)
  | primary =>
    -- a class literal may begin as a name does, or with a primitive type, which nothing else does
    match readClassLit ts with
    | some (t, ts) => some (.classLit t, ts)
    | none =>
      match ts with
      | .name n :: .openRound :: ts => do
        let (args, ts) ← items .closeRound |>.read ts
        return (.call n args, ts)
      | .name n :: ts => some (.name n, ts)
      | .null :: ts => some (.null, ts)
      | .boolean b :: ts => some (.booleanLit b, ts)
      | .numeral n :: ts => (n.literal? false).map (·, ts)
      | .char u :: ts => some (.charLit u, ts)
      | .string s :: ts => some (.stringLit s, ts)
      | .new :: ts => creation |>.read ts
      | .openRound :: ts => do
        let (e, ts) ← expr |>.read ts
        let ts ← expect .closeRound ts
        return (e, ts)
      | _ => none
  | creation => do
    let (t, ts) ← readType ts
    match t, ts with
    | .array element, .openCurly :: ts =>
      let (values, ts) ← items .closeCurly |>.read ts
      return (.arrayInit element values, ts)
    | .array _, _ => none
    | .named n, .openRound :: ts =>
      let (args, ts) ← items .closeRound |>.read ts
      return (.new (.named n) args, ts)
    | t, .openSquare :: ts =>
      let (size, ts) ← expr |>.read ts
      let ts ← expect .closeSquare ts
      -- further dimensions
      guard (ts.head? ≠ some .openSquare)
      return (.newArray t size, ts)
    | _, _ => none
  | items close =>
    match expect close ts with
    | some ts => some ([], ts)
    | none => more close |>.read ts
  | more close => do
    let (e, ts) ← expr |>.read ts
    match ts with
    | .comma :: ts =>
      let (es, ts) ← more close |>.read ts
      return (e :: es, ts)
    | ts =>
      let ts ← expect close ts
      return ([e], ts)
partial_fixpoint

/-- The expression that tokens are as a whole. -/
noncomputable def readTokens (ts : List Token) : Option Expr :=
  match Level.expr.read ts with
  | some (e, []) => some e
  | _ => none

/-! ## Where the levels stop -/

/-- Whether an operand is at its end where tokens follow. -/
def EndsOperand (ts : List Token) : Prop :=
  ∀ t ∈ ts.head?, t ∉ [Token.openRound, .openSquare, .dot, .increment]

/-- Whether an expression is at its end where tokens follow. -/
def EndsExpr (ts : List Token) : Prop :=
  ∀ t ∈ ts.head?, t ∈ [Token.closeRound, .closeSquare, .closeCurly, .comma]

section

variable {e : Expr} {t : Token} {ts : List Token}

/-- Where an expression is at its end, so is an operand. -/
theorem EndsExpr.endsOperand (h : EndsExpr ts) : EndsOperand ts := by
  intro t ht hmem
  have hclose := h t ht
  -- no token that closes something goes on with an operand
  simp only [List.mem_cons, List.not_mem_nil, or_false] at hmem hclose
  grind

/-- Where an expression is at its end, no operator follows. -/
theorem EndsExpr.head?_ne (h : EndsExpr ts) (ht : t ∈ [Token.assign, .less, .minus]) :
    ts.head? ≠ some t := by
  intro heq
  have hclose := h t heq
  simp only [List.mem_cons, List.not_mem_nil, or_false] at ht hclose
  grind

/-- A token that comes next is gone past. -/
@[simp] theorem expect_cons_self (t : Token) (ts : List Token) : expect t (t :: ts) = some ts :=
  if_pos rfl

/-- No other token is. -/
theorem expect_of_head?_ne (h : ts.head? ≠ some t) : expect t ts = none := by
  cases ts with
  | nil => rfl
  | cons u ts => exact if_neg fun heq => h (congrArg some heq)

/-- Without `=` nothing is assigned. -/
theorem readAssigned_eq_self (h : ts.head? ≠ some .assign) :
    (Level.assigned e).read ts = some (e, ts) := by
  rw [Level.read]
  rintro ts rfl
  exact h rfl

/-- Without `<` there is no further operand of it. -/
theorem readLess_eq_self (h : ts.head? ≠ some .less) : (Level.less e).read ts = some (e, ts) := by
  rw [Level.read]
  rintro ts rfl
  exact h rfl

/-- Without `-` there is no further operand of it. -/
theorem readMinus_eq_self (h : ts.head? ≠ some .minus) :
    (Level.minus e).read ts = some (e, ts) := by
  rw [Level.read]
  rintro ts rfl
  exact h rfl

/-- An operand that is at its end has no further suffix. -/
theorem readSuffixes_eq_self (h : EndsOperand ts) : (Level.suffixes e).read ts = some (e, ts) := by
  have hne (t : Token) (ts' : List Token)
      (ht : t ∈ [Token.openRound, .openSquare, .dot, .increment]) : ts ≠ t :: ts' := by
    rintro rfl
    exact h t rfl ht
  -- none of the tokens that begin a suffix comes next
  rw [Level.read]
  · exact fun n ts' heq => hne _ _ (by simp) heq
  · exact fun n ts' heq => hne _ _ (by simp) heq
  · exact fun ts' heq => hne _ _ (by simp) heq
  · exact fun ts' heq => hne _ _ (by simp) heq

end

end ArrayBridge.Java
