import ArrayBridge.Java.Print
import ArrayBridge.Proofs.Java.Grammar

/-!
# Tokens of trees

The tokens that a tree is written with, and the tree that the grammar makes of them, which is not
the same where a bracket is missing.

Main results:

* `numeric_cases` — a number is written as a numeral that stands for it, or as a constant.
* `readType_tokens` — a type is read up to the last of its dimensions.
* `exists_head?_operandTokens` — what an operand begins with.
* `readCastType_operand` — no operand begins with a type in brackets.
-/

namespace ArrayBridge.Java

open Binary (Layout Number)

/-! ## Tokens of trees -/

/-- The tokens of a type. -/
def Ty.tokens : Ty → List Token
  | prim k => [.prim k]
  | named n => [.name n]
  | array t => t.tokens ++ [.openSquare, .closeSquare]

/-- The token of an operator. -/
def BinOp.token : BinOp → Token
  | less => .less
  | minus => .minus

/-- The tokens of a numeral with or without a sign. -/
def Numeral.tokens (negative : Bool) (n : Numeral) : List Token :=
  if negative then [.minus, .numeral n] else [.numeral n]

/-- The name of an infinity. -/
def infinityName (negative : Bool) : String :=
  if negative then "NEGATIVE_INFINITY" else "POSITIVE_INFINITY"

section

variable {l : Layout}

/-- The sign and the numeral of a finite number. -/
def numberNumeral? (numeral : Fin (l.infinity + 1) → Numeral) :
    Number l → Option (Bool × Numeral)
  | .notANumber .. => none
  | .magnitude negative code => if code = l.infinity then none else some (negative, numeral code)

/-- The constant of its class that stands for a number that is not finite. -/
def numberConstant? : Number l → Option String
  | .notANumber .. => some "NaN"
  | .magnitude negative code => if code = l.infinity then some (infinityName negative) else none

end

namespace Expr

/-- The sign and the numeral that a literal is written with. -/
def numeral? : Expr → Option (Bool × Numeral)
  | intLit n => some (n.toInt < 0, .int n.toInt.natAbs)
  | longLit n => some (n.toInt < 0, .long n.toInt.natAbs)
  | floatLit x => numberNumeral? .float x
  | doubleLit x => numberNumeral? .double x
  | _ => none

/-- The constant that a literal is written as, with its class. -/
def constant? : Expr → Option (String × String)
  | floatLit x => (numberConstant? x).map ("Float", ·)
  | doubleLit x => (numberConstant? x).map ("Double", ·)
  | _ => none

/-- Whether an expression is a numeric literal. -/
def isNumeric : Expr → Bool
  | intLit _ | longLit _ | floatLit _ | doubleLit _ => true
  | _ => false

/-- The tokens of a numeric literal. -/
def numberTokens (e : Expr) : List Token :=
  match e.numeral?, e.constant? with
  | some (negative, n), _ => n.tokens negative
  | none, some (className, constant) => [.name className, .dot, .name constant]
  | none, none => []

/-- The tokens of an operand, given those of its expression. -/
def asOperandTokens (e : Expr) (ts : List Token) : List Token :=
  if e.isCompound then .openRound :: ts ++ [.closeRound] else ts

mutual
/-- The tokens of an expression. -/
def tokens : Expr → List Token
  | assign target value => tokens target ++ .assign :: tokens value
  | null => [.null]
  | name n => [.name n]
  | new type args =>
    .new :: type.tokens ++ .openRound :: tokensAll args ++ [.closeRound]
  | newArray element size =>
    .new :: element.tokens ++ .openSquare :: tokens size ++ [.closeSquare]
  | arrayInit element items =>
    .new :: element.tokens ++ [.openSquare, .closeSquare, .openCurly] ++ tokensAll items ++
      [.closeCurly]
  | cast type operand =>
    .openRound :: type.tokens ++ .closeRound :: operand.asOperandTokens (tokens operand)
  | classLit type => type.tokens ++ [.dot, .classWord]
  | access array index =>
    array.asOperandTokens (tokens array) ++ .openSquare :: tokens index ++ [.closeSquare]
  | field object n => object.asOperandTokens (tokens object) ++ [.dot, .name n]
  | call n args => .name n :: .openRound :: tokensAll args ++ [.closeRound]
  | methodCall object n args =>
    object.asOperandTokens (tokens object) ++ .dot :: .name n :: .openRound :: tokensAll args ++
      [.closeRound]
  | binary op left right =>
    left.asOperandTokens (tokens left) ++ op.token :: right.asOperandTokens (tokens right)
  | postIncrement operand => operand.asOperandTokens (tokens operand) ++ [.increment]
  | booleanLit b => [.boolean b]
  | intLit n => numberTokens (intLit n)
  | longLit n => numberTokens (longLit n)
  | floatLit x => numberTokens (floatLit x)
  | doubleLit x => numberTokens (doubleLit x)
  | charLit unit => [.char unit]
  | stringLit s => [.string s]

/-- The tokens of expressions with commas between them. -/
def tokensAll : List Expr → List Token
  | [] => []
  | [e] => tokens e
  | e :: es => tokens e ++ .comma :: tokensAll es
end

/-- The tokens of an expression where it is an operand. -/
def operandTokens (e : Expr) : List Token := e.asOperandTokens e.tokens

/-! ## Trees that are read -/

/-- The numeral of a literal that has a sign. -/
def negated? (e : Expr) : Option Numeral :=
  match e.numeral? with
  | some (true, n) => some n
  | _ => none

/-- The tree that stands for a numeric literal: a constant of its class for a number that is not
finite, and otherwise the literal itself. -/
def spelledNumber (e : Expr) : Expr :=
  match e.constant? with
  | some (className, constant) => field (name className) constant
  | none => e

/-- Whether an expression makes an array of a given size. -/
def isNewArray : Expr → Bool
  | newArray .. => true
  | _ => false

mutual
/-- The tree that the grammar reads from the tokens of an expression. -/
def reading : Expr → Option Expr
  | assign target value => do return assign (← reading target) (← reading value)
  | null => some null
  | name n => some (name n)
  | new (.named n) args => do return new (.named n) (← readingAll args)
  | new .. => none
  | newArray (.array _) _ => none
  | newArray element size => do return newArray element (← reading size)
  | arrayInit element items => do return arrayInit element (← readingAll items)
  | cast type operand =>
    match type, operand.negated? with
    | .array _, some _ => none
    -- the sign is taken for an operator
    | .named n, some m => do return binary .minus (name n) (← m.literal? false)
    | _, _ => do return cast type (← reading operand)
  | classLit type => some (classLit type)
  | access array index =>
    if array.isNewArray then none else do return access (← reading array) (← reading index)
  | field object n => do return field (← reading object) n
  | call n args => do return call n (← readingAll args)
  | methodCall object n args => do return methodCall (← reading object) n (← readingAll args)
  | binary op left right => do return binary op (← reading left) (← reading right)
  | postIncrement operand => do return postIncrement (← reading operand)
  | booleanLit b => some (booleanLit b)
  | intLit n => some (intLit n)
  | longLit n => some (longLit n)
  | floatLit x => some (spelledNumber (floatLit x))
  | doubleLit x => some (spelledNumber (doubleLit x))
  | charLit unit => some (charLit unit)
  | stringLit s => some (stringLit s)

/-- The trees that the grammar reads from the tokens of expressions. -/
def readingAll : List Expr → Option (List Expr)
  | [] => some []
  | e :: es => do return (← reading e) :: (← readingAll es)
end

end Expr

/-! ## Shapes -/

namespace Expr

mutual
/-- Whether an expression and all that it is made of have a property. -/
def Every (P : Expr → Prop) : Expr → Prop
  | assign target value => P (assign target value) ∧ Every P target ∧ Every P value
  | null => P null
  | name n => P (name n)
  | new type args => P (new type args) ∧ EveryAll P args
  | newArray element size => P (newArray element size) ∧ Every P size
  | arrayInit element items => P (arrayInit element items) ∧ EveryAll P items
  | cast type operand => P (cast type operand) ∧ Every P operand
  | classLit type => P (classLit type)
  | access array index => P (access array index) ∧ Every P array ∧ Every P index
  | field object n => P (field object n) ∧ Every P object
  | call n args => P (call n args) ∧ EveryAll P args
  | methodCall object n args => P (methodCall object n args) ∧ Every P object ∧ EveryAll P args
  | binary op left right => P (binary op left right) ∧ Every P left ∧ Every P right
  | postIncrement operand => P (postIncrement operand) ∧ Every P operand
  | booleanLit b => P (booleanLit b)
  | intLit n => P (intLit n)
  | longLit n => P (longLit n)
  | floatLit x => P (floatLit x)
  | doubleLit x => P (doubleLit x)
  | charLit unit => P (charLit unit)
  | stringLit s => P (stringLit s)

/-- Whether all that some expressions are made of has a property. -/
def EveryAll (P : Expr → Prop) : List Expr → Prop
  | [] => True
  | e :: es => Every P e ∧ EveryAll P es
end

/-- Whether the parts of an expression are of the forms that it asks for: what is assigned to or
increased is a variable, a field or an item of an array, and no number has members or items. -/
def IsShaped : Expr → Prop
  | assign target _ | postIncrement target => target.isTarget = true
  | access object _ | field object _ | methodCall object _ _ => object.isNumeric = false
  | _ => True

end Expr

/-! ### Properties of all parts -/

namespace Expr

section

variable {P Q R : Expr → Prop}

mutual
/-- What follows at each part from two properties holds of all parts. The induction is on the tree,
with its lists of arguments. -/
theorem every_imp₂ (himp : ∀ e, P e → Q e → R e) : (e : Expr) → e.Every P → e.Every Q → e.Every R
  | assign target value, hp, hq =>
    ⟨himp _ hp.1 hq.1, every_imp₂ himp target hp.2.1 hq.2.1, every_imp₂ himp value hp.2.2 hq.2.2⟩
  | null, hp, hq => himp _ hp hq
  | name _, hp, hq => himp _ hp hq
  | new _ args, hp, hq => ⟨himp _ hp.1 hq.1, everyAll_imp₂ himp args hp.2 hq.2⟩
  | newArray _ size, hp, hq => ⟨himp _ hp.1 hq.1, every_imp₂ himp size hp.2 hq.2⟩
  | arrayInit _ items, hp, hq => ⟨himp _ hp.1 hq.1, everyAll_imp₂ himp items hp.2 hq.2⟩
  | cast _ operand, hp, hq => ⟨himp _ hp.1 hq.1, every_imp₂ himp operand hp.2 hq.2⟩
  | classLit _, hp, hq => himp _ hp hq
  | access array index, hp, hq =>
    ⟨himp _ hp.1 hq.1, every_imp₂ himp array hp.2.1 hq.2.1, every_imp₂ himp index hp.2.2 hq.2.2⟩
  | field object _, hp, hq => ⟨himp _ hp.1 hq.1, every_imp₂ himp object hp.2 hq.2⟩
  | call _ args, hp, hq => ⟨himp _ hp.1 hq.1, everyAll_imp₂ himp args hp.2 hq.2⟩
  | methodCall object _ args, hp, hq =>
    ⟨himp _ hp.1 hq.1, every_imp₂ himp object hp.2.1 hq.2.1, everyAll_imp₂ himp args hp.2.2 hq.2.2⟩
  | binary _ left right, hp, hq =>
    ⟨himp _ hp.1 hq.1, every_imp₂ himp left hp.2.1 hq.2.1, every_imp₂ himp right hp.2.2 hq.2.2⟩
  | postIncrement operand, hp, hq => ⟨himp _ hp.1 hq.1, every_imp₂ himp operand hp.2 hq.2⟩
  | booleanLit _, hp, hq => himp _ hp hq
  | intLit _, hp, hq => himp _ hp hq
  | longLit _, hp, hq => himp _ hp hq
  | floatLit _, hp, hq => himp _ hp hq
  | doubleLit _, hp, hq => himp _ hp hq
  | charLit _, hp, hq => himp _ hp hq
  | stringLit _, hp, hq => himp _ hp hq

theorem everyAll_imp₂ (himp : ∀ e, P e → Q e → R e) :
    (es : List Expr) → EveryAll P es → EveryAll Q es → EveryAll R es
  | [], _, _ => trivial
  | e :: es, hp, hq => ⟨every_imp₂ himp e hp.1 hq.1, everyAll_imp₂ himp es hp.2 hq.2⟩
end

theorem Every.imp {e : Expr} (himp : ∀ e, P e → Q e) (h : e.Every P) :
    e.Every Q :=
  every_imp₂ (fun e hp _ => himp e hp) e h h

end

theorem every_of_everyAll {P : Expr → Prop} {es : List Expr} (h : EveryAll P es) :
    ∀ e ∈ es, e.Every P := by
  induction es with
  | nil => nofun
  | cons e es ih => exact List.forall_mem_cons.mpr ⟨h.1, ih h.2⟩

end Expr

/-! ## Types -/

/-- A type is read back up to the dimensions that follow it. -/
theorem readType_tokens (t : Ty) (rest : List Token) :
    readType (t.tokens ++ rest) = some (readDims t rest) := by
  induction t generalizing rest with
  | prim k => rfl
  | named n => rfl
  | array t ih =>
    rw [Ty.tokens, List.append_assoc, ih]
    rfl

/-- Whether no dimension of a type comes next. -/
def NoDims (ts : List Token) : Prop := ∀ ts', ts ≠ .openSquare :: .closeSquare :: ts'

/-- Where no dimension follows, none is read. -/
theorem readDims_eq_self {t : Ty} {ts : List Token} (h : NoDims ts) : readDims t ts = (t, ts) := by
  rw [readDims]
  exact h

theorem noDims_of_ne {t : Token} {ts : List Token} (h : t ≠ .openSquare) : NoDims (t :: ts) := by
  rintro ts' heq
  injection heq with heq _
  exact h heq

/-- A type in parentheses is read back. -/
theorem readCastType_tokens (t : Ty) (rest : List Token) :
    readCastType (.openRound :: (t.tokens ++ .closeRound :: rest)) = some (t, rest) := by
  rw [readCastType, readType_tokens, readDims_eq_self (noDims_of_ne (by decide))]
  simp

/-- A type with the word `class` behind it is read back. -/
theorem readClassLit_tokens (t : Ty) (rest : List Token) :
    readClassLit (t.tokens ++ .dot :: .classWord :: rest) = some (t, rest) := by
  rw [readClassLit, readType_tokens, readDims_eq_self (noDims_of_ne (by decide))]
  simp

/-- A token that begins no type is read as none. -/
theorem readType_of_base {t : Token} (h : t.base? = none) (rest : List Token) :
    readType (t :: rest) = none := by
  rw [readType, h]
  rfl

theorem readClassLit_of_base {t : Token} (h : t.base? = none) (rest : List Token) :
    readClassLit (t :: rest) = none := by
  rw [readClassLit, readType_of_base h]
  rfl

/-- A cast begins with a parenthesis. -/
theorem readCastType_of_ne {t : Token} (h : t ≠ .openRound) (rest : List Token) :
    readCastType (t :: rest) = none := by
  rw [readCastType]
  rintro ts heq
  injection heq with heq _
  exact h heq

/-! ## Numbers -/

/-- A number and its sign make up the literal they were taken from, also the least one. -/
theorem literal?_int (n : Int32) :
    (Numeral.int n.toInt.natAbs).literal? (n.toInt < 0) = some (.intLit n) := by
  have hlo := Int32.le_toInt n
  have hhi := Int32.toInt_lt n
  have hvalue : (if n.toInt < 0 then -(n.toInt.natAbs : Int) else n.toInt.natAbs) = n.toInt := by
    split <;> omega
  rw [Numeral.literal?, if_pos (by simp only [decide_eq_true_eq]; omega)]
  simp only [decide_eq_true_eq, hvalue, Int32.ofInt_toInt]

/-- The same for long numbers. -/
theorem literal?_long (n : Int64) :
    (Numeral.long n.toInt.natAbs).literal? (n.toInt < 0) = some (.longLit n) := by
  have hlo := Int64.le_toInt n
  have hhi := Int64.toInt_lt n
  have hvalue : (if n.toInt < 0 then -(n.toInt.natAbs : Int) else n.toInt.natAbs) = n.toInt := by
    split <;> omega
  rw [Numeral.literal?, if_pos (by simp only [decide_eq_true_eq]; omega)]
  simp only [decide_eq_true_eq, hvalue, Int64.ofInt_toInt]

/-- A number is either finite, and has a numeral, or it has a constant. -/
theorem number_cases {l : Layout} (numeral : Fin (l.infinity + 1) → Numeral) (x : Number l) :
    (∃ negative code, x = .magnitude negative code ∧
        numberNumeral? numeral x = some (negative, numeral code) ∧ numberConstant? x = none) ∨
      numberNumeral? numeral x = none ∧ ∃ constant, numberConstant? x = some constant := by
  cases x with
  | notANumber => exact .inr ⟨rfl, _, rfl⟩
  | magnitude negative code =>
    by_cases h : code.val = l.infinity
    · exact .inr ⟨if_pos h, _, if_pos h⟩
    · exact .inl ⟨negative, code, rfl, if_neg h, if_neg h⟩

/-- A numeric literal is written as a numeral, or as a constant. -/
theorem numeric_cases {e : Expr} (h : e.isNumeric = true) :
    (∃ negative n, e.numeral? = some (negative, n) ∧ n.literal? negative = some e ∧
        e.tokens = n.tokens negative ∧ e.reading = some e) ∨
      ∃ className constant, e.numeral? = none ∧
        e.tokens = [.name className, .dot, .name constant] ∧
        e.reading = some (.field (.name className) constant) := by
  -- Floating-point numbers without digits are the constants of their class; all other numbers are
  -- numerals.
  cases e with
  | intLit n => exact .inl ⟨_, _, rfl, literal?_int n, rfl, rfl⟩
  | longLit n => exact .inl ⟨_, _, rfl, literal?_long n, rfl, rfl⟩
  | floatLit x =>
    rcases number_cases .float x with
      ⟨negative, code, rfl, hnumeral, hconstant⟩ | ⟨hnumeral, constant, hconstant⟩
    · refine .inl ⟨negative, .float code, hnumeral, rfl, ?_, ?_⟩
      · simp [Expr.tokens, Expr.numberTokens, Expr.numeral?, hnumeral]
      · simp [Expr.reading, Expr.spelledNumber, Expr.constant?, hconstant]
    · refine .inr ⟨"Float", constant, hnumeral, ?_, ?_⟩
      · simp [Expr.tokens, Expr.numberTokens, Expr.numeral?, Expr.constant?, hnumeral, hconstant]
      · simp [Expr.reading, Expr.spelledNumber, Expr.constant?, hconstant]
  | doubleLit x =>
    rcases number_cases .double x with
      ⟨negative, code, rfl, hnumeral, hconstant⟩ | ⟨hnumeral, constant, hconstant⟩
    · refine .inl ⟨negative, .double code, hnumeral, rfl, ?_, ?_⟩
      · simp [Expr.tokens, Expr.numberTokens, Expr.numeral?, hnumeral]
      · simp [Expr.reading, Expr.spelledNumber, Expr.constant?, hconstant]
    · refine .inr ⟨"Double", constant, hnumeral, ?_, ?_⟩
      · simp [Expr.tokens, Expr.numberTokens, Expr.numeral?, Expr.constant?, hnumeral, hconstant]
      · simp [Expr.reading, Expr.spelledNumber, Expr.constant?, hconstant]
  | _ => cases h

/-! ## First tokens -/

/-- Types begin with the token of their innermost element type. -/
theorem Ty.exists_tokens (t : Ty) : ∃ u ts, t.tokens = u :: ts ∧ ∃ base, u.base? = some base := by
  induction t with
  | prim k => exact ⟨_, _, rfl, _, rfl⟩
  | named n => exact ⟨_, _, rfl, _, rfl⟩
  | array t ih =>
    obtain ⟨u, ts, htokens, hbase⟩ := ih
    exact ⟨u, ts ++ [.openSquare, .closeSquare], by rw [Ty.tokens, htokens]; rfl, hbase⟩

theorem Token.startsOperand_of_base {t : Token} {base : Ty} (h : t.base? = some base) :
    t.startsOperand = true := by
  cases t <;> first | rfl | cases h

namespace Expr

theorem operandTokens_of_compound {e : Expr} (h : e.isCompound = true) :
    e.operandTokens = .openRound :: (e.tokens ++ [.closeRound]) := if_pos h

theorem operandTokens_of_not_compound {e : Expr} (h : e.isCompound = false) :
    e.operandTokens = e.tokens := if_neg (by simp [h])

/-- Numbers stand without parentheses, also with a sign. -/
theorem not_compound_of_numeric {e : Expr} (h : e.isNumeric = true) : e.isCompound = false := by
  cases e <;> first | rfl | cases h

theorem not_compound_of_target {e : Expr} (h : e.isTarget = true) : e.isCompound = false := by
  cases e <;> first | rfl | cases h

theorem not_numeric_of_target {e : Expr} (h : e.isTarget = true) : e.isNumeric = false := by
  cases e <;> first | rfl | cases h

theorem negated?_of_not_numeric {e : Expr} (h : e.isNumeric = false) : e.negated? = none := by
  cases e <;> first | rfl | cases h

/-- What stands before the suffixes of an expression is an operand like any other. -/
theorem operandTokens_access (array index : Expr) :
    (access array index).operandTokens =
      array.operandTokens ++ .openSquare :: (index.tokens ++ [.closeSquare]) :=
  List.append_assoc ..

theorem operandTokens_field (object : Expr) (n : String) :
    (field object n).operandTokens = object.operandTokens ++ [.dot, .name n] := rfl

theorem operandTokens_methodCall (object : Expr) (n : String) (args : List Expr) :
    (methodCall object n args).operandTokens =
      object.operandTokens ++ .dot :: .name n :: .openRound :: (tokensAll args ++ [.closeRound]) :=
  List.append_assoc ..

/-- A number begins as itself or with its sign. -/
theorem exists_head?_numeric {e : Expr} (h : e.isNumeric = true) :
    ∃ t, e.operandTokens.head? = some t ∧
      (t.startsOperand = true ∨ t = .minus ∧ e.negated? ≠ none) := by
  rw [operandTokens_of_not_compound (not_compound_of_numeric h)]
  rcases numeric_cases h with ⟨negative, n, hnumeral, -, htokens, -⟩ | ⟨_, _, -, htokens, -⟩
  · rw [htokens, negated?, hnumeral]
    cases negative
    · exact ⟨_, rfl, .inl rfl⟩
    · exact ⟨_, rfl, .inr ⟨rfl, nofun⟩⟩
  · exact ⟨_, by rw [htokens]; rfl, .inl rfl⟩

/-- An operand begins with a token that starts one, unless it is a numeral with a sign. -/
theorem exists_head?_operandTokens : (e : Expr) → e.Every IsShaped →
    ∃ t, e.operandTokens.head? = some t ∧
      (t.startsOperand = true ∨ t = .minus ∧ e.negated? ≠ none)
  | assign .., _ | cast .., _ | binary .., _ | postIncrement .., _ => ⟨_, rfl, .inl rfl⟩
  | null, _ | name _, _ | new .., _ | newArray .., _ | arrayInit .., _ | call .., _
  | booleanLit _, _ | charLit _, _ | stringLit _, _ => ⟨_, rfl, .inl rfl⟩
  | classLit t, _ => by
    obtain ⟨u, ts, htokens, base, hbase⟩ := t.exists_tokens
    refine ⟨u, ?_, .inl (Token.startsOperand_of_base hbase)⟩
    rw [operandTokens_of_not_compound rfl, tokens, htokens]
    rfl
  | access a i, h => by
    -- what has a suffix begins with what the suffix belongs to, and that is no number
    obtain ⟨t, ht, hstarts⟩ := exists_head?_operandTokens a h.2.1
    rw [negated?_of_not_numeric h.1] at hstarts
    refine ⟨t, ?_, .inl (by simpa using hstarts)⟩
    rw [operandTokens_access, List.head?_append, ht]
    rfl
  | field o n, h => by
    obtain ⟨t, ht, hstarts⟩ := exists_head?_operandTokens o h.2
    rw [negated?_of_not_numeric h.1] at hstarts
    refine ⟨t, ?_, .inl (by simpa using hstarts)⟩
    rw [operandTokens_field, List.head?_append, ht]
    rfl
  | methodCall o n args, h => by
    obtain ⟨t, ht, hstarts⟩ := exists_head?_operandTokens o h.2.1
    rw [negated?_of_not_numeric h.1] at hstarts
    refine ⟨t, ?_, .inl (by simpa using hstarts)⟩
    rw [operandTokens_methodCall, List.head?_append, ht]
    rfl
  | intLit n, _ => exists_head?_numeric rfl
  | longLit n, _ => exists_head?_numeric rfl
  | floatLit x, _ => exists_head?_numeric rfl
  | doubleLit x, _ => exists_head?_numeric rfl

/-- Every expression begins with a token that begins an operand, or with a sign. -/
theorem exists_head?_tokens {e : Expr} (h : e.Every IsShaped) :
    ∃ t, e.tokens.head? = some t ∧ (t.startsOperand = true ∨ t = .minus) := by
  have hoperand (o : Expr) (ts : List Token) (ho : o.Every IsShaped) :
      ∃ t, (o.operandTokens ++ ts).head? = some t ∧ (t.startsOperand = true ∨ t = .minus) := by
    obtain ⟨t, ht, hstarts⟩ := exists_head?_operandTokens o ho
    exact ⟨t, by rw [List.head?_append, ht]; rfl, hstarts.imp_right And.left⟩
  -- A compound expression starts with its first operand, but for a cast, which starts with a
  -- parenthesis of its own.
  cases hcompound : e.isCompound with
  | false =>
    rw [← operandTokens_of_not_compound hcompound, ← List.append_nil e.operandTokens]
    exact hoperand e [] h
  | true =>
    cases e with
    | assign target value =>
      obtain ⟨htarget, hparts, -⟩ := h
      rw [tokens, ← operandTokens_of_not_compound (not_compound_of_target htarget)]
      exact hoperand target _ hparts
    | cast type operand => exact ⟨_, rfl, .inl rfl⟩
    | binary op left right => exact hoperand left _ h.2.1
    | postIncrement operand => exact hoperand operand _ h.2
    | _ => cases hcompound

end Expr

/-! ## Types in brackets -/

theorem readCastType_of_base {t : Token} (h : t.base? = none) (rest : List Token) :
    readCastType (.openRound :: t :: rest) = none := by
  rw [readCastType, readType_of_base h]
  rfl

/-- A name behind a parenthesis is no type to cast to unless the parenthesis closes at once. -/
theorem readCastType_of_name {ts : List Token} (hdims : NoDims ts)
    (hclose : ts.head? ≠ some .closeRound) (n : String) :
    readCastType (.openRound :: .name n :: ts) = none := by
  show (some (readDims (.named n) ts) >>= fun p =>
    expect .closeRound p.2 >>= fun ts => pure (p.1, ts)) = none
  rw [readDims_eq_self hdims]
  simp [expect_of_head?_ne hclose]

namespace Expr

/-- Between square brackets stands an index. -/
theorem noDims_index {e : Expr} (h : e.Every IsShaped) (ts : List Token) :
    NoDims (.openSquare :: (e.tokens ++ ts)) := by
  obtain ⟨t, ht, hstarts⟩ := exists_head?_tokens h
  obtain ⟨rest, htokens⟩ := List.head?_eq_some_iff.mp ht
  rw [htokens]
  -- a dimension would close its bracket at once, where the index has its first token
  rintro ts' heq
  injection heq with _ heq
  injection heq with heq _
  subst heq
  rcases hstarts with hstarts | hstarts <;> cases hstarts

/-- A number behind a parenthesis is no type. -/
theorem readCastType_numeric {e : Expr} (h : e.isNumeric = true) (ts : List Token) :
    readCastType (.openRound :: (e.operandTokens ++ ts)) = none := by
  rw [operandTokens_of_not_compound (not_compound_of_numeric h)]
  rcases numeric_cases h with ⟨negative, n, -, -, htokens, -⟩ | ⟨_, _, -, htokens, -⟩ <;>
    rw [htokens]
  · cases negative <;> exact readCastType_of_base rfl _
  · exact readCastType_of_name (noDims_of_ne (by decide)) (by simp) _

/-- Only a name by itself is a type. -/
theorem readCastType_enclosed : (e : Expr) → e.Every IsShaped → {ts : List Token} → NoDims ts →
    ts.head? ≠ some .closeRound → readCastType (.openRound :: (e.operandTokens ++ ts)) = none
  | assign .., _, _, _, _ | cast .., _, _, _, _ | binary .., _, _, _, _
  | postIncrement .., _, _, _, _ | null, _, _, _, _ | new .., _, _, _, _
  | newArray .., _, _, _, _ | arrayInit .., _, _, _, _
  | booleanLit _, _, _, _, _ | charLit _, _, _, _, _ | stringLit _, _, _, _, _ =>
    readCastType_of_base rfl _
  | name n, _, _, hdims, hclose => readCastType_of_name hdims hclose n
  | call n _, _, _, _, _ => readCastType_of_name (noDims_of_ne (by decide)) (by simp) n
  | classLit t, _, _, _, _ => by
    rw [operandTokens_of_not_compound rfl, tokens, List.append_assoc, readCastType, readType_tokens]
    rfl
  | access a i, h, ts, _, _ => by
    -- the index is not empty, so its brackets are no dimension of a type
    rw [operandTokens_access, List.append_assoc]
    refine readCastType_enclosed a h.2.1 ?_ (by simp)
    rw [List.cons_append, List.append_assoc]
    exact noDims_index h.2.2 _
  | field o n, h, _, _, _ => by
    rw [operandTokens_field, List.append_assoc]
    exact readCastType_enclosed o h.2 (noDims_of_ne (by decide)) (by simp)
  | methodCall o n args, h, _, _, _ => by
    rw [operandTokens_methodCall, List.append_assoc]
    exact readCastType_enclosed o h.2.1 (noDims_of_ne (by decide)) (by simp)
  | intLit n, _, _, _, _ => readCastType_numeric rfl _
  | longLit n, _, _, _, _ => readCastType_numeric rfl _
  | floatLit x, _, _, _, _ => readCastType_numeric rfl _
  | doubleLit x, _, _, _, _ => readCastType_numeric rfl _

/-- What is put in brackets as an operand is no type. -/
theorem readCastType_compound {e : Expr} (h : e.Every IsShaped) (hcompound : e.isCompound = true)
    (ts : List Token) : readCastType (e.operandTokens ++ ts) = none := by
  rw [operandTokens_of_compound hcompound, List.cons_append, List.append_assoc]
  -- Behind the parenthesis stands an operand. It may read as the name of a type, but a sign comes
  -- after it, where a cast would close its parenthesis or go on with brackets.
  cases e with
  | assign target value =>
    obtain ⟨htarget, hparts, -⟩ := h
    rw [tokens, ← operandTokens_of_not_compound (not_compound_of_target htarget), List.append_assoc]
    exact readCastType_enclosed target hparts (noDims_of_ne (by decide)) (by simp)
  | cast type operand => exact readCastType_of_base rfl _
  | binary op left right =>
    rw [tokens, List.append_assoc]
    exact readCastType_enclosed left h.2.1 (noDims_of_ne (by cases op <;> decide))
      (by cases op <;> simp [BinOp.token])
  | postIncrement operand =>
    rw [tokens, List.append_assoc]
    exact readCastType_enclosed operand h.2 (noDims_of_ne (by decide)) (by simp)
  | _ => cases hcompound

/-- An operand is not taken for a cast. -/
theorem readCastType_operand : (e : Expr) → e.Every IsShaped → (ts : List Token) →
    readCastType (e.operandTokens ++ ts) = none
  | assign .., h, ts | cast .., h, ts | binary .., h, ts | postIncrement .., h, ts =>
    readCastType_compound h rfl ts
  | null, _, _ | name _, _, _ | new .., _, _ | newArray .., _, _ | arrayInit .., _, _
  | call .., _, _ | booleanLit _, _, _ | charLit _, _, _ | stringLit _, _, _ =>
    readCastType_of_ne (by simp) _
  | classLit t, _, ts => by
    obtain ⟨u, us, htokens, base, hbase⟩ := t.exists_tokens
    rw [operandTokens_of_not_compound rfl, tokens, htokens]
    refine readCastType_of_ne ?_ _
    rintro rfl
    cases hbase
  | access a i, h, ts => by
    rw [operandTokens_access, List.append_assoc]
    exact readCastType_operand a h.2.1 _
  | field o n, h, ts => by
    rw [operandTokens_field, List.append_assoc]
    exact readCastType_operand o h.2 _
  | methodCall o n args, h, ts => by
    rw [operandTokens_methodCall, List.append_assoc]
    exact readCastType_operand o h.2.1 _
  | intLit n, _, _ => hnumeric rfl
  | longLit n, _, _ => hnumeric rfl
  | floatLit x, _, _ => hnumeric rfl
  | doubleLit x, _, _ => hnumeric rfl
where
  hnumeric {e : Expr} {ts : List Token} (h : e.isNumeric = true) :
      readCastType (e.operandTokens ++ ts) = none := by
    rw [operandTokens_of_not_compound (not_compound_of_numeric h)]
    rcases numeric_cases h with ⟨negative, n, -, -, htokens, -⟩ | ⟨_, _, -, htokens, -⟩ <;>
      rw [htokens]
    · cases negative <;> exact readCastType_of_ne (by simp) _
    · exact readCastType_of_ne (by simp) _

end Expr

end ArrayBridge.Java
