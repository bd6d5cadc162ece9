import ArrayBridge.Proofs.Java.TreeTokens
import Mathlib.Data.Option.Basic
import Mathlib.Tactic.ByContra
import Mathlib.Tactic.Conv

/-!
# What the grammar makes of a tree

The grammar is followed level by level: an operand with its suffixes, then signs and casts, then
operators. Each form has a theorem of its own, and an induction over the tree puts them together.

Main results:

* `readsOperand_access`, `readSuffixed_newArray` — square brackets behind operands.
* `reads_cast` — casts, with or without a sign behind them.
* `readTokens_tokens` — the tree that is read from the tokens of a tree.
-/

namespace ArrayBridge.Java

open Binary (Layout Number)

/-! ## Levels -/

/-- Whether an operand may have suffixes where tokens follow: they do not make it a call, a type or
a class literal. -/
structure SuffixesFollow (ts : List Token) : Prop where
  noCall : ts.head? ≠ some .openRound
  noDims : NoDims ts
  noClass : ∀ ts', ts ≠ .dot :: .classWord :: ts'

/-- What may follow an operand may follow its suffixes: it begins no further one. -/
theorem EndsOperand.suffixesFollow {ts : List Token} (h : EndsOperand ts) : SuffixesFollow ts := by
  refine ⟨fun heq => h _ heq (by simp), ?_, ?_⟩
  · rintro ts' rfl
    exact h _ rfl (by simp)
  · rintro ts' rfl
    exact h _ rfl (by simp)

theorem EndsOperand.head?_ne {ts : List Token} (h : EndsOperand ts) {t : Token}
    (ht : t ∈ [Token.openRound, .openSquare, .dot, .increment]) : ts.head? ≠ some t :=
  fun heq => h t heq ht

/-- Whether an operand without a sign is read with the suffixes behind it. -/
def ReadsOperand (e : Expr) : Prop :=
  e.negated? = none → ∀ ts, SuffixesFollow ts →
    (e.isNewArray = true → ts.head? ≠ some .openSquare) →
    Level.suffixed.read (e.operandTokens ++ ts) = e.reading.bind fun o => (Level.suffixes o).read ts

/-- What an expression is read as, by itself and as an operand. -/
structure Reads (e : Expr) : Prop where
  operand : ReadsOperand e
  /-- Square brackets behind an array that is made are further dimensions. -/
  dims : e.isNewArray = true → ∀ ts, ts.head? = some .openSquare →
    Level.suffixed.read (e.operandTokens ++ ts) = none
  whole : ∀ ts, EndsExpr ts → Level.expr.read (e.tokens ++ ts) = e.reading.map (·, ts)

section

variable {e : Expr} {x : Option Expr} {ts rest : List Token}

/-- A suffixed expression is a primary one and the suffixes after it. -/
theorem readSuffixed_of_primary (h : Level.primary.read ts = x.map (·, rest)) :
    Level.suffixed.read ts = x.bind fun o => (Level.suffixes o).read rest := by
  rw [Level.read, h]
  cases x <;> rfl

/-- An operand without a sign is none of the casts. -/
theorem readUnary_operand (he : e.Every Expr.IsShaped) (hnegated : e.negated? = none)
    (ts : List Token) :
    Level.unary.read (e.operandTokens ++ ts) = Level.suffixed.read (e.operandTokens ++ ts) := by
  -- An operand starts with a sign only if it is a negative number, and it never reads as a cast.
  obtain ⟨t, ht, hstarts⟩ := Expr.exists_head?_operandTokens e he
  have hminus : (e.operandTokens ++ ts).head? ≠ some .minus := by
    rw [List.head?_append, ht, Option.some_or]
    intro heq
    rw [Option.some.inj heq] at hstarts
    rcases hstarts with hstarts | hsign
    · cases hstarts
    · exact hsign.2 hnegated
  rw [Level.read, Level.read, Expr.readCastType_operand e he ts]
  intro n ts' heq
  exact hminus (congrArg List.head? heq)

/-- A term that no minus follows is a sum by itself. -/
theorem readSum_of_unary (h : Level.unary.read ts = x.map (·, rest))
    (hrest : rest.head? ≠ some .minus) : Level.sum.read ts = x.map (·, rest) := by
  rw [Level.read, h]
  cases x with
  | none => rfl
  | some e => exact readMinus_eq_self hrest

/-- A sum that no comparison follows is a relation by itself. -/
theorem readRelation_of_sum (h : Level.sum.read ts = x.map (·, rest))
    (hrest : rest.head? ≠ some .less) : Level.relation.read ts = x.map (·, rest) := by
  rw [Level.read, h]
  cases x with
  | none => rfl
  | some e => exact readLess_eq_self hrest

/-- A relation that no assignment follows is an expression by itself. -/
theorem readExpr_of_relation (h : Level.relation.read ts = x.map (·, rest))
    (hrest : rest.head? ≠ some .assign) : Level.expr.read ts = x.map (·, rest) := by
  rw [Level.read, h]
  cases x with
  | none => rfl
  | some e => exact readAssigned_eq_self hrest

/-- What ends an expression is none of the operators in between. -/
theorem readExpr_of_unary (h : Level.unary.read ts = x.map (·, rest)) (hrest : EndsExpr rest) :
    Level.expr.read ts = x.map (·, rest) :=
  readExpr_of_relation (readRelation_of_sum (readSum_of_unary h (hrest.head?_ne (by simp)))
    (hrest.head?_ne (by simp))) (hrest.head?_ne (by simp))

/-- An operand is read up to its end. A sign belongs to the numeral behind it. -/
theorem ReadsOperand.readUnary (h : ReadsOperand e) (he : e.Every Expr.IsShaped)
    (hts : EndsOperand ts) : Level.unary.read (e.operandTokens ++ ts) = e.reading.map (·, ts) := by
  by_cases hnegated : e.negated? = none
  · -- without a sign there are the suffixes to end, and none follows
    rw [readUnary_operand he hnegated,
      h hnegated ts hts.suffixesFollow fun _ => hts.head?_ne (by simp)]
    cases e.reading with
    | none => rfl
    | some e' => exact readSuffixes_eq_self hts
  · -- only a number has a sign, and then its tokens are the sign and the numeral
    have hnumeric : e.isNumeric = true := by
      by_contra hnumeric
      exact hnegated (Expr.negated?_of_not_numeric (by simpa using hnumeric))
    rw [Expr.operandTokens_of_not_compound (Expr.not_compound_of_numeric hnumeric)]
    rcases numeric_cases hnumeric with ⟨negative, n, hnumeral, hliteral, htokens, hreading⟩ |
      ⟨_, _, hnumeral, -⟩
    · rw [htokens, hreading]
      cases negative with
      | false => exact absurd (by rw [Expr.negated?, hnumeral]) hnegated
      | true =>
        show Level.unary.read (.minus :: .numeral n :: ts) = _
        rw [Level.read, hliteral]
    · exact absurd (by rw [Expr.negated?, hnumeral]) hnegated

/-- An expression that stands without parentheses is by itself what it is as an operand. -/
theorem Reads.of_operand (he : e.Every Expr.IsShaped) (hcompound : e.isCompound = false)
    (h : ReadsOperand e) (hdims : e.isNewArray = true → ∀ ts, ts.head? = some .openSquare →
      Level.suffixed.read (e.operandTokens ++ ts) = none) : Reads e := by
  refine ⟨h, hdims, fun ts hts => ?_⟩
  have hunary := h.readUnary he hts.endsOperand
  rw [Expr.operandTokens_of_not_compound hcompound] at hunary
  exact readExpr_of_unary hunary hts

/-- What an expression in parentheses is read as does not depend on the parentheses. -/
theorem readPrimary_enclosed (h : Level.expr.read ts = x.map (·, .closeRound :: rest)) :
    Level.primary.read (.openRound :: ts) = x.map (·, rest) := by
  rw [Level.read, readClassLit_of_base rfl]
  show (Level.expr.read ts).bind _ = _
  rw [h]
  cases x with
  | none => rfl
  | some e => simp

/-- Brackets keep an expression together. -/
theorem Reads.of_compound (hcompound : e.isCompound = true)
    (h : ∀ ts, EndsExpr ts → Level.expr.read (e.tokens ++ ts) = e.reading.map (·, ts)) :
    Reads e := by
  have hnew : e.isNewArray ≠ true := by
    cases e <;> first | exact Bool.false_ne_true | cases hcompound
  refine ⟨fun _ ts _ _ => readSuffixed_of_primary ?_, fun h => absurd h hnew, h⟩
  rw [Expr.operandTokens_of_compound hcompound, List.cons_append, List.append_assoc]
  exact readPrimary_enclosed (h _ (by simp [EndsExpr]))

end

/-! ## Suffixes -/

section

variable {e : Expr} {n : String} {ts : List Token}

theorem readSuffixes_field (h : ts.head? ≠ some .openRound) :
    (Level.suffixes e).read (.dot :: .name n :: ts) = (Level.suffixes (.field e n)).read ts := by
  rw [Level.read]
  rintro ts rfl
  exact h rfl

/-- A name with a list in parentheses behind it is a call on what is in front. -/
theorem readSuffixes_methodCall :
    (Level.suffixes e).read (.dot :: .name n :: .openRound :: ts) =
      ((Level.items .closeRound).read ts).bind fun args =>
        (Level.suffixes (.methodCall e n args.1)).read args.2 := by
  rw [Level.read]
  rfl

theorem readSuffixes_access :
    (Level.suffixes e).read (.openSquare :: ts) = (Level.expr.read ts).bind fun index =>
      (expect .closeSquare index.2).bind (Level.suffixes (.access e index.1)).read := by
  conv_lhs => rw [Level.read]
  rfl

theorem readSuffixes_increment :
    (Level.suffixes e).read (.increment :: ts) = some (.postIncrement e, ts) := by
  rw [Level.read]

/-- A name is no class literal where neither a dimension nor the word `class` follows. -/
theorem readClassLit_name (hdims : NoDims ts) (hclass : ∀ ts', ts ≠ .dot :: .classWord :: ts')
    (n : String) : readClassLit (.name n :: ts) = none := by
  show (some (readDims (.named n) ts)).bind (fun t => (expect .dot t.2).bind fun ts =>
    (expect .classWord ts).bind fun ts => some (t.1, ts)) = none
  rw [readDims_eq_self hdims, Option.bind_some]
  -- a dot alone is that of a field or a call
  by_cases hdot : ts.head? = some .dot
  · obtain ⟨ts, rfl⟩ := List.head?_eq_some_iff.mp hdot
    have hword : ts.head? ≠ some .classWord := by
      intro heq
      obtain ⟨ts', rfl⟩ := List.head?_eq_some_iff.mp heq
      exact hclass ts' rfl
    rw [expect_cons_self, Option.bind_some, expect_of_head?_ne hword]
    rfl
  · rw [expect_of_head?_ne hdot]
    rfl

end

/-! ## Operands -/

/-- An operand without suffixes of its own. -/
theorem ReadsOperand.of_primary {e : Expr} (hcompound : e.isCompound = false)
    (h : ∀ ts, SuffixesFollow ts → (e.isNewArray = true → ts.head? ≠ some .openSquare) →
      Level.primary.read (e.tokens ++ ts) = e.reading.map (·, ts)) : ReadsOperand e := by
  intro _ ts hts hnew
  rw [Expr.operandTokens_of_not_compound hcompound]
  exact readSuffixed_of_primary (h ts hts hnew)

theorem readsOperand_null : ReadsOperand .null :=
  .of_primary rfl fun ts _ _ => by
    show Level.primary.read (.null :: ts) = _
    rw [Level.read, readClassLit_of_base rfl]
    rfl

theorem readsOperand_booleanLit (b : Bool) : ReadsOperand (.booleanLit b) :=
  .of_primary rfl fun ts _ _ => by
    show Level.primary.read (.boolean b :: ts) = _
    rw [Level.read, readClassLit_of_base rfl]
    rfl

theorem readsOperand_charLit (u : UInt16) : ReadsOperand (.charLit u) :=
  .of_primary rfl fun ts _ _ => by
    show Level.primary.read (.char u :: ts) = _
    rw [Level.read, readClassLit_of_base rfl]
    rfl

theorem readsOperand_stringLit (s : String) : ReadsOperand (.stringLit s) :=
  .of_primary rfl fun ts _ _ => by
    show Level.primary.read (.string s :: ts) = _
    rw [Level.read, readClassLit_of_base rfl]
    rfl

/-- A name by itself: no parenthesis makes it a call, no word makes it a class. -/
theorem readPrimary_name {ts : List Token} (h : SuffixesFollow ts) (n : String) :
    Level.primary.read (.name n :: ts) = some (.name n, ts) := by
  rw [Level.read, readClassLit_name h.noDims h.noClass]
  rintro ts rfl
  exact h.noCall rfl

/-- A name is read back as an operand. -/
theorem readsOperand_name (n : String) : ReadsOperand (.name n) :=
  .of_primary rfl fun _ hts _ => readPrimary_name hts n

theorem readsOperand_classLit (t : Ty) : ReadsOperand (.classLit t) :=
  .of_primary rfl fun ts _ _ => by
    have hlit : readClassLit ((Expr.classLit t).tokens ++ ts) = some (t, ts) := by
      rw [Expr.tokens, List.append_assoc]
      exact readClassLit_tokens t ts
    rw [Level.read.eq_def, hlit]
    rfl

/-- A numeral without a sign, or a constant. -/
theorem readsOperand_numeric {e : Expr} (h : e.isNumeric = true) : ReadsOperand e := by
  intro hnegated ts hts _
  rw [Expr.operandTokens_of_not_compound (Expr.not_compound_of_numeric h)]
  rcases numeric_cases h with ⟨negative, n, hnumeral, hliteral, htokens, hreading⟩ |
    ⟨className, constant, -, htokens, hreading⟩
  · rw [htokens, hreading]
    cases negative with
    | true => simp [Expr.negated?, hnumeral] at hnegated
    | false =>
      refine readSuffixed_of_primary ?_
      show Level.primary.read (.numeral n :: ts) = _
      rw [Level.read, readClassLit_of_base rfl, hliteral]
  · rw [htokens, hreading]
    -- a constant is read like any other field of a class
    have hfollows : SuffixesFollow (.dot :: .name constant :: ts) :=
      ⟨by simp, noDims_of_ne (by simp), by simp⟩
    show Level.suffixed.read (.name className :: .dot :: .name constant :: ts) = _
    rw [Level.read, readPrimary_name hfollows]
    exact readSuffixes_field hts.noCall

/-! ### Brackets -/

section

variable {ts : List Token}

/-- No expression begins with a bracket that closes a list. -/
theorem expect_tokens {e : Expr} (he : e.Every Expr.IsShaped) {close : Token}
    (hclose : close ∈ [Token.closeRound, .closeCurly]) : expect close (e.tokens ++ ts) = none := by
  obtain ⟨t, ht, hstarts⟩ := Expr.exists_head?_tokens he
  refine expect_of_head?_ne ?_
  rw [List.head?_append, ht, Option.some_or]
  intro heq
  rw [Option.some.inj heq] at hstarts
  simp only [List.mem_cons, List.not_mem_nil, or_false] at hclose
  -- no expression begins with a closing bracket
  rcases hclose with rfl | rfl <;> rcases hstarts with hstarts | hsign
  · cases hstarts
  · cases hsign
  · cases hstarts
  · cases hsign

/-- Expressions with commas between them, one after another. -/
theorem readMore_tokensAll {e : Expr} {es : List Expr} (h : ∀ e' ∈ e :: es, Reads e')
    {close : Token}
    (hclose : close ∈ [Token.closeRound, .closeCurly]) :
    (Level.more close).read (Expr.tokensAll (e :: es) ++ close :: ts) =
      (Expr.readingAll (e :: es)).map (·, ts) := by
  -- the last expression is followed by the closing bracket, every other by a comma
  induction es generalizing e with
  | nil =>
    have hends : EndsExpr (close :: ts) := by
      simp only [List.mem_cons, List.not_mem_nil, or_false] at hclose
      rcases hclose with rfl | rfl <;> simp [EndsExpr]
    rw [Expr.tokensAll, Level.read, (h e List.mem_cons_self).whole _ hends, Expr.readingAll]
    cases e.reading with
    | none => rfl
    | some e' =>
      simp only [List.mem_cons, List.not_mem_nil, or_false] at hclose
      rcases hclose with rfl | rfl <;> simp [Expr.readingAll]
  | cons e₂ es ih =>
    have hrest := ih fun e' he' => h e' (List.mem_cons_of_mem e he')
    rw [Expr.tokensAll, List.append_assoc, List.cons_append, Level.read,
      (h e List.mem_cons_self).whole _ (by simp [EndsExpr])]
    · rw [Expr.readingAll]
      cases e.reading with
      | none => rfl
      | some e' =>
        show ((Level.more close).read (Expr.tokensAll (e₂ :: es) ++ close :: ts)).bind _ = _
        rw [hrest]
        cases Expr.readingAll (e₂ :: es) <;> rfl
    · simp

/-- A list is read item by item. Each is followed by a comma or by the closing bracket, and either
ends an expression. -/
theorem readItems_tokensAll {es : List Expr} (he : ∀ e ∈ es, e.Every Expr.IsShaped)
    (h : ∀ e ∈ es, Reads e) {close : Token} (hclose : close ∈ [Token.closeRound, .closeCurly]) :
    (Level.items close).read (Expr.tokensAll es ++ close :: ts) =
      (Expr.readingAll es).map (·, ts) := by
  cases es with
  | nil =>
    rw [Expr.tokensAll, Level.read, List.nil_append, expect_cons_self]
    rfl
  | cons e es =>
    -- the list does not end where its first item starts
    have hnone : expect close (Expr.tokensAll (e :: es) ++ close :: ts) = none := by
      have hparts := he e List.mem_cons_self
      cases es with
      | nil => exact expect_tokens hparts hclose
      | cons e₂ es =>
        rw [Expr.tokensAll, List.append_assoc]
        · exact expect_tokens hparts hclose
        · simp
    rw [Level.read, hnone]
    exact readMore_tokensAll h hclose

end

/-! ### Calls and arrays -/

section

variable {args : List Expr} (hparts : ∀ e ∈ args, e.Every Expr.IsShaped)
  (hargs : ∀ e ∈ args, Reads e)

include hparts hargs

theorem readsOperand_call (n : String) : ReadsOperand (.call n args) :=
  .of_primary rfl fun ts _ _ => by
    rw [Expr.tokens, List.append_assoc]
    show Level.primary.read (.name n :: .openRound ::
      (Expr.tokensAll args ++ .closeRound :: ts)) = _
    rw [Level.read, readClassLit_name (noDims_of_ne (by simp)) (by simp)]
    show ((Level.items .closeRound).read (Expr.tokensAll args ++ .closeRound :: ts)).bind _ = _
    rw [readItems_tokensAll hparts hargs (by simp), Expr.reading]
    cases Expr.readingAll args <;> rfl

/-- Only of a class there are instances. -/
theorem readsOperand_new (t : Ty) : ReadsOperand (.new t args) :=
  .of_primary rfl fun ts _ _ => by
    rw [Expr.tokens, List.append_assoc, List.append_assoc]
    show Level.primary.read (.new :: (t.tokens ++ .openRound ::
      (Expr.tokensAll args ++ .closeRound :: ts))) = _
    rw [Level.read, readClassLit_of_base rfl]
    show Level.creation.read _ = _
    rw [Level.read, readType_tokens, readDims_eq_self (noDims_of_ne (by simp))]
    -- arguments are read only where the type is that of a class
    cases t with
    | named n =>
      show ((Level.items .closeRound).read (Expr.tokensAll args ++ .closeRound :: ts)).bind _ = _
      rw [readItems_tokensAll hparts hargs (by simp), Expr.reading]
      cases Expr.readingAll args <;> rfl
    | prim k => rfl
    | array t => rfl

/-- The items between curly brackets belong to the array that is made, so no dimension is read in
their place. -/
theorem readsOperand_arrayInit (t : Ty) : ReadsOperand (.arrayInit t args) :=
  .of_primary rfl fun ts _ _ => by
    rw [Expr.tokens, List.append_assoc, List.append_assoc, List.append_assoc]
    show Level.primary.read (.new :: (t.tokens ++ .openSquare :: .closeSquare :: .openCurly ::
      (Expr.tokensAll args ++ .closeCurly :: ts))) = _
    rw [Level.read, readClassLit_of_base rfl]
    show Level.creation.read _ = _
    -- the brackets are a dimension of the type
    rw [Level.read, readType_tokens, readDims, readDims_eq_self (noDims_of_ne (by simp))]
    show ((Level.items .closeCurly).read (Expr.tokensAll args ++ .closeCurly :: ts)).bind _ = _
    rw [readItems_tokensAll hparts hargs (by simp), Expr.reading]
    cases Expr.readingAll args <;> rfl

/-- A call on an operand that is no number. -/
theorem readsOperand_methodCall {object : Expr} (hobject : ReadsOperand object)
    (hnumeric : object.isNumeric = false) (n : String) :
    ReadsOperand (.methodCall object n args) := by
  intro _ ts _ _
  have hfollows : SuffixesFollow (.dot :: .name n :: .openRound ::
      (Expr.tokensAll args ++ .closeRound :: ts)) := ⟨by simp, noDims_of_ne (by simp), by simp⟩
  rw [Expr.operandTokens_methodCall, List.append_assoc]
  show Level.suffixed.read (object.operandTokens ++
    .dot :: .name n :: .openRound :: (Expr.tokensAll args ++ [.closeRound] ++ ts)) = _
  rw [List.append_assoc]
  show Level.suffixed.read (object.operandTokens ++
    .dot :: .name n :: .openRound :: (Expr.tokensAll args ++ .closeRound :: ts)) = _
  rw [hobject (Expr.negated?_of_not_numeric hnumeric) _ hfollows (by simp), Expr.reading]
  cases object.reading with
  | none => rfl
  | some o =>
    show (Level.suffixes o).read _ = _
    rw [readSuffixes_methodCall, readItems_tokensAll hparts hargs (by simp)]
    cases Expr.readingAll args <;> rfl

end

/-- A field of an operand that is no number. -/
theorem readsOperand_field {object : Expr} (hobject : ReadsOperand object)
    (hnumeric : object.isNumeric = false) (n : String) : ReadsOperand (.field object n) := by
  intro _ ts hts _
  have hfollows : SuffixesFollow (.dot :: .name n :: ts) :=
    ⟨by simp, noDims_of_ne (by simp), by simp⟩
  rw [Expr.operandTokens_field, List.append_assoc]
  show Level.suffixed.read (object.operandTokens ++ .dot :: .name n :: ts) = _
  rw [hobject (Expr.negated?_of_not_numeric hnumeric) _ hfollows (by simp), Expr.reading]
  cases object.reading with
  | none => rfl
  | some o => exact readSuffixes_field hts.noCall

section

variable {size : Expr} (hparts : size.Every Expr.IsShaped) (hsize : Reads size)

include hparts hsize

/-- What is made is an array of arrays if square brackets follow. -/
theorem readSuffixed_newArray (t : Ty) (ts : List Token) :
    Level.suffixed.read ((Expr.newArray t size).operandTokens ++ ts) =
      if ts.head? = some .openSquare then none
      else (Expr.newArray t size).reading.bind fun o => (Level.suffixes o).read ts := by
  have hprimary : Level.primary.read ((Expr.newArray t size).operandTokens ++ ts) =
      if ts.head? = some .openSquare then none else (Expr.newArray t size).reading.map (·, ts) := by
    rw [Expr.operandTokens_of_not_compound rfl, Expr.tokens, List.append_assoc, List.append_assoc]
    show Level.primary.read (.new :: (t.tokens ++ .openSquare ::
      (size.tokens ++ .closeSquare :: ts))) = _
    rw [Level.read, readClassLit_of_base rfl]
    show Level.creation.read _ = _
    rw [Level.read, readType_tokens, readDims_eq_self (Expr.noDims_index hparts _)]
    -- the part behind the type, which is the same for both kinds of element types
    have hbase (t : Ty) : ((Level.expr.read (size.tokens ++ .closeSquare :: ts)).bind fun size =>
        (expect .closeSquare size.2).bind fun ts =>
          (guard (ts.head? ≠ some .openSquare) : Option Unit).bind fun _ =>
            some (Expr.newArray t size.1, ts)) =
        if ts.head? = some .openSquare then none
        else (size.reading.map (Expr.newArray t)).map (·, ts) := by
      rw [hsize.whole _ (by simp [EndsExpr])]
      cases size.reading with
      | none => simp
      | some s => by_cases hts : ts.head? = some .openSquare <;> simp [hts, guard]
    cases t with
    | array t => simp [Expr.reading]
    | prim k =>
      refine (hbase (.prim k)).trans ?_
      rw [Expr.reading]
      · cases size.reading <;> rfl
      · simp
    | named n =>
      refine (hbase (.named n)).trans ?_
      rw [Expr.reading]
      · cases size.reading <;> rfl
      · simp
  rw [Level.read, hprimary]
  split
  · rfl
  · cases (Expr.newArray t size).reading <;> rfl

/-- A new array is read with the suffixes behind it, as long as none is a square bracket. -/
theorem readsOperand_newArray (t : Ty) : ReadsOperand (.newArray t size) := by
  intro _ ts _ hnew
  rw [readSuffixed_newArray hparts hsize, if_neg (hnew rfl)]

end

/-- An item of an array. -/
theorem readsOperand_access {array index : Expr}
    (hshaped : (Expr.access array index).Every Expr.IsShaped) (harray : Reads array)
    (hindex : Reads index) : ReadsOperand (.access array index) := by
  obtain ⟨hnumeric, -, hparts⟩ := hshaped
  intro _ ts _ _
  have hdims := Expr.noDims_index hparts (.closeSquare :: ts)
  have htokens : (Expr.access array index).operandTokens ++ ts =
      array.operandTokens ++ .openSquare :: (index.tokens ++ .closeSquare :: ts) := by
    rw [Expr.operandTokens_access, List.append_assoc, List.cons_append, List.append_assoc]
    rfl
  rw [htokens, Expr.reading]
  -- the index of a new array would be read as a dimension of it
  by_cases hnew : array.isNewArray = true
  · rw [if_pos hnew, harray.dims hnew _ rfl]
    rfl
  · rw [if_neg hnew, harray.operand (Expr.negated?_of_not_numeric hnumeric) _
      ⟨by simp, hdims, by simp⟩ fun h => absurd h hnew]
    cases array.reading with
    | none => rfl
    | some a =>
      show (Level.suffixes a).read _ = _
      rw [readSuffixes_access, hindex.whole _ (by simp [EndsExpr])]
      cases index.reading with
      | none => rfl
      | some i => simp

/-! ## Expressions with operands -/

section

variable {e : Expr} {ts : List Token}

/-- An operand that ends as an expression is one. -/
theorem ReadsOperand.readExpr (h : ReadsOperand e) (he : e.Every Expr.IsShaped)
    (hts : EndsExpr ts) : Level.expr.read (e.operandTokens ++ ts) = e.reading.map (·, ts) :=
  readExpr_of_unary (h.readUnary he hts.endsOperand) hts

end

/-- What is assigned to is read as such. -/
theorem isTarget_of_reading {e e' : Expr} (h : e.isTarget = true) (he : e.reading = some e') :
    e'.isTarget = true := by
  cases e with
  | name n =>
    cases he
    rfl
  | field o n =>
    obtain ⟨o', -, heq⟩ := Option.bind_eq_some_iff.mp he
    cases heq
    rfl
  | access a i =>
    rw [Expr.reading, Option.ite_none_left_eq_some] at he
    obtain ⟨-, he⟩ := he
    obtain ⟨a', -, he⟩ := Option.bind_eq_some_iff.mp he
    obtain ⟨i', -, heq⟩ := Option.bind_eq_some_iff.mp he
    cases heq
    rfl
  | _ => cases h

/-- The target is an operand, the value anything: assignments associate to the right. -/
theorem reads_assign {target value : Expr}
    (hshaped : (Expr.assign target value).Every Expr.IsShaped) (htarget : ReadsOperand target)
    (hvalue : Reads value) : Reads (.assign target value) := by
  obtain ⟨hform, hparts, -⟩ := hshaped
  refine .of_compound rfl fun ts hts => ?_
  have hends : EndsOperand (.assign :: (value.tokens ++ ts)) := by simp [EndsOperand]
  -- the target is followed by the assignment and by no other operator
  have hleft := readRelation_of_sum (readSum_of_unary (htarget.readUnary hparts hends) (by simp))
    (by simp)
  rw [Expr.tokens, ← Expr.operandTokens_of_not_compound (Expr.not_compound_of_target hform),
    List.append_assoc, Level.read]
  show (Level.relation.read (target.operandTokens ++ .assign :: (value.tokens ++ ts))).bind _ = _
  rw [hleft, Expr.reading]
  cases htree : target.reading with
  | none => rfl
  | some t =>
    show (Level.assigned t).read (.assign :: (value.tokens ++ ts)) = _
    rw [Level.read, hvalue.whole ts hts]
    simp only [isTarget_of_reading hform htree, guard]
    cases value.reading <;> rfl

/-- Both sides are operands, so a difference on the right is enclosed. -/
theorem reads_minus {left right : Expr} (hleft : ReadsOperand left) (hright : ReadsOperand right)
    (hl : left.Every Expr.IsShaped) (hr : right.Every Expr.IsShaped) :
    Reads (.binary .minus left right) := by
  refine .of_compound rfl fun ts hts =>
    readExpr_of_relation (readRelation_of_sum ?_ (hts.head?_ne (by simp)))
    (hts.head?_ne (by simp))
  -- the left operand is read up to the sign, and the right one continues the sum
  rw [Expr.tokens, List.append_assoc, Level.read]
  show (Level.unary.read (left.operandTokens ++ .minus :: (right.operandTokens ++ ts))).bind _ = _
  rw [hleft.readUnary hl (by simp [EndsOperand]), Expr.reading]
  cases left.reading with
  | none => rfl
  | some l =>
    show (Level.minus l).read (.minus :: (right.operandTokens ++ ts)) = _
    rw [Level.read, hright.readUnary hr hts.endsOperand]
    cases right.reading with
    | none => rfl
    | some r => exact readMinus_eq_self (hts.head?_ne (by simp))

/-- Both sides are operands, which are sums by themselves. -/
theorem reads_less {left right : Expr} (hleft : ReadsOperand left) (hright : ReadsOperand right)
    (hl : left.Every Expr.IsShaped) (hr : right.Every Expr.IsShaped) :
    Reads (.binary .less left right) := by
  refine .of_compound rfl fun ts hts => readExpr_of_relation ?_ (hts.head?_ne (by simp))
  have hunary : Level.unary.read (left.operandTokens ++ .less :: (right.operandTokens ++ ts)) =
      left.reading.map (·, .less :: (right.operandTokens ++ ts)) :=
    hleft.readUnary hl (by simp [EndsOperand])
  have hsum := readSum_of_unary hunary (by simp)
  rw [Expr.tokens, List.append_assoc, Level.read]
  show (Level.sum.read (left.operandTokens ++ .less :: (right.operandTokens ++ ts))).bind _ = _
  rw [hsum, Expr.reading]
  cases left.reading with
  | none => rfl
  | some l =>
    show (Level.less l).read (.less :: (right.operandTokens ++ ts)) = _
    rw [Level.read, readSum_of_unary (hright.readUnary hr hts.endsOperand) (hts.head?_ne (by simp))]
    cases right.reading with
    | none => rfl
    | some r => exact readLess_eq_self (hts.head?_ne (by simp))

/-- An increment is a suffix, behind which there is no other. -/
theorem reads_postIncrement {operand : Expr}
    (hshaped : (Expr.postIncrement operand).Every Expr.IsShaped) (h : ReadsOperand operand) :
    Reads (.postIncrement operand) := by
  obtain ⟨hform, hparts⟩ := hshaped
  refine .of_compound rfl fun ts hts => readExpr_of_unary ?_ hts
  -- what is incremented is a variable, a field or an item, so no number with a sign
  have hnegated := Expr.negated?_of_not_numeric (Expr.not_numeric_of_target hform)
  have hfollows : SuffixesFollow (.increment :: ts) := ⟨by simp, noDims_of_ne (by simp), by simp⟩
  rw [Expr.tokens, List.append_assoc]
  show Level.unary.read (operand.operandTokens ++ .increment :: ts) = _
  rw [readUnary_operand hparts hnegated, h hnegated _ hfollows (by simp), Expr.reading]
  cases operand.reading with
  | none => rfl
  | some o => exact readSuffixes_increment

/-! ### Casts -/

namespace Expr

variable {e : Expr}

/-- A primitive type in parentheses is a cast, whether or not a sign follows. -/
theorem reading_cast_prim (k : Kind) (e : Expr) :
    (cast (.prim k) e).reading = e.reading.map (cast (.prim k)) := by
  rw [reading]
  · cases e.reading <;> rfl
  · simp
  · simp

/-- In front of anything without a sign, every type is a cast. -/
theorem reading_cast_unsigned {type : Ty} (h : e.negated? = none) :
    (cast type e).reading = e.reading.map (cast type) := by
  rw [reading]
  · cases e.reading <;> rfl
  · simp [h]
  · simp [h]

/-- An array type in parentheses can be nothing but a cast, and a cast to it takes no sign. -/
theorem reading_cast_array {t : Ty} {m : Numeral} (h : e.negated? = some m) :
    (cast (.array t) e).reading = none := by
  simp [reading, h]

/-- A name in parentheses with a minus behind it is the left side of a difference. -/
theorem reading_cast_named {n : String} {m : Numeral} (h : e.negated? = some m) :
    (cast (.named n) e).reading = (m.literal? false).map (binary .minus (name n)) := by
  simp only [reading, h]
  cases m.literal? false <;> rfl

end Expr

section

variable {operand : Expr} {ts : List Token} (hparts : operand.Every Expr.IsShaped)
  (h : ReadsOperand operand)

/-- The tokens of a cast, with others behind them. -/
theorem tokens_cast (type : Ty) (operand : Expr) (ts : List Token) :
    (Expr.cast type operand).tokens ++ ts =
      .openRound :: (type.tokens ++ .closeRound :: (operand.operandTokens ++ ts)) := by
  rw [Expr.tokens, List.append_assoc]
  rfl

/-- Behind a bracket stands no sign. -/
theorem readUnary_openRound (ts : List Token) :
    Level.unary.read (.openRound :: ts) = Level.unsigned.read (.openRound :: ts) := by
  rw [Level.read]
  simp

include hparts in
/-- An operand is no cast, so without a sign it is a suffixed expression. -/
theorem readUnsigned_operand :
    Level.unsigned.read (operand.operandTokens ++ ts) =
      Level.suffixed.read (operand.operandTokens ++ ts) := by
  rw [Level.read, Expr.readCastType_operand operand hparts ts]

/-- A numeral with a sign is no operand by itself. -/
theorem readUnsigned_minus (ts : List Token) : Level.unsigned.read (.minus :: ts) = none := by
  rw [Level.read, readCastType_of_ne (by simp)]
  show Level.suffixed.read _ = none
  rw [Level.read, Level.read, readClassLit_of_base rfl]
  all_goals simp

/-- A numeral without a sign. -/
theorem readUnary_numeral (n : Numeral) (hts : EndsOperand ts) :
    Level.unary.read (.numeral n :: ts) = (n.literal? false).map (·, ts) := by
  rw [Level.read, Level.read, readCastType_of_ne (by simp)]
  · show Level.suffixed.read _ = _
    rw [Level.read, Level.read, readClassLit_of_base rfl]
    cases n.literal? false with
    | none => rfl
    | some e => exact readSuffixes_eq_self hts
  · simp

/-- A number with a sign is two tokens. -/
theorem operandTokens_of_negated {e : Expr} {n : Numeral} (h : e.negated? = some n) :
    e.operandTokens = [.minus, .numeral n] := by
  have hnumeric : e.isNumeric = true := by
    by_contra hnumeric
    rw [Expr.negated?_of_not_numeric (by simpa using hnumeric)] at h
    cases h
  rw [Expr.operandTokens_of_not_compound (Expr.not_compound_of_numeric hnumeric)]
  rcases numeric_cases hnumeric with ⟨negative, m, hnumeral, -, htokens, -⟩ | ⟨_, _, hnumeral, -⟩
  · rw [Expr.negated?, hnumeral] at h
    cases negative with
    | false => cases h
    | true =>
      cases h
      exact htokens
  · rw [Expr.negated?, hnumeral] at h
    cases h

include hparts h

/-- Any operand may be cast to a primitive type. -/
theorem reads_cast_prim (k : Kind) : Reads (.cast (.prim k) operand) := by
  refine .of_compound rfl fun ts hts => readExpr_of_unary ?_ hts
  rw [tokens_cast, readUnary_openRound, Level.read, readCastType_tokens, Expr.reading_cast_prim]
  show (Level.unary.read (operand.operandTokens ++ ts)).bind _ = _
  rw [h.readUnary hparts hts.endsOperand]
  cases operand.reading <;> rfl

/-- An operand without a sign may be cast to any type. -/
theorem reads_cast_unsigned (type : Ty) (hnegated : operand.negated? = none) :
    Reads (.cast type operand) := by
  refine .of_compound rfl fun ts hts => readExpr_of_unary ?_ hts
  have hunsigned : Level.unsigned.read (operand.operandTokens ++ ts) =
      operand.reading.map (·, ts) := by
    rw [readUnsigned_operand hparts, ← readUnary_operand hparts hnegated,
      h.readUnary hparts hts.endsOperand]
  rw [tokens_cast, readUnary_openRound, Level.read, readCastType_tokens,
    Expr.reading_cast_unsigned hnegated]
  -- Only behind the name of a class is a parenthesis not known to be that of a cast; what follows
  -- it decides.
  cases type with
  | prim k =>
    show (Level.unary.read (operand.operandTokens ++ ts)).bind _ = _
    rw [h.readUnary hparts hts.endsOperand]
    cases operand.reading <;> rfl
  | array t =>
    show (Level.unsigned.read (operand.operandTokens ++ ts)).bind _ = _
    rw [hunsigned]
    cases operand.reading <;> rfl
  | named n =>
    obtain ⟨t, ht, hstarts⟩ := Expr.exists_head?_operandTokens operand hparts
    have hany : (operand.operandTokens ++ ts).head?.any Token.startsOperand = true := by
      rw [List.head?_append, ht]
      exact hstarts.resolve_right fun hminus => hminus.2 hnegated
    dsimp only
    rw [if_pos hany, hunsigned]
    cases operand.reading <;> rfl

omit hparts h in
/-- A sign in front of a numeral is refused behind an array type, and taken for an operator behind a
name. -/
theorem reads_cast_negated (type : Ty) (hprim : ∀ k, type ≠ .prim k) {m : Numeral}
    (hnegated : operand.negated? = some m) : Reads (.cast type operand) := by
  refine .of_compound rfl fun ts hts => ?_
  rw [tokens_cast, operandTokens_of_negated hnegated]
  cases type with
  | prim k => exact absurd rfl (hprim k)
  | array t =>
    have hunary : Level.unary.read (.openRound :: ((Ty.array t).tokens ++ .closeRound :: .minus ::
        .numeral m :: ts)) = none := by
      rw [readUnary_openRound, Level.read, readCastType_tokens]
      show (Level.unsigned.read _).bind _ = none
      rw [readUnsigned_minus]
      rfl
    rw [Expr.reading_cast_array hnegated]
    exact readExpr_of_unary (x := none) hunary hts
  | named n =>
    have hname : Level.unary.read (.openRound :: ((Ty.named n).tokens ++ .closeRound :: .minus ::
        .numeral m :: ts)) = some (.name n, .minus :: .numeral m :: ts) := by
      rw [readUnary_openRound, Level.read, readCastType_tokens]
      show Level.suffixed.read _ = _
      -- the name is an operand in brackets
      have hread :
          Level.expr.read ((Expr.name n).operandTokens ++
            .closeRound :: .minus :: .numeral m :: ts) =
          (Expr.name n).reading.map (·, .closeRound :: .minus :: .numeral m :: ts) :=
        (readsOperand_name n).readExpr trivial (by simp [EndsExpr])
      exact (readSuffixed_of_primary (readPrimary_enclosed hread)).trans
        (readSuffixes_eq_self (by simp [EndsOperand]))
    -- and the sign is the operator behind it
    have hsum : Level.sum.read (.openRound :: ((Ty.named n).tokens ++ .closeRound :: .minus ::
        .numeral m :: ts)) = ((m.literal? false).map (.binary .minus (.name n))).map (·, ts) := by
      rw [Level.read, hname]
      show (Level.minus (.name n)).read (.minus :: .numeral m :: ts) = _
      rw [Level.read, readUnary_numeral m hts.endsOperand]
      cases m.literal? false with
      | none => rfl
      | some e => exact readMinus_eq_self (hts.head?_ne (by simp))
    rw [Expr.reading_cast_named hnegated]
    exact readExpr_of_relation (readRelation_of_sum hsum (hts.head?_ne (by simp)))
      (hts.head?_ne (by simp))

end

/-- Casts by what is between the parentheses and whether a sign follows. -/
theorem reads_cast {type : Ty} {operand : Expr} (hparts : operand.Every Expr.IsShaped)
    (h : ReadsOperand operand) : Reads (.cast type operand) := by
  cases hnegated : operand.negated? with
  | none => exact reads_cast_unsigned hparts h type hnegated
  | some m =>
    cases type with
    | prim k => exact reads_cast_prim hparts h k
    | array t => exact reads_cast_negated (.array t) nofun hnegated
    | named n => exact reads_cast_negated (.named n) nofun hnegated

/-! ## All trees -/

mutual
/-- The grammar reads an expression, by itself and as an operand. -/
theorem reads : (e : Expr) → e.Every Expr.IsShaped → Reads e
  -- the induction is on the tree; lists of arguments are the other half
  | .assign target value, h => reads_assign h (reads target h.2.1).operand (reads value h.2.2)
  | .null, h => .of_operand h rfl readsOperand_null nofun
  | .name n, h => .of_operand h rfl (readsOperand_name n) nofun
  | .new t args, h =>
    .of_operand h rfl (readsOperand_new (Expr.every_of_everyAll h.2) (readsAll args h.2) t) nofun
  | .newArray t size, h =>
    .of_operand h rfl (readsOperand_newArray h.2 (reads size h.2) t) fun _ ts hts => by
      rw [readSuffixed_newArray h.2 (reads size h.2), if_pos hts]
  | .arrayInit t items, h =>
    .of_operand h rfl (readsOperand_arrayInit (Expr.every_of_everyAll h.2) (readsAll items h.2) t)
      nofun
  | .cast _ operand, h => reads_cast h.2 (reads operand h.2).operand
  | .classLit t, h => .of_operand h rfl (readsOperand_classLit t) nofun
  | .access array index, h =>
    .of_operand h rfl (readsOperand_access h (reads array h.2.1) (reads index h.2.2)) nofun
  | .field object n, h =>
    .of_operand h rfl (readsOperand_field (reads object h.2).operand h.1 n) nofun
  | .call n args, h =>
    .of_operand h rfl (readsOperand_call (Expr.every_of_everyAll h.2) (readsAll args h.2) n) nofun
  | .methodCall object n args, h =>
    .of_operand h rfl (readsOperand_methodCall (Expr.every_of_everyAll h.2.2)
      (readsAll args h.2.2) (reads object h.2.1).operand h.1 n) nofun
  | .binary .less left right, h =>
    reads_less (reads left h.2.1).operand (reads right h.2.2).operand h.2.1 h.2.2
  | .binary .minus left right, h =>
    reads_minus (reads left h.2.1).operand (reads right h.2.2).operand h.2.1 h.2.2
  | .postIncrement operand, h => reads_postIncrement h (reads operand h.2).operand
  | .booleanLit b, h => .of_operand h rfl (readsOperand_booleanLit b) nofun
  | .intLit n, h => .of_operand h rfl (readsOperand_numeric rfl) nofun
  | .longLit n, h => .of_operand h rfl (readsOperand_numeric rfl) nofun
  | .floatLit x, h => .of_operand h rfl (readsOperand_numeric rfl) nofun
  | .doubleLit x, h => .of_operand h rfl (readsOperand_numeric rfl) nofun
  | .charLit u, h => .of_operand h rfl (readsOperand_charLit u) nofun
  | .stringLit s, h => .of_operand h rfl (readsOperand_stringLit s) nofun

theorem readsAll : (es : List Expr) → Expr.EveryAll Expr.IsShaped es → ∀ e ∈ es, Reads e
  | [], _ => nofun
  | e :: es, h => List.forall_mem_cons.mpr ⟨reads e h.1, readsAll es h.2⟩
end

/-- The tree that is read from the tokens of an expression. -/
theorem readTokens_tokens {e : Expr} (h : e.Every Expr.IsShaped) :
    readTokens e.tokens = e.reading := by
  have hread := (reads e h).whole [] (by simp [EndsExpr])
  rw [List.append_nil] at hread
  rw [readTokens, hread]
  cases e.reading <;> rfl

end ArrayBridge.Java
