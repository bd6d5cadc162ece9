import ArrayBridge.Proofs.Java.Spelling
import ArrayBridge.Proofs.Java.TreeTokens

/-!
# Scanning the text of a tree

The text of a tree whose names are identifiers is scanned as the tokens of the tree. Blanks and
signs keep the words and the numerals of a tree apart, so that only literals that run past their
line are refused.

Main results:

* `spells_numberLit` — the literals of floating-point types.
* `scan_print` — the tokens of a text, for all trees.
-/

namespace ArrayBridge.Java

open Binary (Layout Number)

/-! ## Names and literals -/

/-- Whether the name in a type is an identifier. -/
def Ty.HasIdentifiers (a : Alphabet) : Ty → Prop
  | prim _ => True
  | named n => a.IsIdentifier n
  | array t => t.HasIdentifiers a

namespace Expr

/-- Whether the names that an expression adds to those of its parts are identifiers. -/
def HasIdentifiers (a : Alphabet) : Expr → Prop
  | name n | call n _ | field _ n | methodCall _ n _ => a.IsIdentifier n
  | new t _ | newArray t _ | arrayInit t _ | cast t _ | classLit t => t.HasIdentifiers a
  | _ => True

/-- Whether an expression is no literal that runs past its line. -/
def IsLexical : Expr → Prop
  | charLit u => u ≠ 0x0a ∧ u ≠ 0x0d
  | stringLit s => '\r' ∉ s.toList
  | _ => True

end Expr

section

variable {a : Alphabet} {text text₁ text₂ : List Char} {follows follows₁ : List Char → Prop}
  {p q : Prop} {ts ts₁ ts₂ : List Token}

/-- A text in front of another one. -/
theorem Spells.in_front (h₁ : Spells a text₁ follows₁ True ts₁) (h₂ : Spells a text₂ follows p ts₂)
    (h : ∀ rest, follows rest → follows₁ (text₂ ++ rest)) :
    Spells a (text₁ ++ text₂) follows p (ts₁ ++ ts₂) :=
  (h₁.append h₂ h).mono (by simp) fun _ => id

theorem Spells.congr (h : Spells a text₁ follows p ts₁) (htext : text₂ = text₁) (hts : ts₂ = ts₁) :
    Spells a text₂ follows p ts₂ := by
  rw [htext, hts]
  exact h

/-- A text behind another one. -/
theorem Spells.behind (h₂ : Spells a text₂ follows True ts₂) (h₁ : Spells a text₁ follows₁ p ts₁)
    (h : ∀ rest, follows rest → follows₁ (text₂ ++ rest)) :
    Spells a (text₁ ++ text₂) follows p (ts₁ ++ ts₂) :=
  (h₁.append h₂ h).mono (by simp) fun _ => id

/-! ## Signs -/

/-- The signs of one character that no other one begins with. -/
def separators : List (Char × Token) :=
  [('(', .openRound), (')', .closeRound), ('[', .openSquare), (']', .closeSquare),
    ('\x7b', .openCurly), ('\x7d', .closeCurly), ('.', .dot)]

/-- A text that is one sign, which no other one begins with. -/
theorem spells_sign (cs : List Char) {us : List UInt16} {t : Token}
    (htext : translator.feed .text cs = some (us, .text))
    (hfeed : (scanner a).feed .idle us = some ([], .sign cs)) (hsign : sign? cs = some t)
    (hends : ∀ c, isSign (cs ++ [c]) = false) : Spells a cs Anything True [t] := by
  show Spells a cs Anything True ([] ++ [t])
  refine .of_feed htext hfeed ?_ fun _ _ _ _ u _ => hends (Char.ofNat u.toNat)
  rw [Scanning.pending, Scanning.token?, hsign]
  · rfl
  · intro heq
    cases heq

/-- A separator is a token by itself, whatever follows. -/
theorem spells_separator (c : Char) {t : Token} (h : (c, t) ∈ separators) :
    Spells a [c] Anything True [t] := by
  simp only [separators, List.mem_cons, Prod.mk.injEq, List.not_mem_nil, or_false] at h
  rcases h with ⟨rfl, rfl⟩ | ⟨rfl, rfl⟩ | ⟨rfl, rfl⟩ | ⟨rfl, rfl⟩ | ⟨rfl, rfl⟩ | ⟨rfl, rfl⟩ |
    ⟨rfl, rfl⟩ <;> exact spells_sign _ rfl rfl rfl fun c => by simp [isSign, signs, otherSigns]

theorem spells_increment : Spells a ['+', '+'] Anything True [.increment] :=
  spells_sign _ rfl rfl rfl fun c => by simp [isSign, signs, otherSigns]

theorem spells_blank : Spells a [' '] Anything True [] := .of_idle rfl rfl

theorem spells_comma : Spells a [',', ' '] Anything True [.comma] := .of_idle rfl rfl

theorem spells_assign : Spells a " = ".toList Anything True [.assign] := .of_idle rfl rfl

theorem spells_operator (op : BinOp) : Spells a [' ', op.sign, ' '] Anything True [op.token] := by
  cases op <;> exact .of_idle rfl rfl

theorem spells_new : Spells a "new ".toList Anything True [.new] := .of_idle rfl rfl

/-! ## Keywords -/

/-- A word, by the units of its characters. -/
theorem spells_letters {c : Char} {cs : List Char} {t : Token}
    (hfirst : ((units c).all fun u => !isDigit u) = true)
    (hword : ((c :: cs).flatMap units).all isWordUnit = true)
    (htoken : a.word? (c :: cs) = some t) : Spells a (c :: cs) (MayFollow false) True [t] :=
  spells_word (fun u hu => by simpa using List.all_eq_true.mp hfirst u hu)
    (fun d hd u hu => List.all_eq_true.mp hword u (List.mem_flatMap.mpr ⟨d, hd, hu⟩)) htoken

/-- A keyword ends where no word goes on. -/
theorem spells_keyword {w : String} {t : Token}
    (h : (w, t) ∈ [("null", Token.null), ("true", .boolean true), ("false", .boolean false),
      ("class", .classWord)]) : Spells a w.toList (MayFollow false) True [t] := by
  simp only [List.mem_cons, Prod.mk.injEq, List.not_mem_nil, or_false] at h
  rcases h with ⟨rfl, rfl⟩ | ⟨rfl, rfl⟩ | ⟨rfl, rfl⟩ | ⟨rfl, rfl⟩ <;>
    exact spells_letters rfl rfl rfl

theorem spells_prim (k : Kind) : Spells a k.nativeName.toList (MayFollow false) True [.prim k] := by
  cases k <;> exact spells_letters rfl rfl rfl

/-- The text of a type is scanned as the tokens of the type. -/
theorem spells_type {t : Ty} (h : t.HasIdentifiers a) :
    Spells a t.print (MayFollow false) True t.tokens := by
  induction t with
  | prim k => exact spells_prim k
  | named n => exact spells_identifier h
  | array t ih =>
    have hdims : Spells a (['['] ++ [']']) Anything True [.openSquare, .closeSquare] :=
      (spells_separator '[' (by decide)).in_front (spells_separator ']' (by decide)) fun _ => id
    exact (hdims.behind (ih h) fun _ _ => .of_mem (by decide) _).mono Iff.rfl fun _ _ => trivial

end

/-! ## Numbers -/

section

variable {a : Alphabet} {l : Layout}

/-- A numeral with or without a sign. -/
theorem spells_signed (negative : Bool) {text : List Char} {n : Numeral}
    (htext : ∃ c cs, text = c :: cs ∧ c.isDigit = true ∧ ContinuesNumber a cs)
    (hread : readNumeral text = some n) :
    Spells a ((if negative then ['-'] else []) ++ text) (MayFollow true) True
      (n.tokens negative) := by
  obtain ⟨c, cs, rfl, hdigit, hcs⟩ := htext
  have hnumeral := spells_numeral hdigit hcs hread
  cases negative with
  | false => exact hnumeral
  | true =>
    exact (spells_minus.append hnumeral fun rest _ => ⟨c, cs ++ rest, rfl, hdigit⟩).mono (by simp)
      fun _ => id

/-- A whole number and its suffix. -/
theorem exists_digits (n : Nat) {suffix : List Char} (h : ContinuesNumber a suffix) :
    ∃ c cs, Nat.toDigits 10 n ++ suffix = c :: cs ∧ c.isDigit = true ∧ ContinuesNumber a cs := by
  obtain ⟨c, cs, hcs⟩ := List.exists_cons_of_ne_nil (Nat.toDigits_ne_nil (b := 10) (n := n))
  have hdigits : ∀ d ∈ c :: cs, d.isDigit = true := fun d hd => isDigit_of_mem_toDigits (hcs ▸ hd)
  have htail : ContinuesNumber a cs := .of_digits fun d hd => hdigits d (List.mem_cons_of_mem c hd)
  exact ⟨c, cs ++ suffix, by rw [hcs]; rfl, hdigits c List.mem_cons_self, htail.append h⟩

/-- A numeral begins with a digit and goes on with what continues a number. -/
theorem Scientific.exists_digits (s : Scientific) {suffix : List Char} (h : IsSuffix suffix) :
    ∃ c cs, s.text ++ suffix = c :: cs ∧ c.isDigit = true ∧ ContinuesNumber a cs := by
  obtain ⟨c, cs, hcs⟩ := List.exists_cons_of_ne_nil s.whole_ne_nil
  have hdigits : ∀ d ∈ c :: cs, d.isDigit = true := fun d hd => s.isDigit_whole d (hcs ▸ hd)
  have htail : ContinuesNumber a cs := .of_digits fun d hd => hdigits d (List.mem_cons_of_mem c hd)
  refine ⟨c, _, ?_, hdigits c List.mem_cons_self, htail.append (s.continuesNumber h)⟩
  rw [text, hcs]
  simp only [List.cons_append, List.append_assoc]

/-- A name behind a point. -/
theorem spells_member {n : String} (h : a.IsIdentifier n) :
    Spells a ('.' :: n.toList) (MayFollow false) True [.dot, .name n] :=
  (spells_separator '.' (by decide)).in_front (spells_identifier h) fun _ _ => trivial

/-- A constant of a class. -/
theorem spells_constant {className constant : String} (hclass : a.IsIdentifier className)
    (hconstant : a.IsIdentifier constant) :
    Spells a (className.toList ++ '.' :: constant.toList) (MayFollow false) True
      [.name className, .dot, .name constant] :=
  (spells_identifier hclass).in_front (spells_member hconstant) fun _ _ => .of_mem (by decide) _

/-- A number that is not finite is written as a constant of its class. -/
theorem spells_numberLit_constant {className : String} {suffix : List Char}
    (hclass : a.IsIdentifier className) {x : Number l} {constant : String}
    (hx : numberConstant? x = some constant) :
    Spells a (numberLit className suffix x) (MayFollow false) True
      [.name className, .dot, .name constant] := by
  cases x with
  | notANumber =>
    cases hx
    have hconstant : a.IsIdentifier "NaN" := ⟨rfl, by decide⟩
    exact spells_constant hclass hconstant
  | magnitude negative code =>
    rw [numberConstant?] at hx
    split at hx
    · rename_i hcode
      cases hx
      have hconstant : a.IsIdentifier (infinityName negative) := by
        cases negative <;> exact ⟨rfl, by decide⟩
      rw [numberLit, if_pos hcode, List.append_assoc]
      cases negative <;> exact spells_constant hclass hconstant
    · cases hx

/-- A finite number is written as a numeral that is read as the number. -/
theorem spells_numberLit {className : String} {suffix : List Char}
    (hsuffix : IsSuffix suffix) {numeral : Fin (l.infinity + 1) → Numeral}
    (hnumeral : ∀ q, floating? q suffix = (l.read? q).map numeral) {x : Number l} {negative : Bool}
    {n : Numeral} (hx : numberNumeral? numeral x = some (negative, n)) :
    Spells a (numberLit className suffix x) (MayFollow true) True (n.tokens negative) := by
  cases x with
  | notANumber => cases hx
  | magnitude negative code =>
    rw [numberNumeral?] at hx
    split at hx
    · cases hx
    · rename_i hcode
      cases hx
      -- The text is in one of the forms of a numeral, whose value rounds to the number again.
      obtain ⟨s, hread, htext⟩ := exists_scientific_number negative hcode
      rw [numberLit, if_neg hcode, htext, List.append_assoc]
      refine spells_signed negative (s.exists_digits hsuffix) ?_
      rw [s.readNumeral_append hsuffix, hnumeral, hread, Option.map_some]

end

/-! ## Trees -/

/-- Whether the text of an expression may end with a numeral. -/
def Expr.endsInNumeral (e : Expr) : Bool := e.isNumeric || e.isCompound

/-- Whether the text of an expression is scanned as the tokens of the expression, unless there is a
literal that runs past its line. -/
def Scans (a : Alphabet) (e : Expr) : Prop :=
  Spells a e.print (MayFollow e.endsInNumeral) (e.Every Expr.IsLexical) e.tokens

section

variable {a : Alphabet} {e left right : Expr} {es : List Expr} {text : List Char} {ts : List Token}
  {p : Prop}

/-- A numeric literal is scanned as its tokens. -/
theorem scans_numeric (h : e.isNumeric = true) : Scans a e := by
  have hnode : e.Every Expr.IsLexical ↔ True := by
    cases e <;> first | exact Iff.rfl | cases h
  suffices hspells : Spells a e.print (MayFollow true) True e.tokens by
    rw [Scans, Expr.endsInNumeral, h]
    exact hspells.mono hnode.symm fun _ => id
  -- a number that is not finite is written as a field of its class
  have hclass : a.IsIdentifier "Float" ∧ a.IsIdentifier "Double" :=
    ⟨⟨rfl, by decide⟩, ⟨rfl, by decide⟩⟩
  cases e with
  | intLit n =>
    have hsuffix : ContinuesNumber a [] := .of_all rfl
    have hdigits := exists_digits n.toInt.natAbs hsuffix
    have hspells := spells_signed (n.toInt < 0) hdigits
      ((congrArg readNumeral (List.append_nil _)).trans (readNumeral_toDigits _))
    simp only [List.append_nil, decide_eq_true_eq] at hspells
    show Spells a (toString n.toInt).toList _ _ _
    rw [toList_toString]
    exact hspells
  | longLit n =>
    have hsuffix : ContinuesNumber a ['L'] := .of_all rfl
    have hdigits := exists_digits n.toInt.natAbs hsuffix
    have hspells := spells_signed (n.toInt < 0) hdigits (readNumeral_toDigits_long _)
    simp only [decide_eq_true_eq] at hspells
    show Spells a ((toString n.toInt).toList ++ ['L']) _ _ _
    rw [toList_toString, List.append_assoc]
    exact hspells
  | floatLit x =>
    rcases number_cases .float x with
      ⟨negative, code, -, hnumeral, -⟩ | ⟨hnumeral, constant, hconstant⟩
    · rw [Expr.tokens, Expr.numberTokens, Expr.numeral?, hnumeral]
      exact spells_numberLit (.inr rfl) (fun _ => rfl) hnumeral
    · rw [Expr.tokens, Expr.numberTokens, Expr.numeral?, hnumeral, Expr.constant?, hconstant]
      exact (spells_numberLit_constant hclass.1 hconstant).mono Iff.rfl fun _ => MayFollow.weaken
  | doubleLit x =>
    rcases number_cases .double x with
      ⟨negative, code, -, hnumeral, -⟩ | ⟨hnumeral, constant, hconstant⟩
    · rw [Expr.tokens, Expr.numberTokens, Expr.numeral?, hnumeral]
      exact spells_numberLit (.inl rfl) (fun _ => rfl) hnumeral
    · rw [Expr.tokens, Expr.numberTokens, Expr.numeral?, hnumeral, Expr.constant?, hconstant]
      exact (spells_numberLit_constant hclass.2 hconstant).mono Iff.rfl fun _ => MayFollow.weaken
  | _ => cases h

/-! ### Parts -/

/-- A text between brackets. -/
theorem Spells.between {follows : List Char → Prop} {o c : Char} {t u : Token}
    (h : Spells a text follows p ts) (ho : (o, t) ∈ separators) (hc : (c, u) ∈ separators)
    (hfollow : ∀ rest, follows (c :: rest)) :
    Spells a (o :: text ++ [c]) Anything p (t :: ts ++ [u]) :=
  (spells_separator c hc).behind ((spells_separator o ho).in_front h fun _ _ => trivial)
    fun rest _ => hfollow rest

/-- An operand is scanned as its tokens, with or without brackets. -/
theorem Scans.operand (h : Scans a e) :
    Spells a (e.asOperand e.print) (MayFollow e.isNumeric) (e.Every Expr.IsLexical)
      e.operandTokens := by
  by_cases hcompound : e.isCompound = true
  · rw [Expr.asOperand, if_pos hcompound, Expr.operandTokens_of_compound hcompound]
    exact (h.between (by decide : ('(', Token.openRound) ∈ separators) (by decide) fun _ =>
      .weaken (.of_mem (by decide) _)).mono Iff.rfl fun _ _ => trivial
  · rw [Scans, Expr.endsInNumeral, Bool.not_eq_true _ |>.mp hcompound, Bool.or_false] at h
    rw [Expr.asOperand, if_neg hcompound, Expr.operandTokens, Expr.asOperandTokens,
      if_neg hcompound]
    exact h

/-- Items between round brackets. -/
theorem spells_args (h : Spells a (Expr.printAll es) (MayFollow true) p (Expr.tokensAll es)) :
    Spells a (bracketed (Expr.printAll es)) Anything p
      (.openRound :: (Expr.tokensAll es ++ [.closeRound])) :=
  h.between (by decide) (by decide) fun _ => .of_mem (by decide) _

/-! ### Forms -/

/-- Forms that are no literals add nothing to what holds of their parts. -/
theorem node_iff (p : Prop) : p ↔ True ∧ p := (iff_of_eq (true_and p)).symm

theorem scans_assign (hleft : Scans a left) (hright : Scans a right) :
    Scans a (.assign left right) := by
  have hvalue : Spells a (" = ".toList ++ right.print) (MayFollow true)
      (right.Every Expr.IsLexical) ([.assign] ++ right.tokens) :=
    (spells_assign.in_front hright fun _ _ => trivial).mono Iff.rfl fun _ => .weaken
  have hall := hleft.append hvalue fun _ _ => .weaken (.of_mem (by decide) _)
  show Spells a (left.print ++ " = ".toList ++ right.print) _ _ _
  rw [List.append_assoc]
  exact hall.mono (node_iff _) fun _ => id

/-- The word and the type that begin the making of an object. -/
theorem spells_newType {t : Ty} (h : t.HasIdentifiers a) :
    Spells a ("new ".toList ++ t.print) (MayFollow false) True (.new :: t.tokens) :=
  spells_new.in_front (spells_type h) fun _ _ => trivial

/-- The blank after the word is what lets the type follow it. -/
theorem scans_new {t : Ty} (ht : t.HasIdentifiers a)
    (hargs : Spells a (Expr.printAll es) (MayFollow true) (Expr.EveryAll Expr.IsLexical es)
      (Expr.tokensAll es)) : Scans a (.new t es) := by
  have hall := (spells_newType ht).in_front (spells_args hargs) fun _ _ => .of_mem (by decide) _
  exact (hall.mono (node_iff _) fun _ _ => trivial).congr rfl (by simp [Expr.tokens])

/-- An expression between square brackets. -/
theorem spells_index (h : Scans a e) :
    Spells a ('[' :: (e.print ++ [']'])) Anything (e.Every Expr.IsLexical)
      (.openSquare :: (e.tokens ++ [.closeSquare])) :=
  h.between (by decide) (by decide) fun _ => .weaken (.of_mem (by decide) _)

/-- A bracket may follow any type, and any size. -/
theorem scans_newArray {t : Ty} (ht : t.HasIdentifiers a) (he : Scans a e) :
    Scans a (.newArray t e) := by
  have hall := (spells_newType ht).in_front (spells_index he) fun _ _ => .of_mem (by decide) _
  show Spells a ("new ".toList ++ t.print ++ '[' :: e.print ++ [']']) _ _ _
  rw [List.append_assoc]
  exact (hall.mono (node_iff _) fun _ _ => trivial).congr rfl (by simp [Expr.tokens])

/-- The brackets that the items of an array begin with. -/
theorem spells_openItems : Spells a "[] \x7b".toList Anything True
    [.openSquare, .closeSquare, .openCurly] :=
  (spells_separator '[' (by decide)).in_front
    ((spells_separator ']' (by decide)).in_front
      (spells_blank.in_front (spells_separator '\x7b' (by decide)) fun _ => id) fun _ => id)
    fun _ => id

theorem scans_arrayInit {t : Ty} (ht : t.HasIdentifiers a)
    (hitems : Spells a (Expr.printAll es) (MayFollow true) (Expr.EveryAll Expr.IsLexical es)
      (Expr.tokensAll es)) : Scans a (.arrayInit t es) := by
  have hopen := (spells_newType ht).in_front spells_openItems fun _ _ => .of_mem (by decide) _
  have hclose : Spells a ['\x7d'] Anything True [.closeCurly] := spells_separator _ (by decide)
  have hall := hclose.behind (hopen.in_front hitems fun _ _ => trivial)
    fun _ _ => .of_mem (by decide) _
  exact (hall.mono (node_iff _) fun _ _ => trivial).congr rfl (by simp [Expr.tokens])

/-- An operand follows the bracket and a blank. -/
theorem scans_cast {t : Ty} (ht : t.HasIdentifiers a) (he : Scans a e) : Scans a (.cast t e) := by
  have htype := (spells_type ht).between (by decide : ('(', Token.openRound) ∈ separators)
    (by decide : (')', Token.closeRound) ∈ separators) fun _ => .of_mem (by decide) _
  have hall := htype.in_front (spells_blank.in_front he.operand fun _ _ => trivial)
    fun _ _ => trivial
  exact (hall.mono (node_iff _) fun _ => .weaken).congr rfl
    (by simp [Expr.tokens, Expr.operandTokens])

theorem scans_classLit {t : Ty} (ht : t.HasIdentifiers a) : Scans a (.classLit t) := by
  have hword : Spells a "class".toList (MayFollow false) True [.classWord] :=
    spells_keyword (by decide)
  exact (spells_type ht).in_front
    ((spells_separator '.' (by decide)).in_front hword fun _ _ => trivial)
    fun _ _ => .of_mem (by decide) _

/-- A bracket may follow whatever is accessed, also a number. -/
theorem scans_access (harray : Scans a left) (hindex : Scans a e) : Scans a (.access left e) := by
  have hall := harray.operand.append (spells_index hindex)
    fun _ _ => .weaken (.of_mem (by decide) _)
  show Spells a (left.asOperand left.print ++ '[' :: e.print ++ [']']) _ _
    (left.operandTokens ++ .openSquare :: e.tokens ++ [.closeSquare])
  rw [List.append_assoc, List.append_assoc]
  exact hall.mono (node_iff _) fun _ _ => trivial

/-- A dot may not follow a number, which would take it for its own. -/
theorem scans_field {n : String} (hn : a.IsIdentifier n) (hnumeric : e.isNumeric = false)
    (he : Scans a e) : Scans a (.field e n) := by
  have hobject := he.operand
  rw [hnumeric] at hobject
  exact ((spells_member hn).behind hobject fun _ _ => .of_mem (by decide) _).mono (node_iff _)
    fun _ => id

theorem scans_call {n : String} (hn : a.IsIdentifier n)
    (hargs : Spells a (Expr.printAll es) (MayFollow true) (Expr.EveryAll Expr.IsLexical es)
      (Expr.tokensAll es)) : Scans a (.call n es) :=
  ((spells_identifier hn).in_front (spells_args hargs) fun _ _ => .of_mem (by decide) _).mono
    (node_iff _) fun _ _ => trivial

/-- Nor may that of a call. -/
theorem scans_methodCall {n : String} (hn : a.IsIdentifier n) (hnumeric : e.isNumeric = false)
    (he : Scans a e)
    (hargs : Spells a (Expr.printAll es) (MayFollow true) (Expr.EveryAll Expr.IsLexical es)
      (Expr.tokensAll es)) : Scans a (.methodCall e n es) := by
  have hobject := he.operand
  rw [hnumeric] at hobject
  have hcall := (spells_member hn).in_front (spells_args hargs) fun _ _ => .of_mem (by decide) _
  have hall := hobject.append hcall fun _ _ => .of_mem (by decide) _
  show Spells a (e.asOperand e.print ++ '.' :: n.toList ++ bracketed (Expr.printAll es)) _ _
    (e.operandTokens ++ .dot :: .name n :: .openRound :: Expr.tokensAll es ++ [.closeRound])
  rw [List.append_assoc, List.append_assoc]
  exact hall.mono (node_iff _) fun _ _ => trivial

/-- Blanks stand on both sides of an operator. -/
theorem scans_binary (op : BinOp) (hleft : Scans a left) (hright : Scans a right) :
    Scans a (.binary op left right) := by
  have hend := (spells_operator op).in_front hright.operand fun _ _ => trivial
  have hall := hleft.operand.append hend fun _ _ => .weaken (.of_mem (by decide) _)
  show Spells a (left.asOperand left.print ++ [' ', op.sign, ' '] ++ right.asOperand right.print)
    _ _ _
  rw [List.append_assoc]
  exact hall.mono (node_iff _) fun _ => .weaken

/-- A sign may not follow a number, which could take it for that of an exponent. -/
theorem scans_postIncrement (hnumeric : e.isNumeric = false) (he : Scans a e) :
    Scans a (.postIncrement e) := by
  have hoperand := he.operand
  rw [hnumeric] at hoperand
  exact (spells_increment.behind hoperand fun _ _ => .of_mem (by decide) _).mono (node_iff _)
    fun _ _ => trivial

theorem scans_booleanLit (b : Bool) : Scans a (.booleanLit b) := by
  cases b <;> exact spells_keyword (by decide)

/-- A comma may follow every expression. -/
theorem spellsAll_cons (he : Scans a e)
    (hes : Spells a (Expr.printAll es) (MayFollow true) (Expr.EveryAll Expr.IsLexical es)
      (Expr.tokensAll es)) :
    Spells a (Expr.printAll (e :: es)) (MayFollow true) (Expr.EveryAll Expr.IsLexical (e :: es))
      (Expr.tokensAll (e :: es)) := by
  cases es with
  | nil => exact he.mono (iff_of_eq (and_true _)).symm fun _ => .weaken
  | cons e' es =>
    have hrest := spells_comma.in_front hes fun _ _ => trivial
    exact he.append hrest fun _ _ => .weaken (.of_mem (by decide) _)

end

/-! ### All trees -/

variable {a : Alphabet}

mutual
/-- The text of an expression is scanned as its tokens. -/
theorem scans : (e : Expr) → e.Every (Expr.HasIdentifiers a) → e.Every Expr.IsShaped → Scans a e
  | .assign target value, hn, hs =>
    scans_assign (scans target hn.2.1 hs.2.1) (scans value hn.2.2 hs.2.2)
  | .null, _, _ => spells_keyword (by decide)
  | .name _, hn, _ => spells_identifier hn
  | .new _ args, hn, hs => scans_new hn.1 (spellsAll args hn.2 hs.2)
  | .newArray _ size, hn, hs => scans_newArray hn.1 (scans size hn.2 hs.2)
  | .arrayInit _ items, hn, hs => scans_arrayInit hn.1 (spellsAll items hn.2 hs.2)
  | .cast _ operand, hn, hs => scans_cast hn.1 (scans operand hn.2 hs.2)
  | .classLit _, hn, _ => scans_classLit hn
  | .access array index, hn, hs =>
    scans_access (scans array hn.2.1 hs.2.1) (scans index hn.2.2 hs.2.2)
  | .field object _, hn, hs => scans_field hn.1 hs.1 (scans object hn.2 hs.2)
  | .call _ args, hn, hs => scans_call hn.1 (spellsAll args hn.2 hs.2)
  | .methodCall object _ args, hn, hs =>
    scans_methodCall hn.1 hs.1 (scans object hn.2.1 hs.2.1) (spellsAll args hn.2.2 hs.2.2)
  | .binary op left right, hn, hs =>
    scans_binary op (scans left hn.2.1 hs.2.1) (scans right hn.2.2 hs.2.2)
  | .postIncrement operand, hn, hs =>
    scans_postIncrement (Expr.not_numeric_of_target hs.1) (scans operand hn.2 hs.2)
  | .booleanLit b, _, _ => scans_booleanLit b
  | .intLit _, _, _ => scans_numeric rfl
  | .longLit _, _, _ => scans_numeric rfl
  | .floatLit _, _, _ => scans_numeric rfl
  | .doubleLit _, _, _ => scans_numeric rfl
  | .charLit u, _, _ => (spells_charLit u).mono Iff.rfl fun _ _ => trivial
  | .stringLit s, _, _ => (spells_stringLit s).mono Iff.rfl fun _ _ => trivial

theorem spellsAll : (es : List Expr) → Expr.EveryAll (Expr.HasIdentifiers a) es →
    Expr.EveryAll Expr.IsShaped es →
    Spells a (Expr.printAll es) (MayFollow true) (Expr.EveryAll Expr.IsLexical es)
      (Expr.tokensAll es)
  | [], _, _ => Spells.nil
  | e :: es, hn, hs => spellsAll_cons (scans e hn.1 hs.1) (spellsAll es hn.2 hs.2)
end

/-- The text of an expression is scanned as its tokens, and is refused if there is a literal in it
that runs past its line. -/
theorem scan_print {e : Expr} (hn : e.Every (Expr.HasIdentifiers a)) (hs : e.Every Expr.IsShaped) :
    (e.Every Expr.IsLexical → scan a e.print = some e.tokens) ∧
      (¬ e.Every Expr.IsLexical → scan a e.print = none) := by
  have hscans := scans e hn hs
  have hend : MayFollow e.endsInNumeral [] := nofun
  have hnil : scan a [] = some [] := rfl
  constructor
  · intro h
    have hscan := hscans.scans h [] hend
    rwa [List.append_nil, hnil, Option.map_some, List.append_nil] at hscan
  · intro h
    have hscan := hscans.refused h [] hend
    rwa [List.append_nil] at hscan

end ArrayBridge.Java
