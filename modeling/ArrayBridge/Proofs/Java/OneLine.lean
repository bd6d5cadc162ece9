import ArrayBridge.Proofs.Java.Lexing
import ArrayBridge.Proofs.Java.Numerals

/-!
# Texts on one line

An expression is written on one line, unless one of the names in it is not: a line feed in a
character or string literal is written as an escape.

Main results:

* `onOneLine_charLit`, `onOneLine_stringLit`, `onOneLine_numberLit` — literals of all values.
* `Expr.onOneLine_print` — expressions, by induction on the expression.
-/

namespace ArrayBridge.Java

open Binary (Layout Number)

/-- Whether a text stands on one line. -/
def OnOneLine (text : List Char) : Prop := '\n' ∉ text

instance (text : List Char) : Decidable (OnOneLine text) := inferInstanceAs (Decidable (¬ _))

section

variable {c : Char} {text text₁ text₂ : List Char}

@[simp] theorem onOneLine_nil : OnOneLine [] := List.not_mem_nil

@[simp] theorem onOneLine_cons : OnOneLine (c :: text) ↔ '\n' ≠ c ∧ OnOneLine text :=
  List.mem_cons.not.trans not_or

@[simp] theorem onOneLine_append :
    OnOneLine (text₁ ++ text₂) ↔ OnOneLine text₁ ∧ OnOneLine text₂ :=
  List.mem_append.not.trans not_or

theorem onOneLine_flatMap {α : Type} {f : α → List Char} {xs : List α}
    (h : ∀ x ∈ xs, OnOneLine (f x)) : OnOneLine (xs.flatMap f) := by
  intro hmem
  obtain ⟨x, hx, hmem⟩ := List.mem_flatMap.mp hmem
  exact h x hx hmem

/-- Digits are on one line. -/
theorem onOneLine_of_isDigit (h : ∀ c ∈ text, c.isDigit = true) : OnOneLine text :=
  fun hmem => absurd (h _ hmem) (by decide)

theorem onOneLine_bracketed (h : OnOneLine text) : OnOneLine (bracketed text) := by
  simp [bracketed, h]

/-- With parentheses or without. -/
theorem onOneLine_asOperand {e : Expr} (h : OnOneLine text) : OnOneLine (e.asOperand text) := by
  unfold Expr.asOperand
  split
  · exact onOneLine_bracketed h
  · exact h

end

/-! ## Literals -/

/-- Numbers are digits, with a sign or without. -/
theorem onOneLine_toString (n : Int) : OnOneLine (toString n).toList := by
  have hdigits : OnOneLine (Nat.toDigits 10 n.natAbs) :=
    onOneLine_of_isDigit fun _ => isDigit_of_mem_toDigits
  rw [toList_toString, onOneLine_append]
  refine ⟨?_, hdigits⟩
  split <;> decide

theorem Scientific.onOneLine_text (s : Scientific) : OnOneLine s.text := by
  have hfraction : OnOneLine s.fractionText := by
    unfold fractionText
    split
    · exact onOneLine_nil
    · exact onOneLine_cons.mpr ⟨by decide, onOneLine_of_isDigit s.isDigit_fraction⟩
  have hexponent : OnOneLine s.exponentText := by
    unfold exponentText
    cases s.exponent with
    | none => exact onOneLine_nil
    | some n => exact onOneLine_cons.mpr ⟨by decide, onOneLine_toString n⟩
  simp [text, onOneLine_of_isDigit s.isDigit_whole, hfraction, hexponent]

/-- A number is written in digits, or as a constant of its class. -/
theorem onOneLine_numberLit {l : Layout} {className : String} {suffix : List Char}
    (hclass : OnOneLine className.toList) (hsuffix : OnOneLine suffix)
    (x : Number l) : OnOneLine (numberLit className suffix x) := by
  cases x with
  | notANumber =>
    have hname : OnOneLine ".NaN".toList := by decide
    rw [numberLit, onOneLine_append]
    exact ⟨hclass, hname⟩
  | magnitude negative code =>
    rw [numberLit]
    split
    · have hsign : OnOneLine (if negative then ".NEGATIVE" else ".POSITIVE").toList := by
        cases negative <;> decide
      have hname : OnOneLine "_INFINITY".toList := by decide
      rw [onOneLine_append, onOneLine_append]
      exact ⟨⟨hclass, hsign⟩, hname⟩
    · rename_i hcode
      -- what is written for a finite number has the form of a numeral
      obtain ⟨s, -, htext⟩ := exists_scientific_number negative hcode
      have hsign : OnOneLine (if negative then ['-'] else []) := by cases negative <;> decide
      rw [htext, onOneLine_append, onOneLine_append]
      exact ⟨⟨hsign, s.onOneLine_text⟩, hsuffix⟩

/-- An escape is written in hexadecimal digits. -/
theorem onOneLine_unicodeEscape (u : UInt16) : OnOneLine (unicodeEscape u) := by
  have hdigit : ∀ d < 16, '\n' ≠ Nat.digitChar d := by decide
  have hfirst : u.toNat / 16 / 16 / 16 < 16 := by
    have hu := u.toNat_lt
    omega
  rw [unicodeEscape, hex4_eq]
  simp [hdigit, hfirst, Nat.mod_lt]

/-- A line feed in a character literal is escaped, and any other character is printable or escaped
too. -/
theorem onOneLine_charLit (u : UInt16) : OnOneLine (charLit u) := by
  suffices hbody : ∃ body, charLit u = '\'' :: body ++ ['\''] ∧ OnOneLine body by
    obtain ⟨body, hlit, hbody⟩ := hbody
    rw [hlit]
    simp [hbody]
  refine ⟨_, rfl, ?_⟩
  split
  · decide
  split
  · decide
  split
  · rename_i hprintable
    -- the line feed is not among the units that stand for themselves
    refine onOneLine_cons.mpr ⟨fun hfeed => ?_, onOneLine_nil⟩
    have hunits := units_ofNat hprintable
    rw [← hfeed] at hunits
    obtain rfl : 0x0a = u := List.singleton_inj.mp hunits
    cases hprintable
  · exact onOneLine_unicodeEscape u

/-- The same in a string. -/
theorem onOneLine_stringChar (c : Char) : OnOneLine (stringChar c) := by
  unfold stringChar
  split
  · decide
  · decide
  · decide
  · rename_i hfeed
    -- a line feed has had its own escape, so what is written as it is cannot be one
    split
    · exact onOneLine_cons.mpr ⟨Ne.symm hfeed, onOneLine_nil⟩
    · exact onOneLine_flatMap fun u _ => onOneLine_unicodeEscape u

theorem onOneLine_stringLit (s : String) : OnOneLine (stringLit s) := by
  have hbody : OnOneLine (s.toList.flatMap stringChar) :=
    onOneLine_flatMap fun c _ => onOneLine_stringChar c
  simp [stringLit, hbody]

/-! ## Types and expressions -/

/-- All names in a type. -/
def Ty.allNames : Ty → List String
  | prim _ => []
  | named n => [n]
  | array t => t.allNames

mutual
/-- All names in an expression: of variables, types, methods and members. -/
def Expr.allNames : Expr → List String
  | .name n => [n]
  | .assign left right | .access left right | .binary _ left right =>
    left.allNames ++ right.allNames
  | .new t args | .arrayInit t args => t.allNames ++ allNamesEach args
  | .newArray t operand | .cast t operand => t.allNames ++ operand.allNames
  | .classLit t => t.allNames
  | .field object n => n :: object.allNames
  | .call n args => n :: allNamesEach args
  | .methodCall object n args => n :: object.allNames ++ allNamesEach args
  | .postIncrement operand => operand.allNames
  | .null | .booleanLit _ | .intLit _ | .longLit _ | .floatLit _ | .doubleLit _ | .charLit _
  | .stringLit _ => []

/-- All names in some expressions. -/
def Expr.allNamesEach : List Expr → List String
  | [] => []
  | e :: es => e.allNames ++ allNamesEach es
end

/-- Whether all of some names stand on one line. -/
def OnOneLineEach (names : List String) : Prop := ∀ n ∈ names, OnOneLine n.toList

instance (names : List String) : Decidable (OnOneLineEach names) :=
  inferInstanceAs (Decidable (∀ n ∈ names, OnOneLine n.toList))

section

variable {n : String} {names names₁ names₂ : List String}

@[simp] theorem onOneLineEach_nil : OnOneLineEach [] := nofun

@[simp] theorem onOneLineEach_cons :
    OnOneLineEach (n :: names) ↔ OnOneLine n.toList ∧ OnOneLineEach names :=
  List.forall_mem_cons

@[simp] theorem onOneLineEach_append :
    OnOneLineEach (names₁ ++ names₂) ↔ OnOneLineEach names₁ ∧ OnOneLineEach names₂ :=
  List.forall_mem_append

end

theorem Ty.onOneLine_print (t : Ty) (h : OnOneLineEach t.allNames) : OnOneLine t.print := by
  induction t with
  | prim k => cases k <;> decide
  | named n => exact (onOneLineEach_cons.mp h).1
  | array t ih =>
    have hbrackets : OnOneLine ['[', ']'] := by decide
    exact onOneLine_append.mpr ⟨ih h, hbrackets⟩

namespace Expr

mutual
/-- An expression is written on one line if each name in it is. -/
theorem onOneLine_print : (e : Expr) → OnOneLineEach e.allNames → OnOneLine e.print
  | assign target value, h => by
    -- each form is written as its parts with fixed signs between them, none of which ends a line
    have ⟨htarget, hvalue⟩ := onOneLineEach_append.mp h
    show OnOneLine (print target ++ " = ".toList ++ print value)
    simp [onOneLine_print target htarget, onOneLine_print value hvalue]
  | null, _ => by decide
  | name n, h => (onOneLineEach_cons.mp h).1
  | new t args, h => by
    have ⟨ht, hargs⟩ := onOneLineEach_append.mp h
    show OnOneLine ("new ".toList ++ t.print ++ bracketed (printAll args))
    simp [t.onOneLine_print ht, onOneLine_bracketed (onOneLine_printAll args hargs)]
  | newArray t size, h => by
    have ⟨ht, hsize⟩ := onOneLineEach_append.mp h
    show OnOneLine ("new ".toList ++ t.print ++ '[' :: print size ++ [']'])
    simp [t.onOneLine_print ht, onOneLine_print size hsize]
  | arrayInit t items, h => by
    have ⟨ht, hitems⟩ := onOneLineEach_append.mp h
    show OnOneLine ("new ".toList ++ t.print ++ "[] \x7b".toList ++ printAll items ++ ['\x7d'])
    simp [t.onOneLine_print ht, onOneLine_printAll items hitems]
  | cast t operand, h => by
    have ⟨ht, hoperand⟩ := onOneLineEach_append.mp h
    show OnOneLine (bracketed t.print ++ ' ' :: operand.asOperand (print operand))
    simp [onOneLine_bracketed (t.onOneLine_print ht),
      onOneLine_asOperand (onOneLine_print operand hoperand)]
  | classLit t, h => onOneLine_append.mpr ⟨t.onOneLine_print h, by decide⟩
  | access array index, h => by
    have ⟨harray, hindex⟩ := onOneLineEach_append.mp h
    show OnOneLine (array.asOperand (print array) ++ '[' :: print index ++ [']'])
    simp [onOneLine_asOperand (onOneLine_print array harray), onOneLine_print index hindex]
  | field object n, h => by
    have ⟨hn, hobject⟩ := onOneLineEach_cons.mp h
    show OnOneLine (object.asOperand (print object) ++ '.' :: n.toList)
    simp [onOneLine_asOperand (onOneLine_print object hobject), hn]
  | call n args, h => by
    have ⟨hn, hargs⟩ := onOneLineEach_cons.mp h
    exact onOneLine_append.mpr ⟨hn, onOneLine_bracketed (onOneLine_printAll args hargs)⟩
  | methodCall object n args, h => by
    have ⟨hobject, hargs⟩ := onOneLineEach_append.mp h
    have ⟨hn, hobject⟩ := onOneLineEach_cons.mp hobject
    show OnOneLine (object.asOperand (print object) ++ '.' :: n.toList ++ bracketed (printAll args))
    simp [onOneLine_asOperand (onOneLine_print object hobject), hn,
      onOneLine_bracketed (onOneLine_printAll args hargs)]
  | binary op left right, h => by
    have ⟨hleft, hright⟩ := onOneLineEach_append.mp h
    have hsign : '\n' ≠ op.sign := by cases op <;> decide
    show OnOneLine (left.asOperand (print left) ++ [' ', op.sign, ' '] ++
      right.asOperand (print right))
    simp [onOneLine_asOperand (onOneLine_print left hleft), hsign,
      onOneLine_asOperand (onOneLine_print right hright)]
  | postIncrement operand, h => by
    show OnOneLine (operand.asOperand (print operand) ++ ['+', '+'])
    simp [onOneLine_asOperand (onOneLine_print operand h)]
  | booleanLit b, _ => by cases b <;> decide
  | intLit n, _ => onOneLine_toString n.toInt
  | longLit n, _ => onOneLine_append.mpr ⟨onOneLine_toString n.toInt, by decide⟩
  | floatLit x, _ => onOneLine_numberLit (by decide) (by decide) x
  | doubleLit x, _ => onOneLine_numberLit (by decide) onOneLine_nil x
  | charLit u, _ => onOneLine_charLit u
  | stringLit s, _ => onOneLine_stringLit s

/-- Arguments are written on one line if each name in them is. -/
theorem onOneLine_printAll : (es : List Expr) → OnOneLineEach (allNamesEach es) →
    OnOneLine (printAll es)
  | [], _ => onOneLine_nil
  | [e], h => onOneLine_print e (onOneLineEach_append.mp h).1
  | e :: e' :: es, h => by
    have ⟨he, hes⟩ := onOneLineEach_append.mp h
    simp [printAll, onOneLine_print e he, onOneLine_printAll (e' :: es) hes]
end

end Expr

end ArrayBridge.Java
