import ArrayBridge.Proofs.Java.Method
import Mathlib.Data.List.Nodup

/-!
# Variables of emitted methods

The body of an emitted method is a list of statements without any nesting. Each binding declares at
most one variable, the one that is named after it, and reads variables of earlier bindings. This
holds of every program that passes the check of scopes, whether it is typed or not.

Main results:

* `readsFrom_localExpr`, `readsFrom_copyLengthExpr`, … — the variables that the operands of a
  binding read.
* `block_of_bindingStmts` — the statements of one binding.
* `exists_parts_of_bodyStmts` — the statements of all bindings, by induction along the emission.
* `Program.wellScopedBody_of_toMethod` — the body of an emitted method is well scoped.
-/

namespace ArrayBridge.Java

open ArrayBridge.Erased (Binding CopyLength Operand Program)

/-! ## Names and declarations -/

mutual
/-- The names of variables and classes that occur in an expression. -/
def Expr.names : Expr → List String
  | .name n => [n]
  | .assign target value => target.names ++ value.names
  | .new _ args | .arrayInit _ args | .call _ args => namesAll args
  | .newArray _ operand | .cast _ operand | .field operand _ | .postIncrement operand =>
    operand.names
  | .access left right | .binary _ left right => left.names ++ right.names
  | .methodCall object _ args => object.names ++ namesAll args
  | .null | .classLit _ | .booleanLit _ | .intLit _ | .longLit _ | .floatLit _ | .doubleLit _
  | .charLit _ | .stringLit _ => []

/-- The names that occur in a list of expressions. -/
def Expr.namesAll : List Expr → List String
  | [] => []
  | e :: es => e.names ++ namesAll es
end

/-- The variable that a statement declares for those after it. The variable of a loop is gone once
the loop has ended. -/
def Stmt.declared : Stmt → List String
  | .declare d => [d.name]
  | _ => []

mutual
/-- The names that a statement reads and does not declare itself. -/
def Stmt.reads : Stmt → List String
  | .declare d => d.init.names
  | .forLoop init condition update body =>
    init.init.names ++ (condition.names ++ update.names ++ readsAll body).filter (· ≠ init.name)
  | .eval e => e.names
  | .ret none => []
  | .ret (some e) => e.names
  | .raise e => e.names

/-- The names that a block reads and does not declare before. -/
def Stmt.readsAll : List Stmt → List String
  | [] => []
  | stmt :: rest => stmt.reads ++ (readsAll rest).filter (· ∉ stmt.declared)
end

/-- Whether a statement declares a variable or evaluates an expression, and the next one follows. -/
def Stmt.IsPlain : Stmt → Prop
  | .declare _ | .eval _ => True
  | _ => False

/-! ## Expressions -/

/-- Whether the variables of locals that an expression reads are all declared. -/
def Expr.ReadsFrom (declared : List String) (e : Expr) : Prop :=
  ∀ l, localName l ∈ e.names → localName l ∈ declared

/-- Whether the variable of a local is declared, if the local has one. -/
def Declares (types : List Erased.Ty) (declared : List String) (l : Local) : Prop :=
  types[l]? ≠ some .unit → localName l ∈ declared

section

variable {types : List Erased.Ty} {declared : List String} {l : Local} {e : Expr}
  {args : List Expr}

theorem mem_namesAll {n : String} {es : List Expr} :
    n ∈ Expr.namesAll es ↔ ∃ e ∈ es, n ∈ e.names := by
  induction es with
  | nil => simp [Expr.namesAll]
  | cons e es ih => simp [Expr.namesAll, ih]

namespace Expr.ReadsFrom

/-- An expression without names reads from any scope. -/
theorem of_names_eq_nil (h : e.names = []) : e.ReadsFrom declared := by
  intro l hl
  rw [h] at hl
  cases hl

/-- Arguments read what each of them reads. -/
theorem namesAll (hargs : ∀ e ∈ args, e.ReadsFrom declared) {l : Local}
    (hl : localName l ∈ Expr.namesAll args) : localName l ∈ declared := by
  obtain ⟨e, he, hl⟩ := mem_namesAll.mp hl
  exact hargs e he l hl

theorem pair {left right : Expr} (hleft : left.ReadsFrom declared)
    (hright : right.ReadsFrom declared) {l : Local}
    (hl : localName l ∈ left.names ++ right.names) : localName l ∈ declared := by
  rcases List.mem_append.mp hl with hl | hl
  · exact hleft l hl
  · exact hright l hl

theorem methodCall {object : Expr} {method : String} (hobject : object.ReadsFrom declared)
    (hargs : ∀ e ∈ args, e.ReadsFrom declared) :
    (Expr.methodCall object method args).ReadsFrom declared := by
  intro l hl
  rcases List.mem_append.mp hl with hl | hl
  · exact hobject l hl
  · exact namesAll hargs hl

/-- The name of a class is that of no variable. -/
theorem callOn {object method : String} (hobject : object.toList.head? ≠ some 'l')
    (hargs : ∀ e ∈ args, e.ReadsFrom declared) :
    (Expr.callOn object method args).ReadsFrom declared := by
  refine methodCall (fun l hl => ?_) hargs
  exact absurd (List.mem_singleton.mp hl).symm (localName_ne hobject l)

theorem toInt (h : e.ReadsFrom declared) : (Java.toInt e).ReadsFrom declared :=
  callOn (by decide) (by simpa using h)

end Expr.ReadsFrom

/-! ### Operands -/

/-- A local is read under its name, and one of unit type is not read at all. -/
theorem readsFrom_localExpr (h : Declares types declared l) :
    (localExpr types l).ReadsFrom declared := by
  intro m hm
  by_cases hunit : types[l]? = some .unit
  · rw [localExpr, if_pos hunit] at hm
    cases hm
  · rw [localExpr, if_neg hunit] at hm
    rw [List.mem_singleton.mp hm]
    exact h hunit

theorem readsFrom_indexExpr (h : Declares types declared l) :
    (indexExpr types l).ReadsFrom declared :=
  (readsFrom_localExpr h).toInt

/-- An offset is a constant, which reads nothing, or a local. -/
theorem readsFrom_operandExpr {o : Operand} (h : ∀ l ∈ o.usedLocals, Declares types declared l) :
    (operandExpr types o).ReadsFrom declared := by
  cases o with
  | read l => exact readsFrom_indexExpr (h l List.mem_cons_self)
  | const n =>
    rw [operandExpr, intExpr]
    split
    · exact .of_names_eq_nil rfl
    · exact .toInt (.of_names_eq_nil rfl)

theorem readsFrom_lengthExpr (h : Declares types declared l) :
    (lengthExpr types l).ReadsFrom declared :=
  readsFrom_localExpr h

/-- What is left of an array reads its length and the offset. -/
theorem readsFrom_remainingExpr {o : Operand} (hl : Declares types declared l)
    (ho : ∀ l ∈ o.usedLocals, Declares types declared l) :
    (remainingExpr types l o).ReadsFrom declared := by
  rw [remainingExpr]
  split
  · exact readsFrom_lengthExpr hl
  · exact fun m => (readsFrom_lengthExpr hl).pair (readsFrom_operandExpr ho)

theorem readsFrom_sequenceExpr (h : Declares types declared l) :
    (sequenceExpr types l).ReadsFrom declared := by
  have hlocal := readsFrom_localExpr h
  rw [sequenceExpr]
  split
  · split
    · exact hlocal
    · exact hlocal
  · exact hlocal

/-- A length is given, or computed from what both arrays have left. -/
theorem readsFrom_copyLengthExpr {source destination : Local}
    {sourceOffset destinationOffset : Operand} {length : CopyLength}
    (hsource : Declares types declared source) (hdestination : Declares types declared destination)
    (hsourceOffset : ∀ l ∈ sourceOffset.usedLocals, Declares types declared l)
    (hdestinationOffset : ∀ l ∈ destinationOffset.usedLocals, Declares types declared l)
    (hlength : ∀ l ∈ length.usedLocals, Declares types declared l) :
    (copyLengthExpr types source sourceOffset destination destinationOffset length).ReadsFrom
      declared := by
  cases length with
  | explicit n => exact readsFrom_operandExpr hlength
  | remaining =>
    refine .callOn (by decide) ?_
    simp only [List.mem_cons, List.not_mem_nil, or_false, forall_eq_or_imp, forall_eq]
    exact ⟨readsFrom_remainingExpr hsource hsourceOffset,
      readsFrom_remainingExpr hdestination hdestinationOffset⟩

/-! ### Literals -/

theorem names_charExpr {c : Char} (h : charExpr l c = .ok e) : e.names = [] := by
  rw [charExpr] at h
  split at h
  · exact Except.ok.inj h ▸ rfl
  · cases h

/-- Literals have no names in them. -/
theorem names_primExpr {p : Prim} (h : primExpr l p = .ok e) : e.names = [] := by
  cases p with
  | char c => exact names_charExpr h
  | _ => exact Except.ok.inj h ▸ rfl

theorem names_boxedExpr {b : Boxed} (h : boxedExpr l b = .ok e) : e.names = [] := by
  cases b with
  | character c => exact names_charExpr h
  | _ => exact Except.ok.inj h ▸ rfl

/-- The items of a literal are literals themselves, which read nothing. -/
theorem readsFrom_arrayInit {items : List Boxed} (h : items.mapM (boxedExpr l) = .ok args) :
    (Expr.arrayInit objectType args).ReadsFrom declared := by
  intro m
  refine Expr.ReadsFrom.namesAll fun e he => ?_
  obtain ⟨b, -, hb⟩ := exists_of_forall₂_right (mapM_eq_ok_iff.mp h) he
  exact .of_names_eq_nil (names_boxedExpr hb)

/-- The names of wrappers start with capital letters. -/
theorem head?_wrapperName_ne (k : Kind) : k.wrapperName.toList.head? ≠ some 'l' := by
  cases k <;> decide

/-- A descriptor names classes of the runtime, not locals. -/
theorem readsFrom_descriptorExpr (d : Descriptor) : (descriptorExpr d).ReadsFrom declared := by
  rw [descriptorExpr]
  split
  · intro l hl
    exact absurd (List.mem_singleton.mp hl).symm (localName_ne (head?_wrapperName_ne _) l)
  · refine .callOn (by decide) ?_
    simp only [List.mem_singleton, forall_eq]
    exact .of_names_eq_nil rfl

end

/-! ## Statements -/

/-- Whether each statement of a list reads variables only that are declared before it, in the list
or already before the list. -/
def Scoped (declared : List String) : List Stmt → Prop
  | [] => True
  | stmt :: rest =>
    (∀ l, localName l ∈ stmt.reads → localName l ∈ declared) ∧
      Scoped (declared ++ stmt.declared) rest

/-- Statements are scoped part by part, the second under what the first declare. -/
theorem scoped_append {declared : List String} {stmts stmts' : List Stmt} :
    Scoped declared (stmts ++ stmts') ↔
      Scoped declared stmts ∧ Scoped (declared ++ stmts.flatMap Stmt.declared) stmts' := by
  induction stmts generalizing declared with
  | nil => simp [Scoped]
  | cons stmt stmts ih =>
    rw [List.cons_append, Scoped, Scoped, ih, List.flatMap_cons, and_assoc, List.append_assoc]

/-- The statements of a binding: they declare its variable, if it has one, and no other. -/
structure Block (declared : List String) (l : Local) (type : Erased.Ty) (stmts : List Stmt) :
    Prop where
  plain : ∀ stmt ∈ stmts, stmt.IsPlain
  declares : stmts.flatMap Stmt.declared = if type = .unit then [] else [localName l]
  reads : Scoped declared stmts

section

variable {types : List Erased.Ty} {declared : List String} {l : Local} {type : Erased.Ty}

/-- Only bindings of unit type have no variable. -/
theorem ofErased?_eq_none {type : Erased.Ty} : Ty.ofErased? type = none ↔ type = .unit := by
  cases type <;> simp [Ty.ofErased?]

theorem block_nil : Block declared l .unit [] :=
  ⟨fun _ h => (List.not_mem_nil h).elim, rfl, trivial⟩

/-- The declaration of a local, or the bare statement in the place of a unit one. -/
theorem block_declareStmts {value : Expr} (hvalue : value.ReadsFrom declared) :
    Block declared l type (declareStmts l type value) := by
  rw [declareStmts]
  cases htype : Ty.ofErased? type with
  | none =>
    obtain rfl := ofErased?_eq_none.mp htype
    dsimp only
    -- No variable is of type unit: a value with an effect is a statement, any other is left out.
    split
    · exact ⟨by simp [Stmt.IsPlain], rfl, hvalue, trivial⟩
    · exact block_nil
  | some t =>
    have hunit : type ≠ .unit := by
      intro hunit
      rw [ofErased?_eq_none.mpr hunit] at htype
      cases htype
    refine ⟨by simp [Stmt.IsPlain], ?_, hvalue, trivial⟩
    rw [if_neg hunit]
    rfl

/-- A filled array is declared first, so the call that fills it may read its variable. -/
theorem block_fill {array : Expr} {element : Local} (htype : types[l]? = some type)
    (harray : array.ReadsFrom declared) (helement : Declares types declared element) :
    Block declared l type (declareStmts l type array ++
      [.eval (.callOn "java.util.Arrays" "fill"
        [localExpr types l, localExpr types element])]) := by
  have hfirst : Block declared l type (declareStmts l type array) := block_declareStmts harray
  -- what is declared when the array is filled
  let declared' := declared ++ if type = .unit then [] else [localName l]
  have hown : Declares types declared' l := by
    intro hunit
    have hne : type ≠ .unit := fun heq => hunit (heq ▸ htype)
    refine List.mem_append_right declared ?_
    rw [if_neg hne]
    exact List.mem_cons_self
  have hother : Declares types declared' element :=
    fun hunit => List.mem_append_left _ (helement hunit)
  have hfill : (Expr.callOn "java.util.Arrays" "fill"
      [localExpr types l, localExpr types element]).ReadsFrom declared' := by
    refine .callOn (by decide) ?_
    simp only [List.mem_cons, List.not_mem_nil, or_false, forall_eq_or_imp, forall_eq]
    exact ⟨readsFrom_localExpr hown, readsFrom_localExpr hother⟩
  constructor
  case plain =>
    intro stmt hstmt
    rcases List.mem_append.mp hstmt with hstmt | hstmt
    · exact hfirst.plain stmt hstmt
    · rw [List.mem_singleton.mp hstmt]
      trivial
  case declares =>
    rw [List.flatMap_append, hfirst.declares]
    exact List.append_nil _
  case reads =>
    rw [scoped_append, hfirst.declares]
    exact ⟨hfirst.reads, hfill, trivial⟩

/-- The statements of a binding that goes on, if the variables of the locals that it uses are
declared. -/
theorem block_of_bindingStmts {b : Binding} {stmts : List Stmt} (htype : types[l]? = some b.type)
    (hused : ∀ m ∈ b.expr.usedLocals, Declares types declared m) (hgoesOn : diverges b = false)
    (h : bindingStmts types l b = .ok stmts) : Block declared l b.type stmts := by
  obtain ⟨type, e⟩ := b
  simp only [Erased.Expr.usedLocals] at hused
  -- a form of expression becomes one declaration, whose value reads what its operands read
  cases e with
  | var source =>
    have hsource := readsFrom_localExpr (hused source List.mem_cons_self)
    obtain rfl := Except.ok.inj h
    dsimp only
    split
    · rename_i hunit
      exact hunit ▸ block_nil
    · exact block_declareStmts hsource
  | intLit n => exact Except.ok.inj h ▸ block_declareStmts (.of_names_eq_nil rfl)
  | primLit p =>
    cases hp : primExpr l p with
    | error error =>
      simp only [bindingStmts, hp] at h
      cases h
    | ok value =>
      simp only [bindingStmts, hp] at h
      exact Except.ok.inj h ▸ block_declareStmts (.of_names_eq_nil (names_primExpr hp))
  | sequenceLit element items =>
    cases hitems : items.mapM (boxedExpr l) with
    | error error =>
      simp only [bindingStmts, hitems] at h
      cases h
    | ok values =>
      simp only [bindingStmts, hitems] at h
      obtain rfl := Except.ok.inj h
      refine block_declareStmts (.callOn (by decide) ?_)
      simp only [List.mem_cons, List.not_mem_nil, or_false, forall_eq_or_imp, forall_eq]
      exact ⟨readsFrom_descriptorExpr element, readsFrom_arrayInit hitems⟩
  | invokeWrapper => cases hgoesOn
  | tuple items =>
    have hitems : ∀ e ∈ items.map (localExpr types), e.ReadsFrom declared := by
      intro e he
      obtain ⟨m, hm, rfl⟩ := List.mem_map.mp he
      exact readsFrom_localExpr (hused m hm)
    exact Except.ok.inj h ▸ block_declareStmts fun _ => Expr.ReadsFrom.namesAll hitems
  | newArray k size =>
    exact Except.ok.inj h ▸ block_declareStmts (readsFrom_indexExpr (hused size (by simp)))
  | fillArray k size element =>
    have hsize := readsFrom_indexExpr (hused size (by simp))
    have harray : (Expr.newArray (.prim k) (indexExpr types size)).ReadsFrom declared := hsize
    exact Except.ok.inj h ▸ block_fill htype harray (hused element (by simp))
  | load k array index =>
    have harray := readsFrom_localExpr (hused array (by simp))
    have hindex := readsFrom_indexExpr (hused index (by simp))
    exact Except.ok.inj h ▸ block_declareStmts fun _ => harray.pair hindex
  | store k array index value =>
    have harray := readsFrom_localExpr (hused array (by simp))
    have hindex := readsFrom_indexExpr (hused index (by simp))
    have haccess :
        (Expr.access (localExpr types array) (indexExpr types index)).ReadsFrom declared :=
      fun _ => harray.pair hindex
    have hvalue := readsFrom_localExpr (hused value (by simp))
    exact Except.ok.inj h ▸ block_declareStmts fun _ => haccess.pair hvalue
  | arrayLength k array =>
    exact Except.ok.inj h ▸ block_declareStmts (readsFrom_lengthExpr (hused array (by simp)))
  | arrayCopy k source sourceOffset destination destinationOffset length =>
    have hsource := hused source (by simp)
    have hdestination := hused destination (by simp)
    have hsourceOffset : ∀ m ∈ sourceOffset.usedLocals, Declares types declared m :=
      fun m hm => hused m (by simp [hm])
    have hdestinationOffset : ∀ m ∈ destinationOffset.usedLocals, Declares types declared m :=
      fun m hm => hused m (by simp [hm])
    have hlength : ∀ m ∈ length.usedLocals, Declares types declared m :=
      fun m hm => hused m (by simp [hm])
    obtain rfl := Except.ok.inj h
    refine block_declareStmts (.callOn (by decide) ?_)
    simp only [List.mem_cons, List.not_mem_nil, or_false, forall_eq_or_imp, forall_eq]
    exact ⟨readsFrom_localExpr hsource, readsFrom_operandExpr hsourceOffset,
      readsFrom_localExpr hdestination, readsFrom_operandExpr hdestinationOffset,
      readsFrom_copyLengthExpr hsource hdestination hsourceOffset hdestinationOffset hlength⟩
  | wrapAdapter k array =>
    have harray := readsFrom_localExpr (hused array (by simp))
    exact Except.ok.inj h ▸ block_declareStmts
      (.callOn (head?_wrapperName_ne k) (by simpa using harray))
  | copyFromGeneric k sequence =>
    have hsequence := readsFrom_sequenceExpr (hused sequence (by simp))
    exact Except.ok.inj h ▸ block_declareStmts
      (.callOn (head?_wrapperName_ne k) (by simpa using hsequence))
  | genericSize sequence =>
    have hsequence := readsFrom_sequenceExpr (hused sequence (by simp))
    exact Except.ok.inj h ▸ block_declareStmts (.methodCall hsequence (by simp))
  | genericGet sequence index =>
    have hsequence := readsFrom_sequenceExpr (hused sequence (by simp))
    have hindex := readsFrom_localExpr (hused index (by simp))
    exact Except.ok.inj h ▸ block_declareStmts (.methodCall hsequence (by simpa using hindex))
  | genericSet sequence index value =>
    have hsequence := readsFrom_sequenceExpr (hused sequence (by simp))
    have hindex := readsFrom_localExpr (hused index (by simp))
    have hvalue := readsFrom_localExpr (hused value (by simp))
    exact Except.ok.inj h ▸ block_declareStmts
      (.methodCall hsequence (by simpa using ⟨hindex, hvalue⟩))
  | typeTest value d =>
    have hvalue := readsFrom_localExpr (hused value (by simp))
    have hdescriptor : (descriptorExpr d).ReadsFrom declared := readsFrom_descriptorExpr d
    exact Except.ok.inj h ▸ block_declareStmts
      (.callOn (by decide) (by simpa using ⟨hvalue, hdescriptor⟩))
  | typeOf value =>
    have hvalue := readsFrom_localExpr (hused value (by simp))
    exact Except.ok.inj h ▸ block_declareStmts (.callOn (by decide) (by simpa using hvalue))

end

/-! ## Bodies -/

/-- The locals from the given place on that have a variable: those before the first binding that
diverges, unless they are of unit type. -/
def declaredLocals (l : Local) : List Binding → List Local
  | [] => []
  | b :: rest =>
    if diverges b then []
    else (if b.type = .unit then [] else [l]) ++ declaredLocals (l + 1) rest

/-- Numbers of declared locals go up from the first. -/
theorem le_of_mem_declaredLocals {l m : Local} {bs : List Binding} (h : m ∈ declaredLocals l bs) :
    l ≤ m := by
  induction bs generalizing l with
  | nil => cases h
  | cons b bs ih =>
    rw [declaredLocals] at h
    split at h
    · cases h
    · rcases List.mem_append.mp h with h | h
      · split at h
        · cases h
        · exact Nat.le_of_eq (List.mem_singleton.mp h).symm
      · exact Nat.le_of_succ_le (ih h)

/-- No local is declared twice, because each has a number of its own. -/
theorem nodup_declaredLocals (l : Local) (bs : List Binding) : (declaredLocals l bs).Nodup := by
  induction bs generalizing l with
  | nil => exact List.nodup_nil
  | cons b bs ih =>
    rw [declaredLocals]
    split
    · exact List.nodup_nil
    · split
      · exact ih (l + 1)
      · -- the locals that follow are all greater
        refine List.nodup_cons.mpr ⟨fun hmem => ?_, ih (l + 1)⟩
        exact Nat.not_succ_le_self l (le_of_mem_declaredLocals hmem)

/-- A local is declared unless it is of unit type or comes after a throw. -/
theorem mem_declaredLocals {l : Local} {before after : List Binding} {b : Binding}
    (hunit : b.type ≠ .unit) (hgoesOn : ∀ c ∈ before ++ [b], diverges c = false) :
    l + before.length ∈ declaredLocals l (before ++ b :: after) := by
  induction before generalizing l with
  | nil =>
    have hb : diverges b = false := hgoesOn b List.mem_cons_self
    simp [declaredLocals, hb, hunit]
  | cons c before ih =>
    have hc : diverges c = false := hgoesOn c List.mem_cons_self
    have hrest := ih (l := l + 1) fun d hd => hgoesOn d (List.mem_cons_of_mem c hd)
    -- The place of the binding, counted from the one that comes next.
    have hplace : l + (c :: before).length = l + 1 + before.length :=
      (Nat.add_right_comm l 1 before.length).symm
    rw [List.cons_append, declaredLocals, hc, hplace]
    exact List.mem_append_right _ hrest

/-- The check of scopes looks at one binding after another. -/
theorem unbound?_cons_eq_none {l : Local} {b : Binding} {rest : List Binding}
    (h : unbound? l (b :: rest) = none) :
    (∀ m ∈ b.expr.usedLocals, m < l) ∧ unbound? (l + 1) rest = none := by
  rw [unbound?] at h
  split at h
  · cases h
  · rename_i hfind
    refine ⟨fun m hm => ?_, h⟩
    have hnot := List.find?_eq_none.mp hfind m hm
    simpa using hnot

/-- The statements of the bindings from a place on: those that bind, and the end. The end is a throw
statement if a binding diverges. -/
structure BodyParts (declared : List String) (l : Local) (rest : List Binding)
    (last own tail : List Stmt) : Prop where
  plain : ∀ stmt ∈ own, stmt.IsPlain
  declares : own.flatMap Stmt.declared = (declaredLocals l rest).map localName
  reads : Scoped declared own
  tail : (∃ e, tail = [.raise e] ∧ e.ReadsFrom [] ∧ ∃ b ∈ rest, diverges b = true) ∨
    tail = last ∧ ∀ b ∈ rest, diverges b = false

/-- A binding that diverges becomes one throw statement, which reads no variable. -/
theorem exists_raise_of_diverges {types : List Erased.Ty} {l : Local} {b : Binding}
    {stmts : List Stmt} (hdiverges : diverges b = true) (h : bindingStmts types l b = .ok stmts) :
    ∃ e, stmts = [.raise e] ∧ e.ReadsFrom [] := by
  obtain ⟨type, e⟩ := b
  cases e with
  | invokeWrapper k op => exact ⟨_, (Except.ok.inj h).symm, .of_names_eq_nil rfl⟩
  | _ => cases hdiverges

/-- The statements of all bindings that are left. By induction on them: each binding declares its
own variable, so that the next ones may read it. -/
theorem exists_parts_of_bodyStmts {types : List Erased.Ty} {last stmts : List Stmt}
    {declared : List String} (before : List Binding) {rest : List Binding}
    (htypes : types = (before ++ rest).map Binding.type)
    (hunbound : unbound? before.length rest = none)
    (hdeclared : ∀ m < before.length, Declares types declared m)
    (h : bodyStmts types last before.length rest = .ok stmts) :
    ∃ own tail, stmts = own ++ tail ∧ BodyParts declared before.length rest last own tail := by
  induction rest generalizing before declared stmts with
  | nil =>
    obtain rfl := Except.ok.inj h
    exact ⟨[], last, rfl, by simp, rfl, trivial, .inr ⟨rfl, by simp⟩⟩
  | cons b rest ih =>
    obtain ⟨hlt, hunboundRest⟩ := unbound?_cons_eq_none hunbound
    have hused : ∀ m ∈ b.expr.usedLocals, Declares types declared m :=
      fun m hm => hdeclared m (hlt m hm)
    have htype : types[before.length]? = some b.type := by simp [htypes]
    obtain ⟨first, hfirst, h⟩ := Check.bind_eq_ok.mp h
    cases hdiverges : diverges b with
    | true =>
      rw [hdiverges] at h
      obtain rfl := Except.ok.inj h
      obtain ⟨e, rfl, he⟩ := exists_raise_of_diverges hdiverges hfirst
      refine ⟨[], [.raise e], rfl, by simp, ?_, trivial, .inl ⟨e, rfl, he, b, ?_, hdiverges⟩⟩
      · rw [declaredLocals, hdiverges]
        rfl
      · exact List.mem_cons_self
    | false =>
      rw [hdiverges] at h
      obtain ⟨others, hothers, h⟩ := Check.bind_eq_ok.mp h
      obtain rfl := Except.ok.inj h
      have hblock := block_of_bindingStmts htype hused hdiverges hfirst
      -- after the first binding its variable is declared as well
      have hdeclared' : ∀ m < (before ++ [b]).length,
          Declares types (declared ++ first.flatMap Stmt.declared) m := by
        intro m hm hunit
        rw [List.length_append, List.length_singleton] at hm
        rcases Nat.lt_or_eq_of_le (Nat.le_of_lt_succ hm) with hm | rfl
        · exact List.mem_append_left _ (hdeclared m hm hunit)
        · have hne : b.type ≠ .unit := fun heq => hunit (heq ▸ htype)
          rw [hblock.declares, if_neg hne]
          exact List.mem_append_right declared List.mem_cons_self
      have hlength : (before ++ [b]).length = before.length + 1 := by
        rw [List.length_append, List.length_singleton]
      obtain ⟨own, tail, rfl, hparts⟩ := ih (before ++ [b]) (by simpa using htypes)
        (hlength ▸ hunboundRest) hdeclared' (hlength ▸ hothers)
      refine ⟨first ++ own, tail, (List.append_assoc ..).symm, ?_, ?_, ?_, ?_⟩
      · intro stmt hstmt
        rcases List.mem_append.mp hstmt with hstmt | hstmt
        · exact hblock.plain stmt hstmt
        · exact hparts.plain stmt hstmt
      · rw [List.flatMap_append, hblock.declares, hparts.declares, declaredLocals, hdiverges,
          hlength]
        split <;> simp
      · exact scoped_append.mpr ⟨hblock.reads, hparts.reads⟩
      · rcases hparts.tail with ⟨e, htail, he, c, hc, hdiv⟩ | ⟨htail, hall⟩
        · exact .inl ⟨e, htail, he, c, List.mem_cons_of_mem b hc, hdiv⟩
        · exact .inr ⟨htail, List.forall_mem_cons.mpr ⟨hdiverges, hall⟩⟩

/-! ## Methods -/

/-- The body of the method of a program is well scoped. -/
structure WellScopedBody (p : Program) (body : List Stmt) : Prop where
  /-- Nothing is declared inside of another statement: there are no loops. -/
  flat : ∀ init condition update inner, .forLoop init condition update inner ∉ body
  /-- The variables that a statement reads are declared by earlier statements. -/
  reads : ∀ before stmt after, body = before ++ stmt :: after →
    ∀ l, localName l ∈ stmt.reads → localName l ∈ before.flatMap Stmt.declared
  /-- A binding that is not of unit type, before the first one that diverges, is declared once. -/
  declares : ∀ before b after, p.bindings = before ++ b :: after → b.type ≠ .unit →
    (∀ c ∈ before ++ [b], diverges c = false) →
    (body.flatMap Stmt.declared).count (localName before.length) = 1
  /-- No name is declared twice. -/
  nodup : (body.flatMap Stmt.declared).Nodup
  /-- Nothing follows a throw statement. -/
  raise : ∀ before e after, body = before ++ .raise e :: after → after = []
  /-- There is a throw statement exactly if a binding diverges. -/
  throws : (∃ stmts e, body = stmts ++ [.raise e]) ↔ ∃ b ∈ p.bindings, diverges b = true
  /-- A body that does not end in a throw statement ends with a return of the result, unless that is
  of unit type. -/
  returns : (¬ ∃ stmts e, body = stmts ++ [.raise e]) →
    ∃ b, p.bindings[p.result]? = some b ∧ ∃ stmts, (∀ value, .ret value ∉ stmts) ∧
      body = stmts ++ if b.type = .unit then [] else [.ret (some (.name (localName p.result)))]
  /-- A body that ends in a throw statement returns nothing. -/
  noReturn : ∀ stmts e, body = stmts ++ [.raise e] → ∀ value, .ret value ∉ body

/-- What a statement reads that follows well scoped ones is declared by them. -/
theorem Scoped.reads {before after : List Stmt} {stmt : Stmt}
    (h : Scoped [] (before ++ stmt :: after)) {l : Local} (hl : localName l ∈ stmt.reads) :
    localName l ∈ before.flatMap Stmt.declared := by
  obtain ⟨-, hstmt, -⟩ := scoped_append.mp h
  simpa using hstmt l hl

/-- A method is emitted only for a program whose operands are all bound before. -/
theorem unbound?_of_toMethod {p : Program} {m : Method} (h : p.toMethod = .ok m) :
    unbound? 0 p.bindings = none := by
  obtain ⟨type, hscope, -⟩ := Check.bind_eq_ok.mp h
  exact (checkScoping_eq_ok.mp hscope).1

/-- How the body of a method ends: with a throw statement if a binding diverges, else with a return
of the result, unless that is of unit type. -/
inductive Ending (p : Program) : Option Stmt → Prop
  | raise {e : Expr} {b : Binding} (he : e.ReadsFrom []) (hb : b ∈ p.bindings)
    (hdiverges : diverges b = true) : Ending p (some (.raise e))
  | unit {b : Binding} (hb : p.bindings[p.result]? = some b) (hunit : b.type = .unit)
    (hgoesOn : ∀ c ∈ p.bindings, diverges c = false) : Ending p none
  | ret {b : Binding} (hb : p.bindings[p.result]? = some b) (hunit : b.type ≠ .unit)
    (hgoesOn : ∀ c ∈ p.bindings, diverges c = false) :
    Ending p (some (.ret (some (.name (localName p.result)))))

/-- Plain statements and an ending that make up the body of the method of a program. -/
structure MakesBody (p : Program) (own : List Stmt) (ending : Option Stmt) : Prop where
  plain : ∀ stmt ∈ own, stmt.IsPlain
  declares : own.flatMap Stmt.declared = (declaredLocals 0 p.bindings).map localName
  reads : Scoped [] own
  ending : Ending p ending

/-- The body of a method consists of the statements of bindings and of what ends it: the return, or
nothing behind a throw. -/
theorem exists_makesBody_of_toMethod {p : Program} {m : Method} (h : p.toMethod = .ok m) :
    ∃ own ending, m.body = own ++ ending.toList ∧ MakesBody p own ending := by
  have hunbound := unbound?_of_toMethod h
  obtain ⟨b, body, hb, hbody, rfl⟩ := toMethod_eq_ok h
  -- nothing is declared at the start
  have hdeclared : ∀ l < ([] : List Binding).length,
      Declares (p.bindings.map Binding.type) [] l :=
    fun l hl => absurd hl (Nat.not_lt_zero l)
  obtain ⟨own, tail, rfl, hparts⟩ := exists_parts_of_bodyStmts [] rfl hunbound hdeclared hbody
  rcases hparts.tail with ⟨e, rfl, he, c, hc, hdiverges⟩ | ⟨rfl, hgoesOn⟩
  · exact ⟨own, some (.raise e), rfl, hparts.plain, hparts.declares, hparts.reads,
      .raise he hc hdiverges⟩
  · by_cases hunit : b.type = .unit
    · rw [if_pos hunit]
      exact ⟨own, none, rfl, hparts.plain, hparts.declares, hparts.reads, .unit hb hunit hgoesOn⟩
    · have hresult : localExpr (p.bindings.map Binding.type) p.result =
          .name (localName p.result) := by
        rw [localExpr, if_neg]
        simpa [hb] using hunit
      rw [if_neg hunit, hresult]
      exact ⟨own, some _, rfl, hparts.plain, hparts.declares, hparts.reads, .ret hb hunit hgoesOn⟩

/-- A statement that is not among the plain ones can only be the ending. -/
theorem eq_ending_of_append_cons_eq {own before after : List Stmt} {stmt : Stmt}
    {ending : Option Stmt} (hstmt : stmt ∉ own)
    (h : own ++ ending.toList = before ++ stmt :: after) : after = [] ∧ ending = some stmt := by
  cases ending with
  | none =>
    rw [Option.toList_none, List.append_nil] at h
    exact absurd (h ▸ List.mem_append_right before List.mem_cons_self) hstmt
  | some last =>
    rcases List.eq_nil_or_concat after with rfl | ⟨others, other, rfl⟩
    · obtain ⟨-, hlast⟩ := List.append_inj' h rfl
      exact ⟨rfl, congrArg some (List.singleton_inj.mp hlast)⟩
    · -- then the statement would stand among those before the ending
      rw [List.concat_eq_append, ← List.cons_append, ← List.append_assoc] at h
      obtain ⟨hown, -⟩ := List.append_inj' h rfl
      exact absurd (hown ▸ List.mem_append_right before List.mem_cons_self) hstmt

namespace MakesBody

variable {p : Program} {own : List Stmt} {ending : Option Stmt}

/-- A throw is only ever the ending. -/
theorem raise_notMem (h : MakesBody p own ending) (e : Expr) : .raise e ∉ own :=
  fun he => h.plain _ he

/-- So is a return. -/
theorem ret_notMem (h : MakesBody p own ending) (value : Option Expr) : .ret value ∉ own :=
  fun hvalue => h.plain _ hvalue

/-- The ending declares nothing. -/
theorem declared_eq (h : MakesBody p own ending) :
    (own ++ ending.toList).flatMap Stmt.declared = (declaredLocals 0 p.bindings).map localName := by
  have hending := h.ending
  rw [List.flatMap_append, h.declares]
  cases hending <;> exact List.append_nil _

theorem nodup_declared (h : MakesBody p own ending) :
    ((own ++ ending.toList).flatMap Stmt.declared).Nodup := by
  rw [h.declared_eq]
  exact (nodup_declaredLocals 0 p.bindings).map fun _ _ => localName_injective

/-- A binding up to the throw declares its local, under the name of its number. -/
theorem mem_declared (h : MakesBody p own ending) {before after : List Binding} {b : Binding}
    (hsplit : p.bindings = before ++ b :: after) (hunit : b.type ≠ .unit)
    (hgoesOn : ∀ c ∈ before ++ [b], diverges c = false) :
    localName before.length ∈ (own ++ ending.toList).flatMap Stmt.declared := by
  have hmem : 0 + before.length ∈ declaredLocals 0 (before ++ b :: after) :=
    mem_declaredLocals hunit hgoesOn
  rw [Nat.zero_add, ← hsplit] at hmem
  rw [h.declared_eq]
  exact List.mem_map_of_mem hmem

/-- The ending reads the variable of the result at most, and only if all bindings go on. -/
theorem scoped_body (h : MakesBody p own ending) : Scoped [] (own ++ ending.toList) := by
  refine scoped_append.mpr ⟨h.reads, ?_⟩
  rw [List.nil_append, h.declares]
  have hending := h.ending
  -- What is thrown reads no variable, and what is returned is declared, since no binding before it
  -- or at it breaks the run off.
  cases hending with
  | raise he => exact ⟨fun l hl => absurd (he l hl) List.not_mem_nil, trivial⟩
  | unit => trivial
  | @ret b hb hunit hgoesOn =>
    obtain ⟨before, after, hsplit, hlength⟩ := exists_append_of_getElem? hb
    have hbefore : ∀ c ∈ before ++ [b], diverges c = false := by
      intro c hc
      refine hgoesOn c ?_
      rw [hsplit, List.append_cons]
      exact List.mem_append_left after hc
    have hresult := h.mem_declared hsplit hunit hbefore
    rw [h.declared_eq, hlength] at hresult
    refine ⟨fun l hl => ?_, trivial⟩
    rw [List.mem_singleton.mp hl]
    exact hresult

/-- A throw statement at the end stands for a binding that diverges. -/
theorem raises_iff (h : MakesBody p own ending) :
    (∃ stmts e, own ++ ending.toList = stmts ++ [.raise e]) ↔
      ∃ b ∈ p.bindings, diverges b = true := by
  have hending := h.ending
  constructor
  · -- the statements of bindings throw nothing, so the throw is the ending
    rintro ⟨stmts, e, hsplit⟩
    obtain ⟨-, rfl⟩ := eq_ending_of_append_cons_eq (h.raise_notMem e) hsplit
    cases hending with
    | raise he hb hdiverges => exact ⟨_, hb, hdiverges⟩
  · rintro ⟨b, hb, hdiverges⟩
    cases hending with
    | raise => exact ⟨own, _, rfl⟩
    | unit _ _ hgoesOn | ret _ _ hgoesOn =>
      rw [hgoesOn b hb] at hdiverges
      cases hdiverges

end MakesBody

end ArrayBridge.Java

namespace ArrayBridge.Erased.Program

open ArrayBridge.Java (Method Stmt WellScopedBody localName diverges)

/-- The body of an emitted method is well scoped: variables are declared once and before they are
read, nothing follows a throw statement, and the result is returned exactly where there is one. -/
theorem wellScopedBody_of_toMethod {p : Program} {m : Method} (h : p.toMethod = .ok m) :
    WellScopedBody p m.body := by
  obtain ⟨own, ending, hbody, hmakes⟩ := Java.exists_makesBody_of_toMethod h
  have hending := hmakes.ending
  rw [hbody]
  constructor
  case flat =>
    intro init condition update inner hmem
    rcases List.mem_append.mp hmem with hmem | hmem
    · exact hmakes.plain _ hmem
    · cases hending <;> simp at hmem
  case reads =>
    intro before stmt after hsplit l hl
    have hscoped := hmakes.scoped_body
    rw [hsplit] at hscoped
    exact hscoped.reads hl
  case declares =>
    intro before b after hsplit hunit hgoesOn
    exact List.count_eq_one_of_mem hmakes.nodup_declared (hmakes.mem_declared hsplit hunit hgoesOn)
  case nodup => exact hmakes.nodup_declared
  case raise =>
    intro before e after hsplit
    exact (Java.eq_ending_of_append_cons_eq (hmakes.raise_notMem e) hsplit).1
  case throws => exact hmakes.raises_iff
  case returns =>
    intro hnot
    cases hending with
    | raise => exact absurd ⟨own, _, rfl⟩ hnot
    | unit hb hunit =>
      refine ⟨_, hb, own, hmakes.ret_notMem, ?_⟩
      rw [if_pos hunit]
      rfl
    | ret hb hunit =>
      refine ⟨_, hb, own, hmakes.ret_notMem, ?_⟩
      rw [if_neg hunit]
      rfl
  case noReturn =>
    intro stmts e hsplit value hvalue
    obtain ⟨-, rfl⟩ := Java.eq_ending_of_append_cons_eq (hmakes.raise_notMem e) hsplit
    -- the one statement that is not plain is the throw statement
    rcases List.mem_append.mp hvalue with hvalue | hvalue
    · exact hmakes.ret_notMem value hvalue
    · cases List.mem_singleton.mp hvalue

/-- The variable of a filled array is declared once and read after that, by the call that fills it
and by the return. The binding of unit type between them has no statement. -/
theorem wellScopedBody_of_toMethod_fill :
    ∃ (p : Program) (m : Method), p.toMethod = .ok m ∧ WellScopedBody p m.body ∧
      m.body.length = 5 ∧ (m.body.flatMap Stmt.declared).count (localName 2) = 1 ∧
      ∃ stmts, m.body = stmts ++ [.ret (some (.name (localName 2)))] := by
  let before : List Binding := [⟨.integer, .intLit 2⟩, ⟨.prim .int, .primLit (.int 7)⟩]
  let filled : Binding := ⟨.array .int, .fillArray .int 0 1⟩
  let unit : Binding := ⟨.unit, .tuple []⟩
  let p : Program := ⟨before ++ [filled, unit], 2⟩
  obtain ⟨m, hm, hlength⟩ : ∃ m, p.toMethod = .ok m ∧ m.body.length = 5 := ⟨_, rfl, rfl⟩
  have hscoped := wellScopedBody_of_toMethod hm
  have hgoesOn : ∀ b ∈ p.bindings, diverges b = false := by decide
  obtain ⟨b, hb, stmts, -, hbody⟩ := hscoped.returns fun hthrows => by
    obtain ⟨b, hb, hdiverges⟩ := hscoped.throws.mp hthrows
    rw [hgoesOn b hb] at hdiverges
    cases hdiverges
  obtain rfl : filled = b := Option.some.inj hb
  exact ⟨p, m, hm, hscoped, hlength,
    hscoped.declares before filled [unit] rfl (by decide) (by decide), stmts, hbody⟩

end ArrayBridge.Erased.Program
