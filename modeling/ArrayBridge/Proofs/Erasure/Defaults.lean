import ArrayBridge.Proofs.Erased.Effects
import ArrayBridge.Proofs.Erasure.Appending
import ArrayBridge.Proofs.Store.Elements
import ArrayBridge.Proofs.Wrapper.Resolution
import Mathlib.Tactic.IntervalCases

/-!
# Omitted arguments

The contract says which value an omitted argument takes. Erasure and the arrays do not read that
table: a fresh array is filled with zeros by itself, an offset becomes a constant, and a copy finds
out on its own how much is left. A call with omitted arguments still does what the call does that is
given the values of the table, in every state of the code before it.

Main results:

* `eval_fillArray_of_zero`, `eval_arrayCopy_of_remaining` — the expressions that differ between the
  two calls.
* `Bridge.Program.sameEffect_of_completes` — a call and the one in which its omitted arguments are
  supplied.
-/

namespace ArrayBridge

open ArrayBridge.Erased (Env RunError Value evalBindings)
open Bridge (Ty Declares)

/-- Whether the offsets of a copy lie within its arrays. -/
def OffsetsFit (s : Store) (a : ArrayRef) (m : Int64) (d : ArrayRef) (n : Int64) : Prop :=
  (0 ≤ m.toInt ∧ m.toInt ≤ s.length a) ∧ 0 ≤ n.toInt ∧ n.toInt ≤ s.length d

/-- Evaluates code in a state of the code before it: the value of a local after it. -/
def evalCode (env : Env) (code : List Erased.Binding) (result : Local) : Action RunError Value := do
  let env ← evalBindings env code
  Action.lift (env.value result)

/-- Evaluates the code of a plan in a state of the code that is placed before it. -/
def Erasure.Placement.evalPlan (placed : Placement) (policy : AdapterPolicy) (plan : Plan)
    (env : Env) : Action RunError Value :=
  let (l, next) := placed.code policy plan
  evalCode env (next.bindings.drop placed.bindings.length) l

/-! ## What is prescribed -/

namespace Bridge.Program

variable (policy : AdapterPolicy) (p : Program) (env : Env) (s : Store)

/-- Whether the erased local that stands for a local has a value. -/
def HasValue (l : Local) (v : Value) : Prop :=
  ∃ e, erase policy ⟨p.bindings, l⟩ = .ok e ∧ env[e.result]? = some v

/-- Whether an offset of a copy has a value, which is zero if the offset is left out. -/
def OffsetIs : Option Local → Int64 → Prop
  | none, n => n = 0
  | some l, n => p.HasValue policy env l (.integer n)

/-- The arrays of a copy, each with its offset. -/
inductive Copies : Expr → ArrayRef → Int64 → ArrayRef → Int64 → Prop
  | copyTo {k : Kind} {source destination : Local}
    {sourceOffset destinationOffset length : Option Local} {a d : ArrayRef} {m n : Int64}
    (ha : p.HasValue policy env source (.array a)) (hm : p.OffsetIs policy env sourceOffset m)
    (hd : p.HasValue policy env destination (.array d))
    (hn : p.OffsetIs policy env destinationOffset n) :
    Copies (.call k (.copyTo source destination sourceOffset destinationOffset length)) a m d n

/-- Whether an offset of a copy lies outside its array. -/
def OffsetOutside (expr : Expr) : Prop :=
  ∃ a m d n, p.Copies policy env expr a m d n ∧ ¬ OffsetsFit s a m d n

/-- Whether a local may be supplied for an omitted argument of a call: it is declared at the type of
the parameter, and has the value that the rule prescribes. The zero of a kind is the one with no bit
set. -/
def Prescribes (k : Kind) (expr : Expr) : DefaultRule → Local → Prop
  | .elementDefault, l => Declares p.bindings l (.prim k) ∧
      ∃ v : Prim, p.HasValue policy env l (.prim v) ∧ v.kind = k ∧ v.toSlot = 0
  | .zero, l => Declares p.bindings l .integer ∧ p.HasValue policy env l (.integer 0)
  | .remainingLength, l => Declares p.bindings l .integer ∧
      ∃ c : Int64, p.HasValue policy env l (.integer c) ∧
        ∀ a m d n, p.Copies policy env expr a m d n → OffsetsFit s a m d n →
          c.toInt = min (s.length a - m.toInt) (s.length d - n.toInt)

/-- Erases one more binding at the end of a program, and evaluates its code in a state of the code
before it: the error of erasure, or how the evaluation ends. -/
def evalNext (b : Binding) : Except Erasure.Error (EStateM.Result RunError Store Value) := do
  let before ← p.erase policy
  let after ← (p.concat b).erase policy
  return evalCode env (after.bindings.drop before.bindings.length) after.result s

end Bridge.Program

/-! ## Evaluation -/

namespace Erased

variable {env : Env} {s : Store} {k : Kind}

/-- An array that is filled with zeros is a fresh one. -/
theorem eval_fillArray_of_zero {size element : Local} {v : Prim}
    (hv : env[element]? = some (.prim v)) (hkind : v.kind = k) (hzero : v.toSlot = 0) :
    (Expr.fillArray k size element).eval env = (Expr.newArray k size).eval env := by
  have hprim : env.prim element = .ok v := Env.prim_eq_ok.mpr hv
  simp only [Expr.eval, hprim, Action.lift_ok, pure_bind,
    ArrayRef.new_of_isZero _ hkind (Prim.isZero_iff.mpr hzero)]

variable {source destination : Local} {sourceOffset destinationOffset : Operand}
  {length length' : CopyLength}

/-- The length of a copy only matters where its operands can be read. -/
theorem eval_arrayCopy_congr {given given' : Option Int64}
    (hlength : env.copyLength length = .ok given) (hlength' : env.copyLength length' = .ok given')
    (hcopy : ∀ a m d n, env.array k source = .ok a → env.offset sourceOffset = .ok m →
      env.array k destination = .ok d → env.offset destinationOffset = .ok n →
        a.copyTo d m n given s = a.copyTo d m n given' s) :
    (Expr.arrayCopy k source sourceOffset destination destinationOffset length).eval env s =
      (Expr.arrayCopy k source sourceOffset destination destinationOffset length').eval env s := by
  simp only [Expr.eval, hlength, hlength', Action.lift_ok, pure_bind]
  refine Action.lift_bind_congr fun a ha => Action.lift_bind_congr fun d hd =>
    Action.lift_bind_congr fun m hm => Action.lift_bind_congr fun n hn => Action.bind_congr _ ?_
  rw [Action.mapError, Action.mapError, EStateM.adaptExcept, EStateM.adaptExcept,
    hcopy a m d n ha hm hd hn]

/-- A copy without a length is the one whose length is what remains, if its offsets fit. -/
theorem eval_arrayCopy_of_remaining {c : Int64} (hlength : env.copyLength length = .ok none)
    (hlength' : env.copyLength length' = .ok (some c))
    (hremaining : ∀ a m d n, env.array k source = .ok a → env.offset sourceOffset = .ok m →
      env.array k destination = .ok d → env.offset destinationOffset = .ok n →
        OffsetsFit s a m d n ∧ c.toInt = min (s.length a - m.toInt) (s.length d - n.toInt)) :
    (Expr.arrayCopy k source sourceOffset destination destinationOffset length).eval env s =
      (Expr.arrayCopy k source sourceOffset destination destinationOffset length').eval env s := by
  refine eval_arrayCopy_congr hlength hlength' fun a m d n ha hm hd hn => ?_
  obtain ⟨⟨hfrom, hto⟩, hc⟩ := hremaining a m d n ha hm hd hn
  -- both arrays have been read as arrays of kind `k`
  have hkind : d.kind = a.kind := by
    rw [(Env.array_eq_ok.mp ha).2, (Env.array_eq_ok.mp hd).2]
  exact ArrayRef.copyTo_of_remaining s hkind hfrom hto hc

/-- A copy fails if an offset lies outside its array, and changes nothing. -/
theorem eval_arrayCopy_of_outside {a d : ArrayRef} {m n : Int64}
    (ha : env[source]? = some (.array a)) (hm : env.offset sourceOffset = .ok m)
    (hd : env[destination]? = some (.array d)) (hn : env.offset destinationOffset = .ok n)
    (hout : ¬ OffsetsFit s a m d n) :
    ∃ error,
      (Expr.arrayCopy k source sourceOffset destination destinationOffset length).eval env s =
      .error error s := by
  have hwrites := (Expr.arrayCopy k source sourceOffset destination destinationOffset
    length).writesOnly_eval env s
  rw [Action.WritesOnly] at hwrites
  cases heval : (Expr.arrayCopy k source sourceOffset destination destinationOffset
    length).eval env s with
  | error error s' =>
    rw [heval] at hwrites
    obtain rfl : s' = s := hwrites
    exact ⟨error, rfl⟩
  | ok v s' =>
    -- the copy would have been made of the arrays and offsets that lie outside
    cases Expr.evaluates_of_eval heval with
    | @arrayCopy _ _ _ _ _ _ a' d' m' n' given _ ha' hd' hm' hn' _ hcopy =>
      obtain rfl : a = a' := by simpa [ha] using (Env.array_eq_ok.mp ha').1
      obtain rfl : d = d' := by simpa [hd] using (Env.array_eq_ok.mp hd').1
      obtain rfl : m = m' := Except.ok.inj (hm.symm.trans hm')
      obtain rfl : n = n' := Except.ok.inj (hn.symm.trans hn')
      obtain ⟨fault, hfault⟩ := ArrayRef.copyTo_of_outside _ hout given
      rw [hfault] at hcopy
      cases hcopy

end Erased

/-! ## Plans -/

namespace Erasure

/-- Two expressions have the same effect, or both fail in the state as it is if an offset lies
outside its array. -/
def SameEffect (env : Env) (s : Store) (outside : Prop) (x x' : Erased.Expr) : Prop :=
  (¬ outside → x.eval env s = x'.eval env s) ∧
    (outside → (∃ error, x.eval env s = .error error s) ∧ ∃ error, x'.eval env s = .error error s)

/-- Plans that place expressions of the same effect in the same way. -/
inductive SamePlan (env : Env) (s : Store) (outside : Prop) : Plan → Plan → Prop
  | bind {t : Erased.Ty} {x x' : Erased.Expr} (h : SameEffect env s outside x x') :
    SamePlan env s outside (.bind t x) (.bind t x')
  | adaptFresh {k : Kind} {x x' : Erased.Expr} (h : SameEffect env s outside x x') :
    SamePlan env s outside (.adaptFresh k x) (.adaptFresh k x')

namespace Places

open Signature (Fills)

variable {policy : AdapterPolicy} {p : Bridge.Program} {placed : Placement} {env : Env} {s : Store}
  {k : Kind} {expr : Bridge.Expr}

/-- A local has the value that what stands for it has. -/
theorem hasValue_iff (hplaced : Places policy p placed) {l e : Local} {t : Ty} {v : Value}
    (hl : placed.scope.Binds l t e) : p.HasValue policy env l v ↔ env[e]? = some v := by
  have herase := hplaced.erase_of_binds hl
  constructor
  · rintro ⟨e', he', hv⟩
    obtain rfl := Except.ok.inj (herase.symm.trans he')
    exact hv
  · exact fun hv => ⟨_, herase, hv⟩

/-- An offset reads the value that it is given, or zero. -/
theorem offsetIs_iff (hplaced : Places policy p placed) {l : Option Local} {o : Erased.Operand}
    {n : Int64} (ho : placed.scope.offset k l = .ok o) :
    p.OffsetIs policy env l n ↔ env.offset o = .ok n := by
  cases Scope.offset_of_offset ho with
  | omitted => simp [Bridge.Program.OffsetIs, Env.offset, eq_comm]
  | given h => exact (hplaced.hasValue_iff h).trans Env.integer_eq_ok.symm

/-- The arrays and the offsets of a copy are those of the erased operands. -/
theorem copies_iff (hplaced : Places policy p placed) {source destination a d : Local} {t u : Ty}
    {sourceOffset destinationOffset : Option Local} (length : Option Local) {o q : Erased.Operand}
    {ra rd : ArrayRef} {m n : Int64} (ha : placed.scope.Binds source t a)
    (ho : placed.scope.offset k sourceOffset = .ok o) (hd : placed.scope.Binds destination u d)
    (hq : placed.scope.offset k destinationOffset = .ok q) :
    p.Copies policy env
        (.call k (.copyTo source destination sourceOffset destinationOffset length)) ra m rd n ↔
      env[a]? = some (.array ra) ∧ env.offset o = .ok m ∧ env[d]? = some (.array rd) ∧
        env.offset q = .ok n := by
  rw [← hplaced.hasValue_iff ha, ← hplaced.hasValue_iff hd, ← hplaced.offsetIs_iff ho,
    ← hplaced.offsetIs_iff hq]
  constructor
  · rintro ⟨hra, hm, hrd, hn⟩
    exact ⟨hra, hm, hrd, hn⟩
  · rintro ⟨hra, hm, hrd, hn⟩
    exact .copyTo hra hm hrd hn

/-- A zero element may be left out of a constructor. -/
theorem agree_constructArray (hplaced : Places policy p placed) (size : Local)
    {element element' : Option Local}
    (h : Fills (p.Prescribes policy env s k expr) ⟨"element", .element, some .elementDefault⟩
      element element') :
    Check.Agree (fun array array' => array.eval env = array'.eval env)
      (placed.scope.constructArray k size element)
      (placed.scope.constructArray k size element') := by
  cases h with
  | supplied l =>
    cases placed.scope.constructArray k size (some l) with
    | error fault => exact .error fault
    | ok array => exact .ok rfl
  | omitted hrule hl =>
    cases hrule
    obtain ⟨hdeclared, v, hvalue, hkind, hzero⟩ := hl
    obtain ⟨e, he⟩ := hplaced.exists_binds hdeclared
    obtain ⟨b, hb, -⟩ := id he
    have hv := (hplaced.hasValue_iff he).mp hvalue
    refine .bind (.self _) fun n n' hn => ?_
    obtain rfl : n' = n := hn.2
    have hfill : (Erased.Expr.newArray k n').eval env = (Erased.Expr.fillArray k n' e).eval env :=
      (Erased.eval_fillArray_of_zero hv hkind hzero).symm
    dsimp only
    rw [Scope.expect_eq_ok.mpr he, Check.ok_bind, Scope.bound_eq_ok.mpr hb, Check.ok_bind]
    -- the element may be a literal, which need not be the value it has in this state
    split
    · split
      · exact .ok rfl
      · exact .ok hfill
    · exact .ok hfill

/-- The offset that a copy is given, or the constant zero. -/
theorem agree_offset (hplaced : Places policy p placed) {name : String}
    {slot slot' : Option Local}
    (h : Fills (p.Prescribes policy env s k expr) ⟨name, .integer, some .zero⟩ slot slot') :
    Check.Agree (fun o o' => placed.scope.offset k slot = .ok o ∧ env.offset o' = env.offset o)
      (placed.scope.offset k slot) (placed.scope.offset k slot') := by
  cases h with
  | supplied l =>
    cases ho : placed.scope.offset k (some l) with
    | error fault => exact .error fault
    | ok o => exact .ok ⟨rfl, rfl⟩
  | omitted hrule hl =>
    cases hrule
    obtain ⟨hdeclared, hvalue⟩ := hl
    obtain ⟨e, he⟩ := hplaced.exists_binds hdeclared
    have hv := (hplaced.hasValue_iff he).mp hvalue
    rw [Scope.offset_eq_ok.mpr (.given he)]
    exact .ok ⟨rfl, Env.integer_eq_ok.mpr hv⟩

/-- The length that a copy is given, or the local that holds what remains. -/
theorem agree_copyLength (hplaced : Places policy p placed) {slot slot' : Option Local}
    (h : Fills (p.Prescribes policy env s k expr) ⟨"length", .integer, some .remainingLength⟩
      slot slot') :
    Check.Agree
      (fun n n' => n' = n ∨ env.copyLength n = .ok none ∧
        ∃ c : Int64, env.copyLength n' = .ok (some c) ∧
          ∀ a m d i, p.Copies policy env expr a m d i → OffsetsFit s a m d i →
            c.toInt = min (s.length a - m.toInt) (s.length d - i.toInt))
      (placed.scope.copyLength k slot) (placed.scope.copyLength k slot') := by
  cases h with
  | supplied l =>
    cases placed.scope.copyLength k (some l) with
    | error fault => exact .error fault
    | ok n => exact .ok (.inl rfl)
  | omitted hrule hl =>
    cases hrule
    -- the local that is given instead holds what would remain
    obtain ⟨hdeclared, c, hvalue, hc⟩ := hl
    obtain ⟨e, he⟩ := hplaced.exists_binds hdeclared
    have hv := Env.integer_eq_ok.mpr ((hplaced.hasValue_iff he).mp hvalue)
    rw [Scope.copyLength_eq_ok.mpr (.given he)]
    refine .ok (.inr ⟨rfl, c, ?_, hc⟩)
    rw [Env.copyLength, Env.offset, hv]
    rfl

/-- Copies whose operands agree are planned alike. Lengths need not be the same: what remains is one
number wherever both offsets lie in their arrays. -/
theorem agree_planCopyTo (hplaced : Places policy p placed) (type : Ty)
    {source destination : Local} {so so' dof dof' length length' : Option Local}
    (hexpr : expr = .call k (.copyTo source destination so dof length))
    (hso : Fills (p.Prescribes policy env s k expr)
      ⟨"sourcePosition", .integer, some .zero⟩ so so')
    (hdof : Fills (p.Prescribes policy env s k expr)
      ⟨"destinationPosition", .integer, some .zero⟩ dof dof')
    (hlength : Fills (p.Prescribes policy env s k expr)
      ⟨"length", .integer, some .remainingLength⟩ length length') :
    Check.Agree (SamePlan env s (p.OffsetOutside policy env s expr))
      (placed.scope.plan type expr)
      (placed.scope.plan type (.call k (.copyTo source destination so' dof' length'))) := by
  subst hexpr
  refine .bind (.self _) fun _ _ _ => .bind (hplaced.agree_copyLength hlength) fun n n' hn =>
    .bind (.self _) fun a a' ha => .bind (hplaced.agree_offset hso) fun o o' ho =>
      .bind (.self _) fun d d' hd => .bind (hplaced.agree_offset hdof) fun q q' hq => .ok ?_
  -- the arrays are read alike, and so are the offsets, whether they are given or not
  obtain ⟨ha, rfl⟩ := ha
  obtain ⟨hd, rfl⟩ := hd
  obtain ⟨ho, ho'⟩ := ho
  obtain ⟨hq, hq'⟩ := hq
  rw [Scope.expect_eq_ok] at ha hd
  have hoffsets : (Erased.Expr.arrayCopy k a' o' d' q' n').eval env =
      (Erased.Expr.arrayCopy k a' o d' q n').eval env := by
    simp only [Erased.Expr.eval, ho', hq']
  refine .bind ⟨fun hinside => ?_, fun hout => ?_⟩
  · rw [hoffsets]
    rcases hn with rfl | ⟨hnone, c, hsome, hc⟩
    · rfl
    · -- the length is left out, so it is what remains of the arrays that are read
      refine Erased.eval_arrayCopy_of_remaining hnone hsome fun ra m rd i hra hm hrd hi => ?_
      have hcopies := (hplaced.copies_iff length ha ho hd hq).mpr
        ⟨(Env.array_eq_ok.mp hra).1, hm, (Env.array_eq_ok.mp hrd).1, hi⟩
      have hfit : OffsetsFit s ra m rd i := by
        by_contra hfit
        exact hinside ⟨ra, m, rd, i, hcopies, hfit⟩
      exact ⟨hfit, hc ra m rd i hcopies hfit⟩
  · obtain ⟨ra, m, rd, i, hcopies, hout⟩ := hout
    obtain ⟨hra, hm, hrd, hi⟩ := (hplaced.copies_iff length ha ho hd hq).mp hcopies
    rw [hoffsets]
    exact ⟨Erased.eval_arrayCopy_of_outside hra hm hrd hi hout,
      Erased.eval_arrayCopy_of_outside hra hm hrd hi hout⟩

/-- Constructions whose elements agree are planned alike. -/
theorem agree_planConstruct (hplaced : Places policy p placed) (type : Ty) {size : Local}
    {element element' : Option Local} (hexpr : expr = .call k (.construct size element))
    (h : Fills (p.Prescribes policy env s k expr) ⟨"element", .element, some .elementDefault⟩
      element element') :
    Check.Agree (SamePlan env s (p.OffsetOutside policy env s expr))
      (placed.scope.plan type expr)
      (placed.scope.plan type (.call k (.construct size element'))) := by
  -- only copies have offsets
  have hinside : ¬ p.OffsetOutside policy env s expr := by
    rintro ⟨a, m, d, n, hcopies, -⟩
    rw [hexpr] at hcopies
    cases hcopies
  have hsame {x x' : Erased.Expr} (heval : x.eval env = x'.eval env) :
      SameEffect env s (p.OffsetOutside policy env s expr) x x' :=
    ⟨fun _ => congrFun heval s, fun hout => absurd hout hinside⟩
  have harray := hplaced.agree_constructArray size h
  subst hexpr
  refine .bind (.self _) fun _ _ _ => .bind harray fun array array' heval => ?_
  cases type with
  | object d => exact .ok (.adaptFresh (hsame heval))
  | _ => exact .ok (.bind (hsame heval))

/-- A literal element is left out of a constructor exactly if no bit of it is set. -/
theorem erase_literal_iff (hplaced : Places policy p placed) {size l : Local} {v : Prim}
    (hsize : Declares p.bindings size .integer)
    (hl : p.bindings[l]? = some ⟨.prim k, .primLit v⟩) :
    (p.concat ⟨.wrapper k, .call k (.construct size (some l))⟩).erase policy =
      (p.concat ⟨.wrapper k, .call k (.construct size none)⟩).erase policy ↔ v.toSlot = 0 := by
  obtain ⟨n, hn⟩ := hplaced.exists_binds hsize
  rw [← hplaced.scope, List.getElem?_map] at hl
  obtain ⟨b, hb, hbinding⟩ := Option.map_eq_some_iff.mp hl
  have he : placed.scope.Binds l (.prim k) b.erased := ⟨b, hb, by rw [hbinding], rfl⟩
  have hbare : placed.scope.constructArray k size none = .ok (.newArray k n) := by
    rw [Scope.constructArray, Scope.expect_eq_ok.mpr hn]
    rfl
  have hfilled : placed.scope.constructArray k size (some l) =
      .ok (if v.isZero then .newArray k n else .fillArray k n b.erased) := by
    simp only [Scope.constructArray, Scope.expect_eq_ok.mpr hn, Scope.expect_eq_ok.mpr he,
      Scope.bound_eq_ok.mpr hb, Check.ok_bind, hbinding]
    rfl
  rw [hplaced.erase_concat _ (Scope.plan_construct hfilled).1,
    hplaced.erase_concat _ (Scope.plan_construct hbare).1, ← Prim.isZero_iff]
  cases v.isZero <;> simp [Placement.place, Placement.code, Placement.emit]

/-! ## Calls at the end of a program -/

/-- A binding at the end of a program is planned, and the code of its plan is evaluated. -/
theorem evalNext_eq (hplaced : Places policy p placed) {e : Erased.Program}
    (haccepted : p.erase policy = .ok e) (b : Bridge.Binding) :
    p.evalNext policy env s b =
      match placed.scope.plan b.type b.expr with
      | .error fault => .error ⟨p.bindings.length, fault⟩
      | .ok plan => .ok (placed.evalPlan policy plan env s) := by
  have hbefore : e.bindings = placed.bindings := by
    simp only [Bridge.Program.erase, hplaced.eraseAll, Check.ok_bind] at haccepted
    split at haccepted
    · obtain rfl := Except.ok.inj haccepted
      rfl
    · cases haccepted
  rw [Bridge.Program.evalNext, haccepted, Check.ok_bind]
  cases hplan : placed.scope.plan b.type b.expr with
  | error fault =>
    rw [hplaced.erase_concat_eq_error b hplan]
    rfl
  | ok plan =>
    rw [hplaced.erase_concat b hplan, Check.ok_bind, hbefore]
    rfl

/-- Plans of the same effect are evaluated alike, or both fail in the state as it is. -/
theorem evalPlan_of_samePlan (hplaced : Places policy p placed) {outside : Prop} {plan plan' : Plan}
    (h : SamePlan env s outside plan plan') :
    (¬ outside → placed.evalPlan policy plan env s = placed.evalPlan policy plan' env s) ∧
      (outside → (∃ error, placed.evalPlan policy plan env s = .error error s) ∧
        ∃ error, placed.evalPlan policy plan' env s = .error error s) := by
  -- either way one expression comes first, and what follows it is the same
  obtain ⟨t, x, x', tail, l, hsame, hplan, hplan'⟩ : ∃ t x x' tail l,
      SameEffect env s outside x x' ∧
      placed.evalPlan policy plan env = evalCode env (⟨t, x⟩ :: tail) l ∧
      placed.evalPlan policy plan' env = evalCode env (⟨t, x'⟩ :: tail) l := by
    cases h with
    | @bind t x x' h =>
      have hcode (y : Erased.Expr) : placed.evalPlan policy (.bind t y) env =
          evalCode env [⟨t, y⟩] placed.bindings.length := by
        show evalCode env (List.drop _ (placed.bindings ++ [⟨t, y⟩])) _ = _
        rw [List.drop_left]
      exact ⟨t, x, x', [], placed.bindings.length, h, hcode x, hcode x'⟩
    | @adaptFresh k x x' h =>
      have hcode (y : Erased.Expr) : placed.evalPlan policy (.adaptFresh k y) env =
          evalCode env [⟨.array k, y⟩, adapterBinding k placed.bindings.length]
            (placed.bindings.length + 1) := by
        rw [Placement.evalPlan, Placement.code_adaptFresh policy hplaced.adapters]
        dsimp only
        rw [List.drop_left]
      exact ⟨.array k, x, x', [adapterBinding k placed.bindings.length],
        placed.bindings.length + 1, h, hcode x, hcode x'⟩
  rw [hplan, hplan']
  constructor
  · intro hinside
    exact Action.bind_congr _ (Action.bind_congr _ (hsame.1 hinside))
  · intro hout
    obtain ⟨⟨error, herror⟩, ⟨error', herror'⟩⟩ := hsame.2 hout
    exact ⟨⟨error, Action.bind_of_error (Action.bind_of_error herror)⟩,
      ⟨error', Action.bind_of_error (Action.bind_of_error herror')⟩⟩

end Places

end Erasure

namespace Bridge.Program

variable {policy : AdapterPolicy} {p : Program} {e : Erased.Program} {op : Operation} {k : Kind}
  {receiver : Option Local} {args args' : List (Argument Local)} {expr expr' : Expr} {env : Env}
  {s : Store}

/-- A call without defaults is completed by itself only. The other two are planned alike. -/
theorem agree_plan_of_completes {placed : Erasure.Placement}
    (hplaced : Erasure.Places policy p placed) (hbuild : op.build k receiver args = .ok expr)
    (hbuild' : op.build k receiver args' = .ok expr')
    (hcompletes : op.signature.Completes (p.Prescribes policy env s k expr) args args')
    (type : Ty) :
    expr' = expr ∧ ¬ p.OffsetOutside policy env s expr ∨
      Check.Agree (Erasure.SamePlan env s (p.OffsetOutside policy env s expr))
        (placed.scope.plan type expr) (placed.scope.plan type expr') := by
  obtain ⟨slots, hslots, hbuilds⟩ := op.exists_slots_of_build hbuild
  obtain ⟨slots', hslots', hbuilds'⟩ := op.exists_slots_of_build hbuild'
  cases hbuilds with
  | construct =>
    cases hbuilds' with
    | construct =>
      -- the size has no default, so it is given in both
      have hsize := hcompletes.fills hslots hslots' 0 rfl rfl rfl
      have helement := hcompletes.fills hslots hslots' 1 rfl rfl rfl
      obtain rfl := Option.some.inj (hsize.eq_of_default_eq_none rfl)
      exact .inr (hplaced.agree_planConstruct type rfl helement)
  | copyTo =>
    cases hbuilds' with
    | copyTo =>
      have hdestination := hcompletes.fills hslots hslots' 0 rfl rfl rfl
      have hso := hcompletes.fills hslots hslots' 1 rfl rfl rfl
      have hdof := hcompletes.fills hslots hslots' 2 rfl rfl rfl
      have hlength := hcompletes.fills hslots hslots' 3 rfl rfl rfl
      obtain rfl := Option.some.inj (hdestination.eq_of_default_eq_none rfl)
      exact .inr (hplaced.agree_planCopyTo type rfl hso hdof hlength)
  | get | set | length | toGenericView | fromGenericView | reifiedType =>
    -- nothing can be left out
    have hsame := hcompletes.slots_eq hslots hslots' (by simp [Operation.signature])
    cases hbuilds'
    cases hsame
    refine .inl ⟨rfl, ?_⟩
    rintro ⟨a, m, d, n, hcopies, -⟩
    cases hcopies

/-- A call with omitted arguments does what the call does in which they are supplied as the contract
prescribes: both are refused alike, or have the same effect and give the same value, in every state
of the code before them. If an offset of a copy lies outside its array, both fail and change
nothing. A literal element is only taken for the default if no bit of it is set. -/
theorem sameEffect_of_completes (haccepted : p.erase policy = .ok e)
    (hbuild : op.build k receiver args = .ok expr) (hbuild' : op.build k receiver args' = .ok expr')
    (hcompletes : op.signature.Completes (p.Prescribes policy env s k expr) args args')
    (type : Ty) :
    (¬ p.OffsetOutside policy env s expr →
      p.evalNext policy env s ⟨type, expr⟩ = p.evalNext policy env s ⟨type, expr'⟩) ∧
    (p.OffsetOutside policy env s expr →
      (∃ error, p.evalNext policy env s ⟨type, expr⟩ = .error error ∧
        p.evalNext policy env s ⟨type, expr'⟩ = .error error) ∨
      ∃ fault fault', p.evalNext policy env s ⟨type, expr⟩ = .ok (.error fault s) ∧
        p.evalNext policy env s ⟨type, expr'⟩ = .ok (.error fault' s)) ∧
    ∀ size l v, Declares p.bindings size .integer → p.bindings[l]? = some ⟨.prim k, .primLit v⟩ →
      ((p.concat ⟨.wrapper k, .call k (.construct size (some l))⟩).erase policy =
        (p.concat ⟨.wrapper k, .call k (.construct size none)⟩).erase policy ↔ v.toSlot = 0) := by
  obtain ⟨placed, hplaced⟩ := Erasure.exists_places haccepted policy
  have hplans := agree_plan_of_completes hplaced hbuild hbuild' hcompletes type
  -- what a binding does next is what its plan does, so two plans are compared
  rw [hplaced.evalNext_eq haccepted, hplaced.evalNext_eq haccepted, ← and_assoc]
  refine ⟨?_, fun size l v hsize hl => hplaced.erase_literal_iff hsize hl⟩
  rcases hplans with ⟨rfl, hinside⟩ | hagree
  · exact ⟨fun _ => rfl, fun hout => absurd hout hinside⟩
  · dsimp only
    generalize placed.scope.plan type expr = plan at hagree
    generalize placed.scope.plan type expr' = plan' at hagree
    cases hagree with
    | error fault => exact ⟨fun _ => rfl, fun _ => .inl ⟨_, rfl, rfl⟩⟩
    | ok h =>
      obtain ⟨hsame, hfail⟩ := hplaced.evalPlan_of_samePlan h
      refine ⟨fun hinside => congrArg Except.ok (hsame hinside), fun hout => .inr ?_⟩
      obtain ⟨⟨error, herror⟩, ⟨error', herror'⟩⟩ := hfail hout
      exact ⟨error, error', congrArg Except.ok herror, congrArg Except.ok herror'⟩

/-- A copy of two words into another array, with nothing but the destination given, and with the
offsets and the length given as well. -/
theorem sameEffect_of_completes_copy :
    ∃ (p : Program) (expr expr' : Expr) (env : Env) (s s' : Store),
      Operation.copyTo.build .int (some 1) [.positional 2] = .ok expr ∧
        Operation.copyTo.build .int (some 1)
          [.positional 2, .named "length" 0, .named "sourcePosition" 3,
            .named "destinationPosition" 3] = .ok expr' ∧
        s.arrays = #[#[5, 6], #[0, 0]] ∧ s'.arrays = #[#[5, 6], #[5, 6]] ∧
        p.evalNext .shared env s ⟨.unit, expr⟩ = .ok (.ok .unit s') ∧
        p.evalNext .shared env s ⟨.unit, expr'⟩ = .ok (.ok .unit s') := by
  let p : Program := ⟨[⟨.integer, .intLit 2⟩, ⟨.wrapper .int, .call .int (.construct 0 none)⟩,
    ⟨.wrapper .int, .call .int (.construct 0 none)⟩, ⟨.integer, .intLit 0⟩], 1⟩
  let code : List Erased.Binding := [⟨.integer, .intLit 2⟩, ⟨.array .int, .newArray .int 0⟩,
    ⟨.array .int, .newArray .int 0⟩, ⟨.integer, .intLit 0⟩]
  let args : List (Argument Local) := [.positional 2]
  let args' : List (Argument Local) := [.positional 2, .named "length" 0, .named "sourcePosition" 3,
    .named "destinationPosition" 3]
  let expr : Expr := .call .int (.copyTo 1 2 none none none)
  let expr' : Expr := .call .int (.copyTo 1 2 (some 3) (some 3) (some 0))
  let env : Env := [.integer 2, .array ⟨.int, 0⟩, .array ⟨.int, 1⟩, .integer 0]
  let s : Store := ⟨#[#[5, 6], #[0, 0]], #[]⟩
  let s' : Store := ⟨#[#[5, 6], #[5, 6]], #[]⟩
  have hbuild : Operation.copyTo.build .int (some 1) args = .ok expr := rfl
  have hbuild' : Operation.copyTo.build .int (some 1) args' = .ok expr' := rfl
  have hslots : Operation.copyTo.signature.resolve args = .ok [some 2, none, none, none] := rfl
  have hslots' : Operation.copyTo.signature.resolve args' =
      .ok [some 2, some 3, some 3, some 0] := rfl
  have herase {l : Nat} (hl : l < 4) : erase .shared ⟨p.bindings, l⟩ = .ok ⟨code, l⟩ := by
    interval_cases l <;> rfl
  have hvalue {l : Nat} {v : Value} (hl : l < 4) :
      p.HasValue .shared env l v ↔ env[l]? = some v := by
    constructor
    · rintro ⟨e, he, hv⟩
      obtain rfl := Except.ok.inj ((herase hl).symm.trans he)
      exact hv
    · exact fun hv => ⟨_, herase hl, hv⟩
  -- the arrays of the copy are the two of this state, and its offsets are zero
  have hcopies {a d : ArrayRef} {m n : Int64} (h : p.Copies .shared env expr a m d n) :
      a = ⟨.int, 0⟩ ∧ m = 0 ∧ d = ⟨.int, 1⟩ ∧ n = 0 := by
    unfold expr at h
    cases h with
    | copyTo ha hm hd hn =>
      have ha' := (hvalue (by decide)).mp ha
      have hd' := (hvalue (by decide)).mp hd
      simp only [env] at ha' hd'
      exact ⟨by simpa using ha'.symm, hm, by simpa using hd'.symm, hn⟩
  have hinside : ¬ p.OffsetOutside .shared env s expr := by
    rintro ⟨a, m, d, n, hcopy, hout⟩
    obtain ⟨rfl, rfl, rfl, rfl⟩ := hcopies hcopy
    exact hout ⟨by decide, by decide⟩
  have hzero : p.Prescribes .shared env s .int expr .zero 3 :=
    ⟨⟨_, rfl, rfl⟩, (hvalue (by decide)).mpr rfl⟩
  have hremaining : p.Prescribes .shared env s .int expr .remainingLength 0 := by
    refine ⟨⟨_, rfl, rfl⟩, 2, (hvalue (by decide)).mpr rfl, fun a m d n hcopy _ => ?_⟩
    obtain ⟨rfl, rfl, rfl, rfl⟩ := hcopies hcopy
    decide
  have hcompletes : Operation.copyTo.signature.Completes
      (p.Prescribes .shared env s .int expr) args args' := by
    refine Signature.completes_of_fills hslots hslots' fun index param slot slot' hp hs hs' => ?_
    have hlt : index < 4 := (List.getElem?_eq_some_iff.mp hp).1
    interval_cases index <;> cases hp <;> cases hs <;> cases hs'
    · exact .supplied 2
    · exact .omitted rfl hzero
    · exact .omitted rfl hzero
    · exact .omitted rfl hremaining
  obtain ⟨hsame, -⟩ := sameEffect_of_completes (herase (by decide)) hbuild hbuild' hcompletes .unit
  have heval : p.evalNext .shared env s ⟨.unit, expr⟩ = .ok (.ok .unit s') := rfl
  exact ⟨p, expr, expr', env, s, s', hbuild, hbuild', rfl, rfl, heval,
    (hsame hinside).symm.trans heval⟩

end Bridge.Program

end ArrayBridge
