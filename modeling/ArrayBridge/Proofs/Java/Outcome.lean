import ArrayBridge.Proofs.Erasure.Scoping
import ArrayBridge.Proofs.Java.Lookups

/-!
# When a program has a Java method

A program has no method if it reads a local too early, if it returns a local that is not bound, or
if it has a character that no Java character is. The three are looked for one after the other, each
over the bindings in order, and the first find is reported. A binding that always throws hides the
characters behind it, but no reads.

Main results:

* `unbound?_eq_some_iff` — what the check of scopes finds is the first read of its kind.
* `bodyStmts_eq_error_iff` — what stops the emission of a body is the first character of its kind.
* `Program.emissionDetermined` — how the emission of a method ends, for every program.
-/

namespace ArrayBridge

/-! ## First items of a list -/

section

variable {α : Type} {P : α → Prop} {x y : α} {xs : List α}

/-- Whether an item of a list is the first without a property. -/
def FirstWithout (P : α → Prop) (xs : List α) (x : α) : Prop :=
  ∃ before after, xs = before ++ x :: after ∧ (∀ y ∈ before, P y) ∧ ¬ P x

@[simp] theorem not_firstWithout_nil : ¬ FirstWithout P [] x := by
  rintro ⟨before, after, h, -⟩
  cases before <;> cases h

/-- The first item without a property is the first item of all, or is found behind it. -/
theorem firstWithout_cons :
    FirstWithout P (y :: xs) x ↔ ¬ P y ∧ x = y ∨ P y ∧ FirstWithout P xs x := by
  constructor
  · rintro ⟨before, after, h, hbefore, hx⟩
    cases before with
    | nil =>
      obtain ⟨rfl, rfl⟩ := List.cons.inj h
      exact .inl ⟨hx, rfl⟩
    | cons z before =>
      obtain ⟨rfl, rfl⟩ := List.cons.inj h
      obtain ⟨hz, hbefore⟩ := List.forall_mem_cons.mp hbefore
      exact .inr ⟨hz, before, after, rfl, hbefore, hx⟩
  · rintro (⟨hy, rfl⟩ | ⟨hy, before, after, rfl, hbefore, hx⟩)
    · exact ⟨[], xs, rfl, by simp, hy⟩
    · exact ⟨y :: before, after, rfl, List.forall_mem_cons.mpr ⟨hy, hbefore⟩, hx⟩

theorem firstWithout_cons_of (h : P y) : FirstWithout P (y :: xs) x ↔ FirstWithout P xs x := by
  simp [firstWithout_cons, h]

theorem firstWithout_cons_of_not (h : ¬ P y) : FirstWithout P (y :: xs) x ↔ x = y := by
  simp [firstWithout_cons, h]

/-- A list in which not every item has the property has a first item without it. -/
theorem exists_firstWithout : (∃ x, FirstWithout P xs x) ↔ ¬ ∀ x ∈ xs, P x := by
  induction xs with
  | nil => simp
  | cons y xs ih =>
    by_cases hy : P y
    · simp [firstWithout_cons_of hy, hy, ih]
    · simp [firstWithout_cons_of_not hy, hy]

/-- The same of two levels: of a first item whose parts do not all have a property, one is the first
without it. -/
theorem exists_firstWithout_part {β : Type} (xs : List α) (parts : α → List β) (Q : α → β → Prop) :
    (∃ x y, FirstWithout (fun x => ∀ y ∈ parts x, Q x y) xs x ∧ FirstWithout (Q x) (parts x) y) ↔
      ¬ ∀ x ∈ xs, ∀ y ∈ parts x, Q x y := by
  rw [← exists_firstWithout]
  constructor
  · rintro ⟨x, _, hx, -⟩
    exact ⟨x, hx⟩
  · rintro ⟨x, hx⟩
    have hnot : ¬ ∀ y ∈ parts x, Q x y := hx.choose_spec.choose_spec.2.2
    obtain ⟨y, hy⟩ := exists_firstWithout.mpr hnot
    exact ⟨x, y, hx, hy⟩

/-- A search finds the first item that it does not pass over. -/
theorem find?_eq_some_iff_firstWithout {q : α → Bool} (hq : ∀ y, q y = true ↔ ¬ P y) :
    xs.find? q = some x ↔ FirstWithout P xs x := by
  simp only [List.find?_eq_some_iff_append, FirstWithout, hq, Bool.not_eq_true', ← Bool.not_eq_true,
    not_not]
  tauto

end

/-! ## Characters -/

/-- Whether a character is one UTF-16 unit, as those of Java are. -/
def FitsUnit (c : Char) : Prop := c.toNat ≤ 0xFFFF

/-- The character of a boxed element. -/
def Boxed.character? : Boxed → Option Char
  | character c => some c
  | _ => none

/-- The characters that an expression mentions, in order. -/
def Erased.Expr.characters : Erased.Expr → List Char
  | primLit (.char c) => [c]
  | sequenceLit _ items => items.filterMap Boxed.character?
  | _ => []

end ArrayBridge

namespace ArrayBridge.Erased

/-- The bindings before the first that reaches a wrapper member. -/
def beforeInvocation (bs : List Binding) : List Binding :=
  bs.takeWhile fun b => !(b.expr matches .invokeWrapper ..)

/-- Whether a binding at a place reads only locals that are bound strictly before it. -/
def ReadsEarlier (b : Binding × Local) : Prop := ∀ l ∈ b.1.expr.usedLocals, l < b.2

/-- Whether a binding mentions only characters that are ones of Java's. -/
def CharactersFit (b : Binding × Local) : Prop := ∀ c ∈ b.1.expr.characters, FitsUnit c

namespace Program

/-- Whether every binding reads only locals that are bound strictly before it. -/
def ReadsInOrder (p : Program) : Prop := ∀ b ∈ p.bindings.zipIdx, ReadsEarlier b

/-- Whether a binding is the first to read a local that is not bound strictly before it, and the
local is the first such among its operands. -/
def FirstUnbound (p : Program) (binding source : Local) : Prop :=
  ∃ b, FirstWithout ReadsEarlier p.bindings.zipIdx (b, binding) ∧
    FirstWithout (· < binding) b.expr.usedLocals source

/-- Whether a binding before the first that reaches a wrapper member is the first to mention a
character that is none of Java's, and the character is the first such that it mentions. -/
def FirstSupplementary (p : Program) (binding : Local) (value : Char) : Prop :=
  ∃ b, FirstWithout CharactersFit (beforeInvocation p.bindings).zipIdx (b, binding) ∧
    FirstWithout FitsUnit b.expr.characters value

end Program

end ArrayBridge.Erased

namespace ArrayBridge.Java

open ArrayBridge.Erased (Binding CharactersFit Program ReadsEarlier beforeInvocation)

/-! ## Reads that come too early -/

/-- What the check of scopes finds is the first read of its kind, by induction on the bindings. -/
theorem unbound?_eq_some_iff {l binding source : Local} {bs : List Binding} :
    unbound? l bs = some (binding, source) ↔
      ∃ b, FirstWithout ReadsEarlier (bs.zipIdx l) (b, binding) ∧
        FirstWithout (· < binding) b.expr.usedLocals source := by
  induction bs generalizing l with
  | nil => simp [unbound?]
  | cons b bs ih =>
    have hfind (source : Local) : b.expr.usedLocals.find? (l ≤ ·) = some source ↔
        FirstWithout (· < l) b.expr.usedLocals source :=
      find?_eq_some_iff_firstWithout fun m => by simp
    rw [List.zipIdx_cons, unbound?]
    cases hfound : b.expr.usedLocals.find? (l ≤ ·) with
    | some found =>
      -- the first binding reads a local that is not bound before
      have hnot : ¬ ReadsEarlier (b, l) :=
        exists_firstWithout.mp ⟨found, (hfind found).mp hfound⟩
      simp only [firstWithout_cons_of_not hnot, Option.some.injEq, Prod.mk.injEq]
      constructor
      · rintro ⟨rfl, rfl⟩
        exact ⟨b, ⟨rfl, rfl⟩, (hfind found).mp hfound⟩
      · rintro ⟨_, ⟨rfl, rfl⟩, hsource⟩
        exact ⟨rfl, Option.some.inj (hfound.symm.trans ((hfind source).mpr hsource))⟩
    | none =>
      have hreads : ReadsEarlier (b, l) := by
        simpa [ReadsEarlier] using List.find?_eq_none.mp hfound
      simp only [firstWithout_cons_of hreads, ih]

/-- There is a first operand that is not bound exactly if some operand is not. -/
theorem exists_firstUnbound_iff {p : Program} :
    (∃ binding source, p.FirstUnbound binding source) ↔ ¬ p.ReadsInOrder := by
  refine Iff.trans ?_ (exists_firstWithout_part p.bindings.zipIdx
    (fun b => b.1.expr.usedLocals) (fun b l => l < b.2))
  exact ⟨fun ⟨binding, source, b, hb, hsource⟩ => ⟨(b, binding), source, hb, hsource⟩,
    fun ⟨(b, binding), source, hb, hsource⟩ => ⟨binding, source, b, hb, hsource⟩⟩

theorem unbound?_eq_none_iff {p : Program} : unbound? 0 p.bindings = none ↔ p.ReadsInOrder := by
  rw [← not_not (a := p.ReadsInOrder), ← exists_firstUnbound_iff, Option.eq_none_iff_forall_ne_some]
  simp only [Program.FirstUnbound, ← unbound?_eq_some_iff, ne_eq, Prod.forall, not_exists]

/-- Scoping fails with the first operand that is not bound, and else with the result. -/
theorem checkScoping_eq_error_iff {p : Program} {error : EmitError} :
    checkScoping p = .error error ↔
      (∃ binding source, p.FirstUnbound binding source ∧ error = .unboundLocal binding source) ∨
      p.ReadsInOrder ∧ p.bindings.length ≤ p.result ∧ error = .unboundReturn p.result := by
  rw [checkScoping, ← unbound?_eq_none_iff]
  simp only [Program.FirstUnbound, ← unbound?_eq_some_iff]
  -- the result is looked at only if all reads are in order
  cases unbound? 0 p.bindings with
  | some found =>
    obtain ⟨binding, source⟩ := found
    simp [eq_comm]
  | none =>
    cases hb : p.bindings[p.result]? with
    | some b =>
      have hlt : p.result < p.bindings.length := (List.getElem?_eq_some_iff.mp hb).1
      simp [Nat.not_le.mpr hlt]
    | none =>
      have hle : p.bindings.length ≤ p.result := List.getElem?_eq_none_iff.mp hb
      simp [hle, eq_comm]

/-! ## Characters that are none of Java's -/

/-- A character is refused if it is not one unit. -/
theorem charExpr_eq_error_iff {l : Local} {c : Char} {error : EmitError} :
    charExpr l c = .error error ↔ ¬ FitsUnit c ∧ error = .supplementaryChar l c := by
  have hfits : FitsUnit c ↔ c.toNat < 0x10000 := Nat.lt_succ_iff.symm
  rw [charExpr, hfits]
  split <;> simp_all [eq_comm]

/-- A literal is refused for its character only. -/
theorem primExpr_eq_error_iff {l : Local} {p : Prim} {error : EmitError} :
    primExpr l p = .error error ↔
      ∃ c, FirstWithout FitsUnit (Erased.Expr.primLit p).characters c ∧
        error = .supplementaryChar l c := by
  cases p with
  | char c => simp [primExpr, charExpr_eq_error_iff, Erased.Expr.characters, firstWithout_cons]
  | _ => simp [primExpr, Erased.Expr.characters]

/-- The first character that is none of Java's stops the emission of the items of a sequence. -/
theorem mapM_boxedExpr_eq_error_iff {l : Local} {items : List Boxed} {error : EmitError} :
    items.mapM (boxedExpr l) = .error error ↔
      ∃ c, FirstWithout FitsUnit (items.filterMap Boxed.character?) c ∧
        error = .supplementaryChar l c := by
  induction items with
  | nil => simp [pure, Except.pure]
  | cons item items ih =>
    simp only [List.mapM_cons, Check.bind_eq_error, ih, List.filterMap_cons]
    -- of all items only a character can be refused
    cases item with
    | character c =>
      simp only [boxedExpr, Boxed.character?]
      cases hchar : charExpr l c with
      | error error' =>
        obtain ⟨hc, rfl⟩ := charExpr_eq_error_iff.mp hchar
        simp [firstWithout_cons_of_not hc, eq_comm]
      | ok e =>
        have hc : FitsUnit c := by
          by_contra hc
          rw [charExpr_eq_error_iff.mpr ⟨hc, rfl⟩] at hchar
          cases hchar
        simp [firstWithout_cons_of hc, pure, Except.pure]
    | _ => simp [boxedExpr, Boxed.character?, pure, Except.pure]

/-- Only a character stops the emission of a binding. -/
theorem bindingStmts_eq_error_iff {types : List Erased.Ty} {l : Local} {b : Binding}
    {error : EmitError} :
    bindingStmts types l b = .error error ↔
      ∃ c, FirstWithout FitsUnit b.expr.characters c ∧ error = .supplementaryChar l c := by
  obtain ⟨type, e⟩ := b
  -- literals are the only expressions that have characters in them
  cases e with
  | primLit p =>
    rw [← primExpr_eq_error_iff]
    cases hp : primExpr l p <;> simp [bindingStmts, hp]
  | sequenceLit element items =>
    rw [Erased.Expr.characters, ← mapM_boxedExpr_eq_error_iff]
    cases hitems : items.mapM (boxedExpr l) <;>
      simp [bindingStmts, hitems, bind, Except.bind, pure, Except.pure]
  | _ => simp [bindingStmts, Erased.Expr.characters]

/-- A binding that goes on is emitted, and so is what follows. -/
theorem beforeInvocation_cons {b : Binding} (h : diverges b = false) (bs : List Binding) :
    beforeInvocation (b :: bs) = b :: beforeInvocation bs := by
  obtain ⟨type, e⟩ := b
  cases e with
  | invokeWrapper => cases h
  | _ => rfl

/-- One that does not ends what is emitted, and is never refused itself. -/
theorem of_diverges {b : Binding} (h : diverges b = true) (types : List Erased.Ty) (l : Local) :
    (∀ bs, beforeInvocation (b :: bs) = []) ∧ ∃ stmts, bindingStmts types l b = .ok stmts := by
  obtain ⟨type, e⟩ := b
  cases e with
  | invokeWrapper => exact ⟨fun _ => rfl, _, rfl⟩
  | _ => cases h

/-- What stops the emission of a body is the first character of its kind, by induction on the
bindings. -/
theorem bodyStmts_eq_error_iff {types : List Erased.Ty} {last : List Stmt} {l : Local}
    {bs : List Binding} {error : EmitError} :
    bodyStmts types last l bs = .error error ↔
      ∃ binding c, (∃ b, FirstWithout CharactersFit ((beforeInvocation bs).zipIdx l) (b, binding) ∧
        FirstWithout FitsUnit b.expr.characters c) ∧ error = .supplementaryChar binding c := by
  induction bs generalizing l with
  | nil => simp [bodyStmts, beforeInvocation]
  | cons b bs ih =>
    cases hdiverges : diverges b with
    | true =>
      -- the body ends here, and a binding that diverges mentions no character
      obtain ⟨hbefore, stmts, hstmts⟩ := of_diverges hdiverges types l
      rw [bodyStmts, hstmts, hbefore bs, Check.ok_bind, hdiverges]
      simp [pure, Except.pure]
    | false =>
      rw [beforeInvocation_cons hdiverges, List.zipIdx_cons]
      cases hstmts : bindingStmts types l b with
      | error error' =>
        -- the first find is in this binding, and the body fails as its statements do
        obtain ⟨found, hfound, -⟩ := bindingStmts_eq_error_iff.mp hstmts
        have hnot : ¬ CharactersFit (b, l) := exists_firstWithout.mp ⟨found, hfound⟩
        have hhead : bodyStmts types last l (b :: bs) = .error error ↔
            bindingStmts types l b = .error error := by
          rw [bodyStmts, hstmts]
          rfl
        rw [hhead, bindingStmts_eq_error_iff]
        constructor
        · rintro ⟨c, hc, rfl⟩
          exact ⟨l, c, ⟨b, (firstWithout_cons_of_not hnot).mpr rfl, hc⟩, rfl⟩
        · rintro ⟨binding, c, ⟨b', hb, hc⟩, rfl⟩
          obtain ⟨rfl, rfl⟩ := Prod.mk.inj ((firstWithout_cons_of_not hnot).mp hb)
          exact ⟨c, hc, rfl⟩
      | ok stmts =>
        have hfit : CharactersFit (b, l) := by
          by_contra hnot
          obtain ⟨c, hc⟩ := exists_firstWithout.mpr hnot
          rw [bindingStmts_eq_error_iff.mpr ⟨c, hc, rfl⟩] at hstmts
          cases hstmts
        simp only [firstWithout_cons_of hfit, ← ih, bodyStmts, hstmts, Check.ok_bind, hdiverges]
        cases bodyStmts types last (l + 1) bs <;> simp [bind, Except.bind, pure, Except.pure]

/-! ## Methods -/

theorem exists_checkScoping_eq_ok_iff {p : Program} :
    (∃ type, checkScoping p = .ok type) ↔ p.ReadsInOrder ∧ p.result < p.bindings.length := by
  simp only [checkScoping_eq_ok, unbound?_eq_none_iff]
  constructor
  · rintro ⟨_, hreads, b, hb, rfl⟩
    exact ⟨hreads, (List.getElem?_eq_some_iff.mp hb).1⟩
  · rintro ⟨hreads, hresult⟩
    exact ⟨_, hreads, _, List.getElem?_eq_getElem hresult, rfl⟩

/-- A method is refused for a read or for its result, and for a character if there is no such read
and the result is bound. -/
theorem toMethod_eq_error_iff {p : Program} {error : EmitError} :
    p.toMethod = .error error ↔ checkScoping p = .error error ∨
      (p.ReadsInOrder ∧ p.result < p.bindings.length) ∧
        ∃ binding c, p.FirstSupplementary binding c ∧ error = .supplementaryChar binding c := by
  rw [Program.toMethod, Check.bind_eq_error, ← exists_checkScoping_eq_ok_iff, exists_and_right.symm]
  simp only [Check.bind_eq_error, bodyStmts_eq_error_iff, pure, Except.pure, reduceCtorEq,
    and_false, exists_false, or_false, Program.FirstSupplementary]

theorem exists_firstSupplementary_iff {p : Program} :
    (∃ binding c, p.FirstSupplementary binding c) ↔
      ¬ ∀ b ∈ (beforeInvocation p.bindings).zipIdx, CharactersFit b := by
  refine Iff.trans ?_ (exists_firstWithout_part (beforeInvocation p.bindings).zipIdx
    (fun b => b.1.expr.characters) (fun _ => FitsUnit))
  exact ⟨fun ⟨binding, c, b, hb, hc⟩ => ⟨(b, binding), c, hb, hc⟩,
    fun ⟨(b, binding), c, hb, hc⟩ => ⟨binding, c, b, hb, hc⟩⟩

/-- There is a method if there is nothing to refuse it for. -/
theorem exists_toMethod_eq_ok_iff {p : Program} :
    (∃ m, p.toMethod = .ok m) ↔ (p.ReadsInOrder ∧ p.result < p.bindings.length) ∧
      ∀ b ∈ (beforeInvocation p.bindings).zipIdx, CharactersFit b := by
  have herror : (∃ error, p.toMethod = .error error) ↔ (∃ error, checkScoping p = .error error) ∨
      (p.ReadsInOrder ∧ p.result < p.bindings.length) ∧
        ∃ binding c, p.FirstSupplementary binding c := by
    simp [toMethod_eq_error_iff, exists_or]
  rw [Check.exists_eq_error_iff, Check.exists_eq_error_iff, exists_checkScoping_eq_ok_iff,
    exists_firstSupplementary_iff] at herror
  tauto

end ArrayBridge.Java

namespace ArrayBridge.Erased.Program

open Java

/-- How the emission of the method of a program ends. -/
structure EmissionDetermined (p : Program) : Prop where
  /-- The first read of a local that is not bound strictly before it is reported before all else. -/
  unboundLocal : ∀ binding source, p.toMethod = .error (.unboundLocal binding source) ↔
    p.FirstUnbound binding source
  /-- The result is reported if it is not bound, and all reads are of bound locals. -/
  unboundReturn : ∀ l, p.toMethod = .error (.unboundReturn l) ↔
    p.ReadsInOrder ∧ p.bindings.length ≤ p.result ∧ l = p.result
  /-- A character is reported if there is nothing else to report. -/
  supplementaryChar : ∀ binding c, p.toMethod = .error (.supplementaryChar binding c) ↔
    p.ReadsInOrder ∧ p.result < p.bindings.length ∧
      p.FirstSupplementary binding c
  /-- There is a method if there is nothing at all to report. -/
  ok : (∃ m, p.toMethod = .ok m) ↔
    p.ReadsInOrder ∧ p.result < p.bindings.length ∧
      ∀ b ∈ (beforeInvocation p.bindings).zipIdx, CharactersFit b
  /-- No declared type is looked up beyond the bindings. -/
  inRange : p.toMethodChecked = p.toMethod.mapError .error
  /-- Only a character is reported of a program that comes out of erasure. -/
  ofErased : ∀ (policy : AdapterPolicy) (q : Bridge.Program), q.erase policy = .ok p →
    ∀ error, p.toMethod = .error error →
      ∃ binding c, error = .supplementaryChar binding c

/-- An erased program reads in order, whatever locals the bridge program mentions. -/
theorem readsInOrder_of_erase {policy : AdapterPolicy} {p : Bridge.Program} {e : Program}
    (h : p.erase policy = .ok e) : e.ReadsInOrder ∧ e.result < e.bindings.length := by
  have htyped := Erasure.typed_up_to_tuples_of_erase h
  refine ⟨?_, htyped.result⟩
  exact fun b hb l hl =>
    Expr.lt_of_operandsTyped htyped.operands (List.mem_zipIdx_iff_getElem?.mp hb) hl

/-- How the emission of a method ends is determined for every program: which error is reported, for
which binding and operand, and that the declared types that are looked up are those of bindings. -/
theorem emissionDetermined (p : Program) : p.EmissionDetermined where
  unboundLocal binding source := by
    simp [toMethod_eq_error_iff, checkScoping_eq_error_iff]
  unboundReturn l := by
    simp [toMethod_eq_error_iff, checkScoping_eq_error_iff]
  supplementaryChar binding c := by
    simp [toMethod_eq_error_iff, checkScoping_eq_error_iff, and_assoc]
  ok := by
    rw [exists_toMethod_eq_ok_iff, and_assoc]
  inRange := toMethodChecked_eq p
  ofErased policy q h error herror := by
    rcases toMethod_eq_error_iff.mp herror with hscope | ⟨-, binding, c, -, rfl⟩
    · -- the check of scopes passes whatever comes out of erasure
      obtain ⟨type, hok⟩ := exists_checkScoping_eq_ok_iff.mpr (readsInOrder_of_erase h)
      rw [hok] at hscope
      cases hscope
    · exact ⟨binding, c, rfl⟩

-- a binding that always throws hides the character behind it, but not the read
example :
    toMethod ⟨[⟨.unit, .invokeWrapper .int .length⟩, ⟨.prim .char, .primLit (.char '𝄞')⟩], 0⟩ =
    .ok ⟨true, methodName, [], none, [.raise (unsupportedInvocation .int .length)]⟩ := rfl

example : toMethod ⟨[⟨.unit, .invokeWrapper .int .length⟩, ⟨.prim .char, .primLit (.char '𝄞')⟩,
    ⟨.integer, .var 2⟩], 0⟩ = .error (.unboundLocal 2 2) := rfl

end ArrayBridge.Erased.Program
