import ArrayBridge.Proofs.Erasure.Appending
import ArrayBridge.Proofs.Wrapper.Resolution

/-!
# Calls and the contract

The contract of a wrapper says of which types the operands of a call are, and at which type its
result is bound. Erasure checks operands one by one, with rules of its own for each operation. Both
agree on every call that is built, however its arguments are written, but for the type query: its
expression does not keep the kind of the wrapper, so any receiver is let through.

Main results:

* `Scope.exists_plan_iff_of_builds` — when there is a plan of a call, by the contract.
* `Bridge.Program.accepts_call` — a call that the contract allows is accepted.
* `Bridge.Program.rejects_call` — a call that it does not allow is rejected, and which type queries
  are.
-/

namespace ArrayBridge

open Bridge (Ty Declares)

/-! ## Types of operands and results -/

/-- The declared types of the arguments that a parameter takes, in the wrapper of kind `k`. -/
def ParamType.Admits (k : Kind) : ParamType → Ty → Prop
  | integer, t => t = .integer
  | element, t => t = .prim k
  | wrapper, t => t = .wrapper k
  | genericView, t => (∃ l, t = .wrapper l) ∨ ∃ d, t = .object d

/-- The types at which what an operation returns is bound, in the wrapper of kind `k`. -/
def ReturnType.Admits (k : Kind) : ReturnType → Ty → Prop
  | unit, t => t = .unit
  | integer, t => t = .integer
  | element, t => t = .prim k
  | wrapper, t => t = .wrapper k
  | genericView, t => ∃ d, t = .object d
  | descriptor, t => t = .descriptor

/-- What is an array or a view of one may also be bound as an object. -/
def ReturnType.MayBind (k : Kind) (r : ReturnType) (t : Ty) : Prop :=
  r.Admits k t ∨ (r = .wrapper ∨ r = .genericView) ∧ ∃ d, t = .object d

namespace Operation

/-- Whether the receiver of a call, if it has one, is a wrapper of kind `k`. -/
def ReceiverDeclared (k : Kind) (bs : List Bridge.Binding) (receiver : Option Local) : Prop :=
  ∀ l ∈ receiver, Declares bs l (.wrapper k)

/-- Whether each argument that is supplied is declared at a type that its parameter takes. -/
def ArgumentsDeclared (op : Operation) (k : Kind) (bs : List Bridge.Binding)
    (args : List (Argument Local)) : Prop :=
  op.signature.EachSupplied args fun param l => ∃ t, Declares bs l t ∧ param.type.Admits k t

end Operation

/-! ## Plans of calls -/

namespace Erasure.Scope

variable {scope : Scope} {op : Operation} {k : Kind} {receiver : Option Local}
  {slots : List (Option Local)} {expr : Bridge.Expr} {type : Ty}

/-- Some erased local stands for a local of the given type. -/
def Holds (scope : Scope) (l : Local) (t : Ty) : Prop := ∃ e, scope.Binds l t e

/-- An offset is accepted if it is omitted or an integer. -/
theorem exists_offset_iff {l : Option Local} :
    (∃ o, scope.Offset l o) ↔ ∀ l' ∈ l, scope.Holds l' .integer := by
  constructor
  · rintro ⟨o, ho⟩ l' rfl
    cases ho with
    | given h => exact ⟨_, h⟩
  · intro h
    cases l with
    | none => exact ⟨_, .omitted⟩
    | some l =>
      obtain ⟨e, he⟩ := h l rfl
      exact ⟨_, .given he⟩

/-- So is a length. -/
theorem exists_length_iff {l : Option Local} :
    (∃ n, scope.Length l n) ↔ ∀ l' ∈ l, scope.Holds l' .integer := by
  constructor
  · rintro ⟨n, hn⟩ l' rfl
    cases hn with
    | given h => exact ⟨_, h⟩
  · intro h
    cases l with
    | none => exact ⟨_, .omitted⟩
    | some l =>
      obtain ⟨e, he⟩ := h l rfl
      exact ⟨_, .given he⟩

/-- A construction is accepted at its wrapper type and at object types. -/
theorem exists_plan_construct_iff {size : Local} {element : Option Local} :
    (∃ plan, scope.plan type (.call k (.construct size element)) = .ok plan) ↔
      (type = .wrapper k ∨ ∃ d, type = .object d) ∧
        scope.Holds size .integer ∧ ∀ l ∈ element, scope.Holds l (.prim k) := by
  constructor
  · rintro ⟨plan, hplan⟩
    cases plans_of_plan hplan with
    | construct h => exact ⟨.inl rfl, h.operands⟩
    | @constructView d k size element array h => exact ⟨.inr ⟨d, rfl⟩, h.operands⟩
  · rintro ⟨htype, hsize, helement⟩
    obtain ⟨array, hwrapper, hobject⟩ := exists_plan_construct hsize helement
    rcases htype with rfl | ⟨d, rfl⟩
    · exact ⟨_, hwrapper⟩
    · exact ⟨_, hobject d⟩

/-- Reading is accepted at the primitive type of the wrapper. -/
theorem exists_plan_get_iff {array index : Local} :
    (∃ plan, scope.plan type (.call k (.get array index)) = .ok plan) ↔
      type = .prim k ∧ scope.Holds array (.wrapper k) ∧ scope.Holds index .integer := by
  rw [exists_plan_iff]
  constructor
  · rintro ⟨plan, hplan⟩
    cases hplan with
    | get ha hi => exact ⟨rfl, ⟨_, ha⟩, ⟨_, hi⟩⟩
  · rintro ⟨rfl, ⟨a, ha⟩, ⟨i, hi⟩⟩
    exact ⟨_, .get ha hi⟩

/-- Writing is accepted at the unit type, with a value of the primitive type. -/
theorem exists_plan_set_iff {array index value : Local} :
    (∃ plan, scope.plan type (.call k (.set array index value)) = .ok plan) ↔
      type = .unit ∧ scope.Holds array (.wrapper k) ∧ scope.Holds index .integer ∧
        scope.Holds value (.prim k) := by
  rw [exists_plan_iff]
  constructor
  · rintro ⟨plan, hplan⟩
    cases hplan with
    | set ha hi hv => exact ⟨rfl, ⟨_, ha⟩, ⟨_, hi⟩, ⟨_, hv⟩⟩
  · rintro ⟨rfl, ⟨a, ha⟩, ⟨i, hi⟩, ⟨v, hv⟩⟩
    exact ⟨_, .set ha hi hv⟩

theorem exists_plan_length_iff {array : Local} :
    (∃ plan, scope.plan type (.call k (.length array)) = .ok plan) ↔
      type = .integer ∧ scope.Holds array (.wrapper k) := by
  rw [exists_plan_iff]
  constructor
  · rintro ⟨plan, hplan⟩
    cases hplan with
    | length ha => exact ⟨rfl, ⟨_, ha⟩⟩
  · rintro ⟨rfl, ⟨a, ha⟩⟩
    exact ⟨_, .length ha⟩

/-- A copy needs two wrappers of one kind. Each of the other three may be omitted. -/
theorem exists_plan_copyTo_iff {source destination : Local}
    {sourceOffset destinationOffset length : Option Local} :
    (∃ plan, scope.plan type
      (.call k (.copyTo source destination sourceOffset destinationOffset length)) = .ok plan) ↔
      type = .unit ∧ scope.Holds source (.wrapper k) ∧ scope.Holds destination (.wrapper k) ∧
        (∀ l ∈ sourceOffset, scope.Holds l .integer) ∧
        (∀ l ∈ destinationOffset, scope.Holds l .integer) ∧
        ∀ l ∈ length, scope.Holds l .integer := by
  rw [exists_plan_iff, ← exists_offset_iff, ← exists_offset_iff, ← exists_length_iff]
  constructor
  · rintro ⟨plan, hplan⟩
    cases hplan with
    | copyTo hs hd hso hdof hn => exact ⟨rfl, ⟨_, hs⟩, ⟨_, hd⟩, ⟨_, hso⟩, ⟨_, hdof⟩, ⟨_, hn⟩⟩
  · rintro ⟨rfl, ⟨s, hs⟩, ⟨d, hd⟩, ⟨so, hso⟩, ⟨dof, hdof⟩, ⟨n, hn⟩⟩
    exact ⟨_, .copyTo hs hd hso hdof hn⟩

/-- A view is accepted at any object type. -/
theorem exists_plan_toGenericView_iff {array : Local} :
    (∃ plan, scope.plan type (.call k (.toGenericView array)) = .ok plan) ↔
      (∃ d, type = .object d) ∧ scope.Holds array (.wrapper k) := by
  rw [exists_plan_iff]
  constructor
  · rintro ⟨plan, hplan⟩
    cases hplan with
    | toGenericView ha => exact ⟨⟨_, rfl⟩, ⟨_, ha⟩⟩
  · rintro ⟨⟨d, rfl⟩, ⟨a, ha⟩⟩
    exact ⟨_, .toGenericView ha⟩

/-- An array made of a sequence is accepted at the wrapper type only, from anything that may be a
sequence. -/
theorem exists_plan_fromGenericView_iff {sequence : Local} :
    (∃ plan, scope.plan type (.call k (.fromGenericView sequence)) = .ok plan) ↔
      type = .wrapper k ∧ ∃ t, scope.Holds sequence t ∧ MaySequence t := by
  constructor
  · rintro ⟨plan, hplan⟩
    cases plans_of_plan hplan with
    | fromGenericView hq ht => exact ⟨rfl, _, hq.exists_binds, ht⟩
  · rintro ⟨rfl, t, hsequence, ht⟩
    obtain ⟨q, hplan⟩ := exists_plan_fromGenericView hsequence ht
    exact ⟨_, hplan⟩

/-- A type query may be made of any local. -/
theorem exists_plan_typeOf_iff {l : Local} :
    (∃ plan, scope.plan type (.typeOf l) = .ok plan) ↔
      type = .descriptor ∧ ∃ t, scope.Holds l t := by
  constructor
  · rintro ⟨plan, hplan⟩
    cases plans_of_plan hplan with
    | typeOf hq => exact ⟨rfl, _, hq.exists_binds⟩
  · rintro ⟨rfl, t, e, he⟩
    -- a wrapper is asked for its type through an adapter, anything else as it is
    obtain ⟨q, hq⟩ := exists_generic he
    refine ⟨.use .descriptor q .typeOf, ?_⟩
    simp only [plan, checkResult, decide_true, if_true, Check.ok_bind, hq]
    rfl

/-- There is a plan of a call exactly if its operands are declared as the contract wants them. The
receiver of a type query is not looked at; and a fresh array may also be bound as an object. -/
theorem exists_plan_iff_of_builds (h : Operation.Builds k op receiver slots expr) :
    (∃ plan, scope.plan type expr = .ok plan) ↔
      (op.signature.result.Admits k type ∨ op = .construct ∧ ∃ d, type = .object d) ∧
      (∀ l ∈ receiver, ∃ t, scope.Holds l t ∧ (op = .reifiedType ∨ t = .wrapper k)) ∧
      List.Forall₂ (fun param slot => ∀ l ∈ slot, ∃ t, scope.Holds l t ∧ param.type.Admits k t)
        op.signature.params slots := by
  -- every operation checks its operands in an order of its own, so each has its own lemma
  cases h with
  | construct =>
    rw [exists_plan_construct_iff]
    simp [Operation.signature, ParamType.Admits, ReturnType.Admits]
  | get =>
    rw [exists_plan_get_iff]
    simp [Operation.signature, ParamType.Admits, ReturnType.Admits]
  | set =>
    rw [exists_plan_set_iff]
    simp [Operation.signature, ParamType.Admits, ReturnType.Admits]
  | length =>
    rw [exists_plan_length_iff]
    simp [Operation.signature, ParamType.Admits, ReturnType.Admits]
  | copyTo =>
    rw [exists_plan_copyTo_iff]
    simp [Operation.signature, ParamType.Admits, ReturnType.Admits]
  | toGenericView =>
    rw [exists_plan_toGenericView_iff]
    simp [Operation.signature, ParamType.Admits, ReturnType.Admits]
  | fromGenericView =>
    rw [exists_plan_fromGenericView_iff]
    simp [Operation.signature, ParamType.Admits, ReturnType.Admits, MaySequence]
  | reifiedType =>
    rw [exists_plan_typeOf_iff]
    simp [Operation.signature, ParamType.Admits, ReturnType.Admits]

end Erasure.Scope

/-! ## Calls at the end of a program -/

section Appended

variable {policy policy' : AdapterPolicy} {p : Bridge.Program} {e : Erased.Program}
  {placed : Erasure.Placement} {op : Operation} {k : Kind} {receiver : Option Local}
  {args : List (Argument Local)} {expr : Bridge.Expr} {type : Ty} {result : Nat}

/-- The scope of a placed program holds what its bindings declare. -/
theorem Erasure.Places.holds_iff {l : Local} {t : Ty} (h : Places policy p placed) :
    placed.scope.Holds l t ↔ Declares p.bindings l t := by
  constructor
  · rintro ⟨e, he⟩
    exact h.declares_of_binds he
  · exact h.exists_binds

namespace Bridge.Program

/-- When a call may be appended to a program, by the declared types alone. -/
theorem exists_erase_call_iff (haccepted : p.erase policy' = .ok e)
    (hbuild : op.build k receiver args = .ok expr) (policy : AdapterPolicy) :
    (∃ e, erase policy ⟨p.bindings ++ [⟨type, expr⟩], result⟩ = .ok e) ↔
      ((op.signature.result.Admits k type ∨ op = .construct ∧ ∃ d, type = .object d) ∧
        (∀ l ∈ receiver, ∃ t, Declares p.bindings l t ∧ (op = .reifiedType ∨ t = .wrapper k)) ∧
        op.ArgumentsDeclared k p.bindings args) ∧
      result ≤ p.bindings.length := by
  -- The bindings before the call are placed already, so only the plan of the call decides.
  obtain ⟨placed, hplaced⟩ := Erasure.exists_places haccepted policy
  obtain ⟨slots, hslots, hbuilds⟩ := op.exists_slots_of_build hbuild
  rw [hplaced.exists_erase_append_iff, Erasure.Scope.exists_plan_iff_of_builds hbuilds]
  simp only [hplaced.holds_iff, Signature.forall₂_resolve_iff hslots, Operation.ArgumentsDeclared]

/-- What the contract allows is accepted: if the receiver and the arguments of a call that is built
are of the declared types, the call may be bound at the type of what it returns. -/
theorem accepts_call (haccepted : p.erase policy' = .ok e)
    (hbuild : op.build k receiver args = .ok expr)
    (hreceiver : Operation.ReceiverDeclared k p.bindings receiver)
    (hargs : op.ArgumentsDeclared k p.bindings args)
    (htype : op.signature.result.Admits k type) (hresult : result ≤ p.bindings.length)
    (policy : AdapterPolicy) :
    ∃ e, erase policy ⟨p.bindings ++ [⟨type, expr⟩], result⟩ = .ok e := by
  refine (exists_erase_call_iff haccepted hbuild policy).mpr ⟨⟨.inl htype, ?_, hargs⟩, hresult⟩
  intro l hl
  exact ⟨_, hreceiver l hl, .inr rfl⟩

/-- A copy between two arrays, with its length named and its offsets left out. -/
theorem accepts_call_copy :
    ∃ (p : Program) (expr : Expr) (e : Erased.Program),
      Operation.copyTo.build .int (some 1) [.positional 2, .named "length" 0] = .ok expr ∧
        (p.concat ⟨.unit, expr⟩).erase .perUse = .ok e := by
  let p : Program := ⟨[⟨.integer, .intLit 2⟩, ⟨.wrapper .int, .call .int (.construct 0 none)⟩,
    ⟨.wrapper .int, .call .int (.construct 0 none)⟩], 1⟩
  have haccepted : p.erase .shared =
      .ok ⟨[⟨.integer, .intLit 2⟩, ⟨.array .int, .newArray .int 0⟩,
        ⟨.array .int, .newArray .int 0⟩], 1⟩ := rfl
  have hbuild : Operation.copyTo.build .int (some 1) [.positional 2, .named "length" 0] =
      .ok (.call .int (.copyTo 1 2 none none (some 0))) := rfl
  have hslots : Operation.copyTo.signature.resolve [.positional 2, .named "length" 0] =
      .ok [some 2, none, none, some 0] := rfl
  have hargs : Operation.copyTo.ArgumentsDeclared .int p.bindings
      [.positional 2, .named "length" 0] := by
    -- slot by slot, of which the two offsets are empty
    refine (Signature.forall₂_resolve_iff hslots).mp
      (.cons ?_ (.cons ?_ (.cons ?_ (.cons ?_ .nil))))
    · rintro _ ⟨⟩
      exact ⟨_, ⟨_, rfl, rfl⟩, rfl⟩
    · rintro _ ⟨⟩
    · rintro _ ⟨⟩
    · rintro _ ⟨⟩
      exact ⟨_, ⟨_, rfl, rfl⟩, rfl⟩
  have hreceiver : Operation.ReceiverDeclared .int p.bindings (some 1) := by
    rintro _ ⟨⟩
    exact ⟨_, rfl, rfl⟩
  obtain ⟨e, he⟩ := accepts_call haccepted hbuild hreceiver hargs rfl (Nat.le_refl _) .perUse
  exact ⟨p, _, e, hbuild, he⟩

/-- What the contract does not allow is rejected, for every operation but the type query. A type
query is rejected if its receiver is not bound, or it is not bound as a descriptor; the type of the
receiver makes no difference, so that an array of another kind is let through. -/
theorem rejects_call (haccepted : p.erase policy' = .ok e)
    (hbuild : op.build k receiver args = .ok expr) (policy : AdapterPolicy) :
    (op ≠ .reifiedType →
      ¬ (Operation.ReceiverDeclared k p.bindings receiver ∧
        op.ArgumentsDeclared k p.bindings args ∧ op.signature.result.MayBind k type) →
      ∃ error, erase policy ⟨p.bindings ++ [⟨type, expr⟩], result⟩ = .error error) ∧
    (op = .reifiedType →
      ((∃ error, erase policy ⟨p.bindings ++ [⟨type, expr⟩], result⟩ = .error error) ↔
        ¬ (type = .descriptor ∧ (∀ l ∈ receiver, ∃ t, Declares p.bindings l t) ∧
          result ≤ p.bindings.length))) := by
  rw [Check.exists_eq_error_iff, exists_erase_call_iff haccepted hbuild policy]
  constructor
  · rintro hop hforbidden ⟨⟨htype, hreceiver, hargs⟩, -⟩
    refine hforbidden ⟨?_, hargs, ?_⟩
    · intro l hl
      obtain ⟨t, ht, hquery | rfl⟩ := hreceiver l hl
      · exact absurd hquery hop
      · exact ht
    · rcases htype with htype | ⟨rfl, hobject⟩
      · exact .inl htype
      · exact .inr ⟨.inl rfl, hobject⟩
  · rintro rfl
    -- a type query takes no arguments
    have hargs : Operation.ArgumentsDeclared .reifiedType k p.bindings args := by
      intro index param v hparam
      simp [Operation.signature] at hparam
    simp [Operation.signature, ReturnType.Admits, hargs, and_assoc]

/-- The size of an array of ints is not asked for as if they were longs. Their type is. -/
theorem rejects_call_kind :
    ∃ (p : Program) (size type : Expr) (error : Erasure.Error) (e : Erased.Program),
      Declares p.bindings 1 (.wrapper .int) ∧
        Operation.length.build .long (some 1) [] = .ok size ∧
        (p.concat ⟨.integer, size⟩).erase .shared = .error error ∧
        Operation.reifiedType.build .long (some 1) [] = .ok type ∧
        (p.concat ⟨.descriptor, type⟩).erase .shared = .ok e := by
  let p : Program := ⟨[⟨.integer, .intLit 2⟩, ⟨.wrapper .int, .call .int (.construct 0 none)⟩], 1⟩
  have haccepted : p.erase .shared =
      .ok ⟨[⟨.integer, .intLit 2⟩, ⟨.array .int, .newArray .int 0⟩], 1⟩ := rfl
  have hdeclared : Declares p.bindings 1 (.wrapper .int) := ⟨_, rfl, rfl⟩
  have hsize : Operation.length.build .long (some 1) [] = .ok (.call .long (.length 1)) := rfl
  have htype : Operation.reifiedType.build .long (some 1) [] = .ok (.typeOf 1) := rfl
  obtain ⟨hrejected, -⟩ := rejects_call haccepted hsize .shared
  have hkind : ¬ Operation.ReceiverDeclared .long p.bindings (some 1) := by
    intro hreceiver
    obtain ⟨b, hb, ht⟩ := hreceiver 1 rfl
    obtain rfl := Option.some.inj hb
    cases ht
  obtain ⟨error, herror⟩ := hrejected (by decide) fun h => hkind h.1
  obtain ⟨-, hquery⟩ := rejects_call haccepted htype .shared
  -- the type query is of a bound local and bound as a descriptor, so it is not rejected
  have haccepted' : ∃ e, (p.concat ⟨.descriptor, .typeOf 1⟩).erase .shared = .ok e := by
    by_contra hrejected
    refine (hquery rfl).mp (Check.exists_eq_error_iff.mpr hrejected) ⟨rfl, ?_, Nat.le_refl _⟩
    rintro _ ⟨⟩
    exact ⟨_, hdeclared⟩
  obtain ⟨e, he⟩ := haccepted'
  exact ⟨p, _, _, error, e, hdeclared, hsize, herror, htype, he⟩

end Bridge.Program

end Appended

end ArrayBridge
