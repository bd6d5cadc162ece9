import ArrayBridge.Proofs.Wrapper.Resolution

/-!
# What a call is built of

The expression of a call is put together from slots that are taken one after another, so that two
operands which change places, or a slot that is passed over, would go unnoticed. Here an expression
is read the other way round: each operand is given the name of the parameter that it is for.

Main results:

* `Signature.not_isOfReceiver_of_resolve` — resolution finds no fault with a receiver.
* `Operation.isCallOf_of_builds` — the operands of a call, by the names of their parameters.
* `Operation.build_eq_error_iff` — with a receiver as it should be, building fails as resolution
  does.
* `Operation.placesOperands` — which calls are built, and of what.
-/

namespace ArrayBridge

/-! ## Operands of a call -/

namespace Bridge

/-- The wrapper that a member is called on. -/
def Call.receiver? : Call → Option Local
  | construct .. | fromGenericView _ => none
  | get array _ | set array _ _ | length array | toGenericView array => some array
  | copyTo source _ _ _ _ => some source

/-- The other operands, each under the name of its parameter. -/
def Call.arguments : Call → List (String × Option Local)
  | construct size element => [("size", some size), ("element", element)]
  | get _ index => [("index", some index)]
  | set _ index value => [("index", some index), ("element", some value)]
  | length _ | toGenericView _ => []
  | copyTo _ destination sourceOffset destinationOffset count =>
    [("destination", some destination), ("sourcePosition", sourceOffset),
     ("destinationPosition", destinationOffset), ("length", count)]
  | fromGenericView sequence => [("array", some sequence)]

/-- Whether an expression is the call of an operation with a receiver and slots: its other operands,
read in the order of the parameters, are the slots. A type query keeps its receiver only. -/
def Expr.IsCallOf (op : Operation) (k : Kind) (receiver : Option Local)
    (slots : List (Option Local)) : Expr → Prop
  | .call k' member =>
    k' = k ∧ member.operation = op ∧ member.receiver? = receiver ∧
      member.arguments.map Prod.fst = op.signature.params.map Param.name ∧
      member.arguments.map Prod.snd = slots
  | .typeOf value => op = .reifiedType ∧ receiver = some value ∧ slots = []
  | _ => False

end Bridge

/-! ## Faults -/

/-- Whether a fault is about the receiver of a call. -/
def CallFault.IsOfReceiver (fault : CallFault) : Prop :=
  fault = .missingReceiver ∨ fault = .unexpectedReceiver

namespace Signature

variable {α : Type} {s : Signature} {args : List (Argument α)} {slots : List (Option α)}
  {fault : CallFault}

/-- Filling a slot is not about the receiver, -/
theorem not_isOfReceiver_of_fill {index : Nat} {v : α} (h : s.fill slots index v = .error fault) :
    ¬ fault.IsOfReceiver := by
  rw [fill] at h
  split at h
  · cases h
  · injection h with h
    simp [← h, CallFault.IsOfReceiver]

/-- and neither is placing arguments. -/
theorem not_isOfReceiver_of_place {afterNamed : Bool} {position : Nat}
    (h : s.place slots afterNamed position args = .error fault) : ¬ fault.IsOfReceiver := by
  -- an argument is refused as it comes, for want of a parameter, or because that is filled
  induction args generalizing slots afterNamed position with
  | nil => cases h
  | cons arg args ih =>
    cases arg with
    | positional v =>
      cases afterNamed with
      | true =>
        injection h with h
        simp [← h, CallFault.IsOfReceiver]
      | false =>
        rcases Check.bind_eq_error.mp h with hfill | ⟨filled, -, hrest⟩
        · exact not_isOfReceiver_of_fill hfill
        · exact ih hrest
    | named name v =>
      rw [place] at h
      split at h
      · injection h with h
        simp [← h, CallFault.IsOfReceiver]
      · rcases Check.bind_eq_error.mp h with hfill | ⟨filled, -, hrest⟩
        · exact not_isOfReceiver_of_fill hfill
        · exact ih hrest

/-- Resolution finds no fault with a receiver. -/
theorem not_isOfReceiver_of_resolve (h : s.resolve args = .error fault) : ¬ fault.IsOfReceiver := by
  rw [resolve] at h
  split at h
  · injection h with h
    simp [← h, CallFault.IsOfReceiver]
  · rcases Check.bind_eq_error.mp h with hplace | ⟨slots, -, h⟩
    · exact not_isOfReceiver_of_place hplace
    · split at h
      · injection h with h
        simp [← h, CallFault.IsOfReceiver]
      · cases h

end Signature

/-! ## Calls that are built -/

namespace Operation

variable {op : Operation} {k : Kind} {receiver : Option Local} {slots : List (Option Local)}
  {args : List (Argument Local)} {expr : Bridge.Expr}

/-- The operands of a call, by the names of their parameters. -/
theorem isCallOf_of_builds (h : Builds k op receiver slots expr) :
    expr.IsCallOf op k receiver slots := by
  cases h with
  | reifiedType => exact ⟨rfl, rfl, rfl⟩
  | _ => exact ⟨rfl, rfl, rfl, rfl, rfl⟩

/-- The receiver is looked at first: a static operation has none, and any other one has one. -/
theorem build_of_not_receiver (h : op.signature.isStatic ≠ receiver.isNone) :
    op.build k receiver args =
      .error ⟨k, op, if op.signature.isStatic then .unexpectedReceiver else .missingReceiver⟩ := by
  rw [build, Signature.checkReceiver_of_not h]
  rfl

/-- Then a call is built exactly if it is resolved, and fails in no way of its own. -/
theorem build_eq_error_iff (h : op.signature.isStatic = receiver.isNone) {e : CallError} :
    op.build k receiver args = .error e ↔ op.resolve k args = .error e := by
  rw [build, Signature.checkReceiver_eq_ok.mpr h]
  show (op.resolve k args >>= _) = _ ↔ _
  rw [Check.bind_eq_error, or_iff_left]
  rintro ⟨slots, hslots, hfail⟩
  -- resolved slots always make an expression
  obtain ⟨expr, hexpr⟩ := exists_builds (k := k) h (Check.mapError_eq_ok.mp hslots)
  rw [run_expr_of_builds hexpr] at hfail
  cases hfail

/-- A call whose arguments are resolved is built, if it has a receiver exactly when it should. -/
theorem exists_build_of_resolve (h : op.signature.isStatic = receiver.isNone)
    (hslots : op.resolve k args = .ok slots) :
    ∃ expr, op.build k receiver args = .ok expr ∧ Builds k op receiver slots expr := by
  obtain ⟨expr, hexpr⟩ := exists_builds (k := k) h (Check.mapError_eq_ok.mp hslots)
  refine ⟨expr, ?_, hexpr⟩
  rw [build, Signature.checkReceiver_eq_ok.mpr h, hslots]
  show ((op.expr k receiver).run' slots).mapError _ = _
  rw [run_expr_of_builds hexpr]
  rfl

/-- A fault about the receiver is that of a call which has one and should not, or the other way
round. -/
theorem build_eq_error_of_receiver_iff {fault : CallFault} (hfault : fault.IsOfReceiver) :
    op.build k receiver args = .error ⟨k, op, fault⟩ ↔
      op.signature.isStatic ≠ receiver.isNone ∧
        fault = if op.signature.isStatic then .unexpectedReceiver else .missingReceiver := by
  by_cases hreceiver : op.signature.isStatic = receiver.isNone
  · rw [build_eq_error_iff hreceiver]
    refine iff_of_false (fun h => ?_) fun h => h.1 hreceiver
    -- resolution finds other faults
    obtain ⟨found, hfound, heq⟩ := Check.mapError_eq_error.mp h
    injection heq with _ _ heq
    exact Signature.not_isOfReceiver_of_resolve hfound (heq ▸ hfault)
  · rw [build_of_not_receiver hreceiver]
    constructor
    · intro h
      injection h with h
      injection h with _ _ h
      exact ⟨hreceiver, h.symm⟩
    · rintro ⟨-, rfl⟩
      rfl

/-- Which calls are built, and of what. -/
structure PlacesOperands (op : Operation) (k : Kind) (receiver : Option Local)
    (args : List (Argument Local)) : Prop where
  missingReceiver : op.build k receiver args = .error ⟨k, op, .missingReceiver⟩ ↔
    op.signature.isStatic = false ∧ receiver = none
  unexpectedReceiver : op.build k receiver args = .error ⟨k, op, .unexpectedReceiver⟩ ↔
    op.signature.isStatic = true ∧ receiver ≠ none
  /-- With a receiver as it should be, a call fails as its resolution does, and in no other way. -/
  faults (h : op.signature.isStatic = receiver.isNone) (e : CallError) :
    op.build k receiver args = .error e ↔ op.resolve k args = .error e
  /-- What is resolved is built, and each slot is in its place. -/
  operands (h : op.signature.isStatic = receiver.isNone) (slots : List (Option Local))
    (hslots : op.resolve k args = .ok slots) :
    ∃ expr, op.build k receiver args = .ok expr ∧ expr.IsCallOf op k receiver slots

/-- Building a call puts every operand where its parameter says. -/
theorem placesOperands (op : Operation) (k : Kind) (receiver : Option Local)
    (args : List (Argument Local)) : PlacesOperands op k receiver args := by
  constructor
  case missingReceiver =>
    rw [build_eq_error_of_receiver_iff (.inl rfl)]
    cases op.signature.isStatic <;> cases receiver <;> simp
  case unexpectedReceiver =>
    rw [build_eq_error_of_receiver_iff (.inr rfl)]
    cases op.signature.isStatic <;> cases receiver <;> simp
  case faults => exact fun h _ => build_eq_error_iff h
  case operands =>
    intro h slots hslots
    obtain ⟨expr, hexpr, hbuilds⟩ := exists_build_of_resolve h hslots
    exact ⟨expr, hexpr, isCallOf_of_builds hbuilds⟩

-- what is left out of a copy leaves its place free
example : build .copyTo .char (some 0) [.positional 1, .named "destinationPosition" 2] =
    .ok (.call .char (.copyTo 0 1 none (some 2) none)) := rfl

end Operation

end ArrayBridge
