import ArrayBridge.Proofs.Traversal
import ArrayBridge.Wrapper.Call

/-!
# What resolution gives

An argument list supplies parameters directly: a positional argument the parameter at its own place,
a named one the parameter of that name. The slots of a resolved call hold the supplied arguments and
nothing else, however the list mixes the two.

Main results:

* `Signature.getElem?_resolve` — the slots of a resolved call hold what its arguments supply.
* `Signature.forall₂_resolve_iff` — what holds of the supplied arguments holds slot by slot.
* `Signature.Completes.fills` — what the slots hold once omitted arguments have been supplied.
* `Operation.exists_slots_of_build` — the receiver and the slots of a call that is built.
-/

namespace ArrayBridge

open Check (bind_eq_ok)

/-- The value of an argument. -/
def Argument.value {α : Type} : Argument α → α
  | positional v => v
  | named _ v => v

namespace Signature

variable {α : Type} {s : Signature} {args : List (Argument α)} {slots slots' : List (Option α)}

/-! ## Supplied arguments -/

/-- The place of the parameter that an argument is for: that of the argument, or that of its name.
-/
def placeOf? (s : Signature) (position : Nat) : Argument α → Option Nat
  | .positional _ => some position
  | .named name _ => s.paramIndex? name

/-- The arguments from a position on supply a value for the parameter at a place. -/
def SuppliesFrom (s : Signature) (position : Nat) (args : List (Argument α)) (index : Nat)
    (v : α) : Prop :=
  ∃ i arg, args[i]? = some arg ∧ s.placeOf? (position + i) arg = some index ∧ arg.value = v

/-- An argument list supplies a value for the parameter at a place. -/
def Supplies (s : Signature) (args : List (Argument α)) (index : Nat) (v : α) : Prop :=
  ∃ i arg, args[i]? = some arg ∧ s.placeOf? i arg = some index ∧ arg.value = v

/-- Whether every supplied argument is as its parameter wants it. -/
def EachSupplied (s : Signature) (args : List (Argument α)) (wanted : Param → α → Prop) : Prop :=
  ∀ index param v, s.params[index]? = some param → s.Supplies args index v → wanted param v

theorem suppliesFrom_zero {index : Nat} {v : α} :
    s.SuppliesFrom 0 args index v ↔ s.Supplies args index v := by
  simp only [SuppliesFrom, Supplies, Nat.zero_add]

theorem not_suppliesFrom_nil {position index : Nat} {v : α} :
    ¬ s.SuppliesFrom position [] index v := by
  rintro ⟨i, arg, hi, -⟩
  simp at hi

/-- The first argument stands at the position, and the rest one further on. -/
theorem suppliesFrom_cons {position index : Nat} {arg : Argument α} {v : α} :
    s.SuppliesFrom position (arg :: args) index v ↔
      (s.placeOf? position arg = some index ∧ arg.value = v) ∨
        s.SuppliesFrom (position + 1) args index v := by
  constructor
  · rintro ⟨i, found, hi, hplace, hv⟩
    cases i with
    | zero =>
      obtain rfl := Option.some.inj hi
      exact .inl ⟨hplace, hv⟩
    | succ i =>
      rw [← Nat.succ_add_eq_add_succ] at hplace
      exact .inr ⟨i, found, hi, hplace, hv⟩
  · rintro (⟨hplace, hv⟩ | ⟨i, found, hi, hplace, hv⟩)
    · exact ⟨0, arg, rfl, hplace, hv⟩
    · refine ⟨i + 1, found, hi, ?_, hv⟩
      rwa [← Nat.succ_add_eq_add_succ]

/-! ## Placing arguments -/

/-- Filling a parameter needs an empty slot for it, and leaves the other slots alone. -/
theorem fill_eq_ok {index : Nat} {v : α} :
    s.fill slots index v = .ok slots' ↔
      slots[index]? = some none ∧ slots' = slots.set index (some v) := by
  rw [fill]
  split
  · rename_i h
    rw [h]
    simp [eq_comm]
  · rename_i h
    simp only [reduceCtorEq, false_iff, not_and]
    exact fun hempty => absurd hempty h

/-- After a parameter has been filled, a slot holds what it held before or the new argument. -/
theorem getElem?_of_fill {index : Nat} {v : α} (h : s.fill slots index v = .ok slots') (j : Nat)
    (w : α) : slots'[j]? = some (some w) ↔ slots[j]? = some (some w) ∨ (index = j ∧ v = w) := by
  obtain ⟨hempty, rfl⟩ := fill_eq_ok.mp h
  obtain ⟨hlt, -⟩ := List.getElem?_eq_some_iff.mp hempty
  -- the slot that is filled was empty, and no other changes
  by_cases hj : index = j
  · subst hj
    rw [List.getElem?_set_self hlt, hempty]
    simp
  · rw [List.getElem?_set_ne hj]
    simp [hj]

/-- Placing arguments is filling the parameter of the first, and then placing the rest. -/
theorem exists_of_place_cons {afterNamed : Bool} {position : Nat} {arg : Argument α}
    (h : s.place slots afterNamed position (arg :: args) = .ok slots') :
    ∃ index filled afterNamed', s.placeOf? position arg = some index ∧
      s.fill slots index arg.value = .ok filled ∧
      s.place filled afterNamed' (position + 1) args = .ok slots' := by
  cases arg with
  | positional v =>
    -- one that follows a named argument is refused
    cases afterNamed with
    | true => cases h
    | false =>
      obtain ⟨filled, hfill, hrest⟩ := bind_eq_ok.mp h
      exact ⟨position, filled, false, rfl, hfill, hrest⟩
  | named name v =>
    rw [place] at h
    cases hindex : s.paramIndex? name with
    | none =>
      rw [hindex] at h
      cases h
    | some index =>
      rw [hindex] at h
      obtain ⟨filled, hfill, hrest⟩ := bind_eq_ok.mp h
      exact ⟨index, filled, true, hindex, hfill, hrest⟩

/-- Arguments are placed in the slots that there are. -/
theorem length_of_place {afterNamed : Bool} {position : Nat}
    (h : s.place slots afterNamed position args = .ok slots') :
    slots'.length = slots.length := by
  induction args generalizing slots afterNamed position with
  | nil =>
    injection h with h
    rw [h]
  | cons arg args ih =>
    obtain ⟨index, filled, afterNamed', -, hfill, hrest⟩ := exists_of_place_cons h
    obtain ⟨-, rfl⟩ := fill_eq_ok.mp hfill
    rw [ih hrest, List.length_set]

/-- After arguments have been placed, the slots hold what they held before and what these arguments
supply. -/
theorem getElem?_of_place {afterNamed : Bool} {position : Nat}
    (h : s.place slots afterNamed position args = .ok slots') (j : Nat) (w : α) :
    slots'[j]? = some (some w) ↔
      slots[j]? = some (some w) ∨ s.SuppliesFrom position args j w := by
  -- each argument fills one slot, so the induction is for all slots that may be filled before it
  induction args generalizing slots afterNamed position with
  | nil =>
    injection h with h
    simp [h, not_suppliesFrom_nil]
  | cons arg args ih =>
    obtain ⟨index, filled, afterNamed', hindex, hfill, hrest⟩ := exists_of_place_cons h
    rw [ih hrest, getElem?_of_fill hfill, suppliesFrom_cons, hindex, Option.some.injEq, or_assoc]

/-! ## Resolved calls -/

/-- Arguments are resolved if there are not too many, each has a place, and no parameter is left
without an argument or a default. -/
theorem resolve_eq_ok :
    s.resolve args = .ok slots ↔
      args.length ≤ s.params.length ∧
        s.place (s.params.map fun _ => none) false 0 args = .ok slots ∧
          s.missing? slots = none := by
  rw [resolve]
  by_cases hmany : s.params.length < args.length
  · rw [if_pos hmany]
    have hle : ¬ args.length ≤ s.params.length := by omega
    simp [hle, bind, Except.bind, throw, throwThe, MonadExceptOf.throw]
  · rw [if_neg hmany]
    have hle : args.length ≤ s.params.length := by omega
    -- the arguments are placed, and then the slots are looked through for a missing one
    show (s.place _ false 0 args >>= _) = _ ↔ _
    simp only [bind_eq_ok, hle, true_and]
    constructor
    · rintro ⟨placed, hplaced, h⟩
      cases hmissing : s.missing? placed with
      | some param =>
        rw [hmissing] at h
        cases h
      | none =>
        rw [hmissing] at h
        injection h with h
        exact ⟨h ▸ hplaced, h ▸ hmissing⟩
    · rintro ⟨hplaced, hmissing⟩
      refine ⟨slots, hplaced, ?_⟩
      rw [hmissing]
      rfl

/-- No parameter is missing if every one whose slot is empty has a default. -/
theorem missing?_eq_none_iff :
    s.missing? slots = none ↔ ∀ (index : Nat) (param : Param), s.params[index]? = some param →
      slots[index]? = some none → param.default ≠ none := by
  rw [missing?, Option.map_eq_none_iff, List.find?_eq_none]
  constructor
  · intro h index param hparam hempty hnone
    have hmem : (none, param) ∈ slots.zip s.params := by
      refine List.mem_of_getElem? (i := index) ?_
      rw [List.getElem?_zip_eq_some]
      exact ⟨hempty, hparam⟩
    have hdefault := h _ hmem
    simp [hnone] at hdefault
  · rintro h ⟨slot, param⟩ hmem
    obtain ⟨index, hindex⟩ := List.getElem?_of_mem hmem
    rw [List.getElem?_zip_eq_some] at hindex
    cases slot with
    | some v => simp
    | none =>
      have hdefault := h index param hindex.2 hindex.1
      simpa using hdefault

theorem length_resolve (h : s.resolve args = .ok slots) : slots.length = s.params.length := by
  obtain ⟨-, hplaced, -⟩ := resolve_eq_ok.mp h
  rw [length_of_place hplaced, List.length_map]

/-- The slots of a resolved call hold the supplied arguments, each at the place of its parameter. -/
theorem getElem?_resolve (h : s.resolve args = .ok slots) (index : Nat) (v : α) :
    slots[index]? = some (some v) ↔ s.Supplies args index v := by
  obtain ⟨-, hplaced, -⟩ := resolve_eq_ok.mp h
  -- there is nothing in the slots at first
  have hempty : ¬ (s.params.map fun _ => (none : Option α))[index]? = some (some v) := by
    rw [List.getElem?_map]
    cases s.params[index]? <;> simp
  rw [getElem?_of_place hplaced, suppliesFrom_zero, or_iff_right hempty]

/-- The slots of a resolved call are one for each parameter, and only that of a parameter with a
default may be empty. -/
theorem forall₂_filled_of_resolve (h : s.resolve args = .ok slots) :
    List.Forall₂ (fun param slot => param.default = none → slot ≠ none) s.params slots := by
  obtain ⟨-, -, hmissing⟩ := resolve_eq_ok.mp h
  have hlength := length_resolve h
  refine List.forall₂_iff_get.mpr ⟨hlength.symm, fun index hlt hlt' hdefault hempty => ?_⟩
  refine missing?_eq_none_iff.mp hmissing index _ (List.getElem?_eq_getElem hlt) ?_ hdefault
  rw [List.getElem?_eq_getElem hlt']
  exact congrArg some hempty

/-- What is wanted of the supplied arguments may be asked slot by slot. -/
theorem forall₂_resolve_iff {wanted : Param → α → Prop} (h : s.resolve args = .ok slots) :
    List.Forall₂ (fun param slot => ∀ v ∈ slot, wanted param v) s.params slots ↔
      s.EachSupplied args wanted := by
  rw [List.forall₂_iff_get]
  have hlength := length_resolve h
  constructor
  · rintro ⟨-, heach⟩ index param v hparam hsupplied
    rw [← getElem?_resolve h] at hsupplied
    obtain ⟨hlt, rfl⟩ := List.getElem?_eq_some_iff.mp hparam
    obtain ⟨hlt', hslot⟩ := List.getElem?_eq_some_iff.mp hsupplied
    exact heach index hlt hlt' v hslot
  · intro heach
    refine ⟨hlength.symm, fun index hlt hlt' v hv => ?_⟩
    refine heach index _ v (List.getElem?_eq_getElem hlt) ((getElem?_resolve h index v).mp ?_)
    rw [List.getElem?_eq_getElem hlt']
    exact congrArg some hv

/-! ## Omitted arguments -/

/-- How an argument that may have been left out is supplied after all: it is kept, or there is a
value that the rule of the parameter's default prescribes. -/
inductive Fills (prescribes : DefaultRule → α → Prop) (param : Param) :
    Option α → Option α → Prop
  | supplied (v : α) : Fills prescribes param (some v) (some v)
  | omitted {rule : DefaultRule} {v : α} (hrule : param.default = some rule)
    (hv : prescribes rule v) : Fills prescribes param none (some v)

/-- An argument without a default is not left out. -/
theorem Fills.eq_of_default_eq_none {prescribes : DefaultRule → α → Prop} {param : Param}
    {slot slot' : Option α} (h : Fills prescribes param slot slot') (hnone : param.default = none) :
    slot' = slot := by
  cases h with
  | supplied v => rfl
  | omitted hrule _ =>
    rw [hnone] at hrule
    cases hrule

/-- An argument list completes another one: it supplies the same arguments, and for each that is
left out a value that the rule of the parameter's default prescribes. -/
structure Completes (s : Signature) (prescribes : DefaultRule → α → Prop)
    (args args' : List (Argument α)) : Prop where
  supplied : ∀ index v, s.Supplies args index v → s.Supplies args' index v
  omitted : ∀ index param rule, s.params[index]? = some param → param.default = some rule →
    (∀ v, ¬ s.Supplies args index v) → ∃ v, prescribes rule v ∧ s.Supplies args' index v

/-- Only the slot of a parameter that has a default is left empty. -/
theorem exists_default_of_resolve {index : Nat} {param : Param} (h : s.resolve args = .ok slots)
    (hparam : s.params[index]? = some param) (hempty : slots[index]? = some none) :
    ∃ rule, param.default = some rule := by
  obtain ⟨-, -, hmissing⟩ := resolve_eq_ok.mp h
  exact Option.ne_none_iff_exists'.mp (missing?_eq_none_iff.mp hmissing index param hparam hempty)

/-- The slots of completed arguments hold what was supplied, and fill what was left out. -/
theorem Completes.fills {prescribes : DefaultRule → α → Prop} {args' : List (Argument α)}
    (hcompletes : s.Completes prescribes args args') (h : s.resolve args = .ok slots)
    (h' : s.resolve args' = .ok slots') (index : Nat) {param : Param} {slot slot' : Option α}
    (hparam : s.params[index]? = some param) (hslot : slots[index]? = some slot)
    (hslot' : slots'[index]? = some slot') : Fills prescribes param slot slot' := by
  cases slot with
  | some v =>
    have hsupplied := hcompletes.supplied index v ((getElem?_resolve h index v).mp hslot)
    rw [← getElem?_resolve h', hslot'] at hsupplied
    obtain rfl := Option.some.inj hsupplied
    exact .supplied v
  | none =>
    -- a parameter without an argument has a default, which the longer list spells out
    obtain ⟨rule, hrule⟩ := exists_default_of_resolve h hparam hslot
    have homitted : ∀ v, ¬ s.Supplies args index v := by
      intro v hv
      rw [← getElem?_resolve h, hslot] at hv
      cases hv
    obtain ⟨v, hv, hsupplied⟩ := hcompletes.omitted index param rule hparam hrule homitted
    rw [← getElem?_resolve h', hslot'] at hsupplied
    obtain rfl := Option.some.inj hsupplied
    exact .omitted hrule hv

/-- So whether arguments are completed may be seen from the slots. -/
theorem completes_of_fills {prescribes : DefaultRule → α → Prop} {args' : List (Argument α)}
    (h : s.resolve args = .ok slots) (h' : s.resolve args' = .ok slots')
    (hfills : ∀ (index : Nat) (param : Param) (slot slot' : Option α),
      s.params[index]? = some param → slots[index]? = some slot → slots'[index]? = some slot' →
        Fills prescribes param slot slot') : s.Completes prescribes args args' := by
  have hlength := length_resolve h
  have hlength' := length_resolve h'
  constructor
  · intro index v hv
    rw [← getElem?_resolve h] at hv
    rw [← getElem?_resolve h']
    obtain ⟨hlt, -⟩ := List.getElem?_eq_some_iff.mp hv
    have hslot' := List.getElem?_eq_getElem (show index < slots'.length by omega)
    have hfill := hfills index _ _ _
      (List.getElem?_eq_getElem (show index < s.params.length by omega)) hv hslot'
    rw [hslot']
    -- a slot that was filled stays as it is
    generalize slots'[index] = slot' at hfill
    cases hfill with
    | supplied v => rfl
  · intro index param rule hparam hrule homitted
    obtain ⟨hlt, -⟩ := List.getElem?_eq_some_iff.mp hparam
    have hslot := List.getElem?_eq_getElem (show index < slots.length by omega)
    have hslot' := List.getElem?_eq_getElem (show index < slots'.length by omega)
    have hfill := hfills index _ _ _ hparam hslot hslot'
    generalize slots[index] = slot at hfill hslot
    generalize slots'[index] = slot' at hfill hslot'
    cases hfill with
    | supplied v => exact absurd ((getElem?_resolve h index v).mp hslot) (homitted v)
    | @omitted rule' v hrule' hv =>
      obtain rfl : rule = rule' := Option.some.inj (hrule.symm.trans hrule')
      exact ⟨v, hv, (getElem?_resolve h' index v).mp hslot'⟩

/-- Nothing can be left out of a call if no parameter has a default. -/
theorem Completes.slots_eq {prescribes : DefaultRule → α → Prop} {args' : List (Argument α)}
    (hcompletes : s.Completes prescribes args args') (h : s.resolve args = .ok slots)
    (h' : s.resolve args' = .ok slots') (hnone : ∀ param ∈ s.params, param.default = none) :
    slots' = slots := by
  have hlength := length_resolve h
  have hlength' := length_resolve h'
  refine List.ext_getElem (by omega) fun index hlt' hlt => ?_
  have hparam := List.getElem?_eq_getElem (show index < s.params.length by omega)
  have hfills := hcompletes.fills h h' index hparam (List.getElem?_eq_getElem hlt)
    (List.getElem?_eq_getElem hlt')
  exact hfills.eq_of_default_eq_none (hnone _ (List.getElem_mem _))

/-! ## Receivers -/

/-- A receiver is asked for exactly by the members that are not static. -/
theorem checkReceiver_eq_ok {receiver : Option α} :
    s.checkReceiver receiver = .ok () ↔ s.isStatic = receiver.isNone := by
  unfold checkReceiver
  cases s.isStatic <;> cases receiver <;> simp

theorem checkReceiver_of_not {receiver : Option α} (h : s.isStatic ≠ receiver.isNone) :
    s.checkReceiver receiver =
      .error (if s.isStatic then .unexpectedReceiver else .missingReceiver) := by
  unfold checkReceiver
  cases hstatic : s.isStatic <;> cases receiver <;> simp [hstatic] at h ⊢

end Signature

/-! ## Calls that are built -/

namespace Operation

/-- The expressions of calls: which operand of an operation is the receiver, and which stand in the
slots. -/
inductive Builds (k : Kind) :
    Operation → Option Local → List (Option Local) → Bridge.Expr → Prop
  | construct {size : Local} {element : Option Local} :
    Builds k .construct none [some size, element] (.call k (.construct size element))
  | get {array index : Local} :
    Builds k .get (some array) [some index] (.call k (.get array index))
  | set {array index value : Local} :
    Builds k .set (some array) [some index, some value] (.call k (.set array index value))
  | length {array : Local} : Builds k .length (some array) [] (.call k (.length array))
  | copyTo {source destination : Local} {sourceOffset destinationOffset count : Option Local} :
    Builds k .copyTo (some source) [some destination, sourceOffset, destinationOffset, count]
      (.call k (.copyTo source destination sourceOffset destinationOffset count))
  | toGenericView {array : Local} :
    Builds k .toGenericView (some array) [] (.call k (.toGenericView array))
  | fromGenericView {sequence : Local} :
    Builds k .fromGenericView none [some sequence] (.call k (.fromGenericView sequence))
  | reifiedType {value : Local} : Builds k .reifiedType (some value) [] (.typeOf value)

variable {op : Operation} {k : Kind} {receiver : Option Local} {slots : List (Option Local)}
  {expr : Bridge.Expr}

/-- The expression of a call is read off the receiver and the slots. -/
theorem run_expr_of_builds (h : Builds k op receiver slots expr) :
    (op.expr k receiver).run' slots = .ok expr := by
  cases h <;> rfl

/-- There is an expression of every resolved call that has a receiver exactly if it needs one. -/
theorem exists_builds {args : List (Argument Local)}
    (hreceiver : op.signature.isStatic = receiver.isNone)
    (h : op.signature.resolve args = .ok slots) : ∃ expr, Builds k op receiver slots expr := by
  -- there is one slot for each parameter, and a required one is filled
  have hfilled := Signature.forall₂_filled_of_resolve h
  cases receiver with
  | none =>
    cases op with
    | construct =>
      rcases hfilled with _ | ⟨hsize, _ | ⟨-, _ | _⟩⟩
      obtain ⟨size, rfl⟩ := Option.ne_none_iff_exists'.mp (hsize rfl)
      exact ⟨_, .construct⟩
    | fromGenericView =>
      rcases hfilled with _ | ⟨hsequence, _ | _⟩
      obtain ⟨sequence, rfl⟩ := Option.ne_none_iff_exists'.mp (hsequence rfl)
      exact ⟨_, .fromGenericView⟩
    | _ => cases hreceiver
  | some l =>
    cases op with
    | construct | fromGenericView => cases hreceiver
    | get =>
      rcases hfilled with _ | ⟨hindex, _ | _⟩
      obtain ⟨index, rfl⟩ := Option.ne_none_iff_exists'.mp (hindex rfl)
      exact ⟨_, .get⟩
    | set =>
      rcases hfilled with _ | ⟨hindex, _ | ⟨hvalue, _ | _⟩⟩
      obtain ⟨index, rfl⟩ := Option.ne_none_iff_exists'.mp (hindex rfl)
      obtain ⟨value, rfl⟩ := Option.ne_none_iff_exists'.mp (hvalue rfl)
      exact ⟨_, .set⟩
    | copyTo =>
      rcases hfilled with _ | ⟨hdestination, _ | ⟨-, _ | ⟨-, _ | ⟨-, _ | _⟩⟩⟩⟩
      obtain ⟨destination, rfl⟩ := Option.ne_none_iff_exists'.mp (hdestination rfl)
      exact ⟨_, .copyTo⟩
    | length =>
      cases hfilled
      exact ⟨_, .length⟩
    | toGenericView =>
      cases hfilled
      exact ⟨_, .toGenericView⟩
    | reifiedType =>
      cases hfilled
      exact ⟨_, .reifiedType⟩

/-- The receiver and the slots of a call that is built. -/
theorem exists_slots_of_build {args : List (Argument Local)}
    (h : op.build k receiver args = .ok expr) :
    ∃ slots, op.signature.resolve args = .ok slots ∧ Builds k op receiver slots expr := by
  rw [build] at h
  obtain ⟨_, hreceiver, h⟩ := bind_eq_ok.mp h
  obtain ⟨slots, hslots, h⟩ := bind_eq_ok.mp h
  have hslots := Check.mapError_eq_ok.mp hslots
  refine ⟨slots, hslots, ?_⟩
  -- what is built from these slots is built in one way only
  obtain ⟨found, hfound⟩ := exists_builds (k := k)
    (Signature.checkReceiver_eq_ok.mp (Check.mapError_eq_ok.mp hreceiver)) hslots
  rw [run_expr_of_builds hfound] at h
  injection h with h
  exact h ▸ hfound

end Operation

end ArrayBridge
