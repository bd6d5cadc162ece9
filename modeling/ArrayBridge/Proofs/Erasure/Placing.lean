import ArrayBridge.Erasure.Placement
import ArrayBridge.Proofs.Erased.Runs
import ArrayBridge.Proofs.Erasure.Plans

/-!
# Placed code is well typed

Whatever erasure has placed reads only locals that are bound before, at types that their uses
demand, and declares each binding at the type of its expression, tuples apart, whose declared types
are not checked. The invariant `Placement.Typed` ties the three tables of a placement together; it
carries along whatever is known of the declared types of tuples.

Main results:

* `Typed.accepts_of_plans` — the plan of a binding fits what has been placed before it.
* `Typed.code`, `Typed.erase` — placing a plan that fits keeps the invariant.
* `Typed.eraseAll` — everything that erasure places keeps it.
* `typed_of_erase` — so an erased program is well typed.
-/

namespace ArrayBridge.Erasure

open ArrayBridge.Erased (EachBinding Head Role)

/-! ## Uses of generic values -/

namespace GenericUse

/-- The role of the generic value. -/
def role : GenericUse → Role
  | size | get _ | set .. | copy _ => .sequence
  | typeTest _ | typeOf => .reified

/-- The other operands. -/
def others : GenericUse → List (Role × Local)
  | size | typeTest _ | typeOf | copy _ => []
  | get index => [(.integer, index)]
  | set index value => [(.integer, index), (.element, value)]

/-- The type of the value. -/
def type : GenericUse → Erased.Ty
  | size => .integer
  | get _ => .object .anything
  | set .. => .unit
  | typeTest _ => .prim .boolean
  | typeOf => .descriptor
  | copy k => .array k

/-- A generic operation has its sequence as an operand, and the others. -/
theorem operands_expr (use : GenericUse) (l : Local) :
    (use.expr l).operands = (use.role, l) :: use.others := by
  cases use <;> rfl

theorem type?_expr (use : GenericUse) (l : Local) (types : List Erased.Ty) :
    (use.expr l).type? types = some use.type := by
  cases use <;> rfl

theorem admits_object (use : GenericUse) : use.role.Admits .object := by
  cases use <;> simp [role, Role.Admits]

end GenericUse

/-! ## The invariant -/

namespace Placement

/-- The declared types of the placed bindings. -/
def types (p : Placement) : List Erased.Ty := p.bindings.map Erased.Binding.type

/-- Whether an erased local is bound at a type of the given form. -/
def HasHead (p : Placement) (l : Local) (h : Head) : Prop :=
  ∃ t, p.types[l]? = some t ∧ t.head = h

variable (tuples : List Erased.Ty → Erased.Binding → Prop)

/-- Whether the declared type of a binding fits, or the binding puts a tuple together and is as
tuples are known to be. -/
def FitsOrTuple (types : List Erased.Ty) (b : Erased.Binding) : Prop :=
  b.expr.IsTuple ∧ tuples types b ∨ b.Fits types

/-- The three tables of a placement agree. -/
structure Typed (p : Placement) : Prop where
  operands : EachBinding (fun types b => b.expr.OperandsTyped types) p.bindings
  fits : EachBinding (FitsOrTuple tuples) p.bindings
  /-- What stands for a bridge local is declared at what its type becomes, up to object types. -/
  scope : ∀ b ∈ p.scope, ∃ t, p.types[b.erased]? = some t ∧
    t.plain = (Erased.Ty.ofBridge b.binding.type).plain
  /-- An adapter is declared at an object type. -/
  adapters : ∀ a ∈ p.adapters, p.HasHead a.2 .object

/-- The placement has grown: more bindings and adapters, the same scope. -/
structure Grows (p p' : Placement) : Prop where
  bindings : p.bindings <+: p'.bindings
  scope : p'.scope = p.scope

variable {tuples} {p p' : Placement}

theorem Grows.refl (p : Placement) : p.Grows p := ⟨List.prefix_refl _, rfl⟩

/-- Placing in two steps grows in two steps. -/
theorem Grows.trans {p'' : Placement} (h : p.Grows p') (h' : p'.Grows p'') : p.Grows p'' :=
  ⟨h.bindings.trans h'.bindings, h'.scope.trans h.scope⟩

theorem Grows.exists_types (h : p.Grows p') : ∃ more, p'.types = p.types ++ more := by
  obtain ⟨more, hmore⟩ := h.bindings
  exact ⟨more.map Erased.Binding.type, by rw [types, types, ← hmore, List.map_append]⟩

/-- A local keeps its type when more is placed. -/
theorem Grows.types_eq {l : Local} {t : Erased.Ty} (h : p.Grows p')
    (hl : p.types[l]? = some t) : p'.types[l]? = some t := by
  obtain ⟨more, hmore⟩ := h.exists_types
  rw [hmore]
  exact getElem?_append_of_eq_some hl

theorem Grows.hasHead {l : Local} {h : Head} (hgrows : p.Grows p') (hl : p.HasHead l h) :
    p'.HasHead l h := by
  obtain ⟨t, ht, hhead⟩ := hl
  exact ⟨t, hgrows.types_eq ht, hhead⟩

/-- What stands for a bridge local is of the form that its type becomes. -/
theorem Typed.hasHead_of_binds {l e : Local} {t : Bridge.Ty} (hp : p.Typed tuples)
    (h : p.scope.Binds l t e) : p.HasHead e (Erased.Ty.ofBridge t).head := by
  obtain ⟨b, hb, rfl, rfl⟩ := h
  obtain ⟨t, ht, hplain⟩ := hp.scope b (List.mem_of_getElem? hb)
  exact ⟨t, ht, Erased.Ty.head_eq_of_plain_eq hplain⟩

/-! ## Plans that fit -/

/-- Whether operands are bound at types whose forms their roles admit. -/
def Admits (p : Placement) (operands : List (Role × Local)) : Prop :=
  ∀ role l, (role, l) ∈ operands → ∃ h, p.HasHead l h ∧ role.Admits h

theorem admits_nil : p.Admits [] := fun _ _ h => by cases h

theorem admits_cons {role : Role} {l : Local} {rest : List (Role × Local)} {h : Head}
    (hl : p.HasHead l h) (hrole : role.Admits h) (hrest : p.Admits rest) :
    p.Admits ((role, l) :: rest) := by
  intro role' l' hmem
  rcases List.mem_cons.mp hmem with heq | hmem
  · injection heq with hr hl'
    exact ⟨h, hl' ▸ hl, hr ▸ hrole⟩
  · exact hrest role' l' hmem

theorem admits_append {xs ys : List (Role × Local)} (hxs : p.Admits xs) (hys : p.Admits ys) :
    p.Admits (xs ++ ys) := by
  intro role l hmem
  rcases List.mem_append.mp hmem with h | h
  · exact hxs role l h
  · exact hys role l h

/-- Operands that are admitted stay so when more is placed. -/
theorem Admits.grows {operands : List (Role × Local)} (h : p.Admits operands)
    (hgrows : p.Grows p') : p'.Admits operands := by
  intro role l hmem
  obtain ⟨hd, hl, hadm⟩ := h role l hmem
  exact ⟨hd, hgrows.hasHead hl, hadm⟩

/-- The operands of an expression have the types that their roles ask for exactly when the placement
admits them. -/
theorem operandsTyped_iff {e : Erased.Expr} :
    e.OperandsTyped p.types ↔ p.Admits e.operands := by
  constructor
  · intro h role l hmem
    obtain ⟨t, ht, hadm⟩ := h role l hmem
    exact ⟨t.head, ⟨t, ht, rfl⟩, hadm⟩
  · intro h role l hmem
    obtain ⟨_, ⟨t, ht, rfl⟩, hadm⟩ := h role l hmem
    exact ⟨t, ht, hadm⟩

/-- Whether a generic value may play a role: an adapter may play every role that an object may. -/
def Offers (p : Placement) (role : Role) : Generic → Prop
  | .plain l => ∃ h, p.HasHead l h ∧ role.Admits h
  | .adapted source => p.HasHead source.array (.array source.kind)

/-- Whether a plan may be placed next: its operands are bound at the types that it demands, and its
declared type fits. -/
def Accepts (tuples : List Erased.Ty → Erased.Binding → Prop) (p : Placement) : Plan → Prop
  | .bind type expr => p.Admits expr.operands ∧ FitsOrTuple tuples p.types ⟨type, expr⟩
  | .use type operand use =>
    p.Offers use.role operand ∧ p.Admits use.others ∧ use.type.plain = type.plain
  | .adapt source => p.HasHead source.array (.array source.kind)
  | .adaptFresh k array =>
    p.Admits array.operands ∧ (⟨.array k, array⟩ : Erased.Binding).Fits p.types

end Placement

/-- The type that the erased local of a plan is declared at, up to object types. -/
def Plan.type : Plan → Erased.Ty
  | .bind type _ | .use type _ _ => type
  | .adapt _ | .adaptFresh .. => .object .anything

/-! ## The plans of bindings fit -/

/-- An erased local is declared at what the type of a bridge local becomes, up to object types. -/
def Represents (before : List Bridge.Binding) (types : List Erased.Ty) (l e : Local) : Prop :=
  ∃ b t, before[l]? = some b ∧ types[e]? = some t ∧ t.plain = (Erased.Ty.ofBridge b.type).plain

/-- If a binding puts a tuple together, then the erased tuple is as tuples are known to be. -/
def TupleKnown (tuples : List Erased.Ty → Erased.Binding → Prop) (before : List Bridge.Binding)
    (b : Bridge.Binding) : Prop :=
  ∀ items, b.expr = .tuple items → ∀ types es, List.Forall₂ (Represents before types) items es →
    tuples types ⟨.ofBridge b.type, .tuple es⟩

namespace Placement

open Scope (MaySequence MayElement)

variable {tuples : List Erased.Ty → Erased.Binding → Prop} {p p' : Placement}

/-- Only a wrapper becomes a native array. -/
theorem head_ofBridge_ne_array {t : Bridge.Ty} (h : ∀ k, t ≠ .wrapper k) (k : Kind) :
    (Erased.Ty.ofBridge t).head ≠ .array k := by
  cases t with
  | wrapper l => exact absurd rfl (h l)
  | _ => simp [Erased.Ty.ofBridge, Erased.Ty.head]

/-- What stands for a local of a type may be used as a sequence if the type allows it. -/
theorem Typed.offers_sequence {l : Local} {t : Bridge.Ty} {q : Generic} (hp : p.Typed tuples)
    (hq : p.scope.Stands l t q) (ht : MaySequence t) : p.Offers .sequence q := by
  cases hq with
  | adapted h => exact hp.hasHead_of_binds h
  | plain h hne =>
    -- a wrapper does not stand as it is, so the type is an object type
    rcases ht with ⟨k, rfl⟩ | ⟨d, rfl⟩
    · exact absurd rfl (hne k)
    · exact ⟨.object, hp.hasHead_of_binds h, rfl⟩

/-- What stands for a local may be asked for its type, whatever the type of the local. -/
theorem Typed.offers_reified {l : Local} {t : Bridge.Ty} {q : Generic} (hp : p.Typed tuples)
    (hq : p.scope.Stands l t q) : p.Offers .reified q := by
  cases hq with
  | adapted h => exact hp.hasHead_of_binds h
  | plain h hne => exact ⟨_, hp.hasHead_of_binds h, head_ofBridge_ne_array hne⟩

/-- The value of a set is a primitive one or an object. -/
theorem Typed.admits_element {l e : Local} {t : Bridge.Ty} (hp : p.Typed tuples)
    (h : p.scope.Binds l t e) (ht : MayElement t) : p.Admits [(.element, e)] := by
  refine admits_cons (hp.hasHead_of_binds h) ?_ admits_nil
  rcases ht with ⟨k, rfl⟩ | ⟨d, rfl⟩
  · exact .inr ⟨k, rfl⟩
  · exact .inl rfl

theorem Typed.admits_integer {l e : Local} (hp : p.Typed tuples) (h : p.scope.Binds l .integer e) :
    p.Admits [(.integer, e)] :=
  admits_cons (hp.hasHead_of_binds h) rfl admits_nil

/-- An offset that is a local is an integer. -/
theorem Typed.admits_offset {l : Option Local} {o : Erased.Operand} (hp : p.Typed tuples)
    (h : p.scope.Offset l o) : p.Admits o.operands := by
  cases h with
  | omitted => exact admits_nil
  | given h => exact hp.admits_integer h

/-- So is a length. -/
theorem Typed.admits_length {l : Option Local} {n : Erased.CopyLength} (hp : p.Typed tuples)
    (h : p.scope.Length l n) : p.Admits n.operands := by
  cases h with
  | omitted => exact admits_nil
  | given h => exact hp.admits_integer h

/-- A bound local has the erased type of its declared one. -/
theorem Typed.represents {l e : Local} {t : Bridge.Ty} (hp : p.Typed tuples)
    (h : p.scope.Binds l t e) : Represents (p.scope.map Bound.binding) p.types l e := by
  obtain ⟨b, hb, rfl, rfl⟩ := h
  obtain ⟨u, hu, hplain⟩ := hp.scope b (List.mem_of_getElem? hb)
  exact ⟨b.binding, u, by rw [List.getElem?_map, hb, Option.map_some], hu, hplain⟩

/-- Items of a tuple may be of any type. -/
theorem Typed.admits_items {items es : List Local} (hp : p.Typed tuples)
    (h : List.Forall₂ (fun l e => ∃ t, p.scope.Binds l t e) items es) :
    p.Admits (es.map (.value, ·)) := by
  induction h with
  | nil => exact admits_nil
  | cons hl _ ih =>
    obtain ⟨t, ht⟩ := hl
    exact admits_cons (hp.hasHead_of_binds ht) trivial ih

/-- The expression that constructs an array fits the type of the array. -/
theorem Typed.constructs {k : Kind} {size : Local} {element : Option Local} {array : Erased.Expr}
    (hp : p.Typed tuples) (h : p.scope.ConstructsArray k size element array) :
    p.Admits array.operands ∧ (⟨.array k, array⟩ : Erased.Binding).Fits p.types := by
  cases h with
  | bare hsize | zero hsize => exact ⟨hp.admits_integer hsize, by rintro _ ⟨⟩; rfl⟩
  | fill hsize hl =>
    refine ⟨?_, by rintro _ ⟨⟩; rfl⟩
    exact admits_cons (hp.hasHead_of_binds hsize) rfl (admits_cons (hp.hasHead_of_binds hl) rfl
      admits_nil)

/-- The plan of a binding fits what has been placed before it. -/
theorem Typed.accepts_of_plans {b : Bridge.Binding} {plan : Plan} (hp : p.Typed tuples)
    (htuple : TupleKnown tuples (p.scope.map Bound.binding) b)
    (h : p.scope.Plans b.type b.expr plan) :
    p.Accepts tuples plan ∧ plan.type.plain = (Erased.Ty.ofBridge b.type).plain := by
  have harray : ∀ {k l e}, p.scope.Binds l (.wrapper k) e → p.HasHead e (.array k) :=
    hp.hasHead_of_binds
  obtain ⟨t, expr⟩ := b
  dsimp only at h ⊢
  -- every plan: the roles of its operands, and the type of its last expression
  cases h with
  | var h =>
    refine ⟨⟨admits_cons (hp.hasHead_of_binds h) trivial admits_nil, .inr ?_⟩, rfl⟩
    -- the type of a local is the declared one, which the check compared
    obtain ⟨_, u, hb, hu, hplain⟩ := hp.represents h
    obtain ⟨b, hb', rfl, -⟩ := h
    rw [List.getElem?_map, hb', Option.map_some] at hb
    injection hb with hb
    intro u' hu'
    rw [Erased.Expr.type?, hu] at hu'
    injection hu' with hu'
    rw [← hu', hplain, hb]
  | view h | toGenericView h => exact ⟨harray h, rfl⟩
  | intLit | primLit | staticTest | sequenceLit =>
    exact ⟨⟨admits_nil, .inr (by rintro _ ⟨⟩; rfl)⟩, rfl⟩
  | reflective => exact ⟨⟨admits_nil, .inr (by rintro _ ⟨⟩)⟩, rfl⟩
  | tuple h =>
    -- nothing compares the declared type of a tuple with its items
    refine ⟨⟨hp.admits_items h, .inl ⟨trivial, htuple _ rfl _ _ (h.imp ?_)⟩⟩, rfl⟩
    rintro l e ⟨t, ht⟩
    exact hp.represents ht
  | construct h =>
    obtain ⟨hadm, hfits⟩ := hp.constructs h
    exact ⟨⟨hadm, .inr hfits⟩, rfl⟩
  | constructView h => exact ⟨hp.constructs h, rfl⟩
  | get ha hi =>
    refine ⟨⟨?_, .inr (by rintro _ ⟨⟩; rfl)⟩, rfl⟩
    exact admits_cons (harray ha) rfl (hp.admits_integer hi)
  | set ha hi hv =>
    refine ⟨⟨?_, .inr (by rintro _ ⟨⟩; rfl)⟩, rfl⟩
    exact admits_cons (harray ha) rfl (admits_cons (hp.hasHead_of_binds hi) rfl
      (admits_cons (hp.hasHead_of_binds hv) rfl admits_nil))
  | length ha =>
    exact ⟨⟨admits_cons (harray ha) rfl admits_nil, .inr (by rintro _ ⟨⟩; rfl)⟩, rfl⟩
  | copyTo hs hd hso hdof hn =>
    refine ⟨⟨?_, .inr (by rintro _ ⟨⟩; rfl)⟩, rfl⟩
    exact admits_append (admits_cons (harray hs) rfl (admits_append (hp.admits_offset hso)
      (admits_cons (harray hd) rfl (hp.admits_offset hdof)))) (hp.admits_length hn)
  | fromGenericView hq ht | genericSize hq ht =>
    exact ⟨⟨hp.offers_sequence hq ht, admits_nil, rfl⟩, rfl⟩
  | genericGet hq ht hi =>
    exact ⟨⟨hp.offers_sequence hq ht, hp.admits_integer hi, rfl⟩, rfl⟩
  | genericSet hq ht hi hv hu =>
    refine ⟨⟨hp.offers_sequence hq ht, ?_, rfl⟩, rfl⟩
    exact admits_cons (hp.hasHead_of_binds hi) rfl (hp.admits_element hv hu)
  | typeTest hq | typeOf hq => exact ⟨⟨hp.offers_reified hq, admits_nil, rfl⟩, rfl⟩

/-! ## Placing code -/

/-- Code has been placed after `p`: the invariant holds again, and `l` is bound at type `t`, up to
object types. -/
structure Placed (tuples : List Erased.Ty → Erased.Binding → Prop) (p : Placement)
    (t : Erased.Ty) (l : Local) (p' : Placement) : Prop where
  typed : p'.Typed tuples
  grows : p.Grows p'
  bound : ∃ u, p'.types[l]? = some u ∧ u.plain = t.plain

theorem Placed.hasHead {t : Erased.Ty} {l : Local} (h : p.Placed tuples t l p') :
    p'.HasHead l t.head := by
  obtain ⟨u, hu, hplain⟩ := h.bound
  exact ⟨u, hu, Erased.Ty.head_eq_of_plain_eq hplain⟩

/-- What has grown before a binding is placed has grown after it. -/
theorem Placed.of_grows {p'' : Placement} {t : Erased.Ty} {l : Local} (hgrows : p.Grows p')
    (h : p'.Placed tuples t l p'') : p.Placed tuples t l p'' :=
  ⟨h.typed, hgrows.trans h.grows, h.bound⟩

theorem emit_grows (p : Placement) (t : Erased.Ty) (e : Erased.Expr) :
    p.Grows (p.emit t e).2 :=
  ⟨⟨_, rfl⟩, rfl⟩

/-- A binding adds its own type. -/
theorem types_emit (p : Placement) (t : Erased.Ty) (e : Erased.Expr) :
    (p.emit t e).2.types = p.types ++ [t] := by
  simp [emit, types]

/-- A binding whose operands are admitted and whose type fits keeps the placement typed. -/
theorem Typed.emit {t : Erased.Ty} {e : Erased.Expr} (hp : p.Typed tuples)
    (hadm : p.Admits e.operands) (hfits : FitsOrTuple tuples p.types ⟨t, e⟩) :
    p.Placed tuples t (p.emit t e).1 (p.emit t e).2 := by
  have hgrows := emit_grows p t e
  refine ⟨⟨hp.operands.concat (operandsTyped_iff.mpr hadm), hp.fits.concat hfits, ?_, ?_⟩,
    hgrows, t, ?_, rfl⟩
  · intro b hb
    obtain ⟨u, hu, hplain⟩ := hp.scope b hb
    exact ⟨u, hgrows.types_eq hu, hplain⟩
  · exact fun a ha => hgrows.hasHead (hp.adapters a ha)
  · rw [types_emit, Placement.emit, ← List.length_map (f := Erased.Binding.type)]
    exact List.getElem?_concat_length

variable {policy : AdapterPolicy}

/-- An adapter that may be shared is one that has been made. -/
theorem mem_of_adapter? {source l : Local} (h : p.adapter? policy source = some l) :
    (source, l) ∈ p.adapters := by
  cases policy with
  | perUse => cases h
  | shared =>
    obtain ⟨before, after, heq, -⟩ := List.lookup_eq_some_iff.mp h
    rw [heq]
    exact List.mem_append_right before List.mem_cons_self

/-- Object types are all alike once descriptors are forgotten. -/
theorem plain_of_head_object {t : Erased.Ty} (h : t.head = .object) :
    t.plain = (Erased.Ty.object .anything).plain := by
  cases t with
  | object d => rfl
  | _ => cases h

/-- An adapter is an object, whether it is new or one that was placed before. -/
theorem Typed.adapter (policy : AdapterPolicy) {source : ArraySource} (hp : p.Typed tuples)
    (h : p.HasHead source.array (.array source.kind)) :
    p.Placed tuples (.object .anything) (p.adapter policy source).1
      (p.adapter policy source).2 := by
  cases hmade : p.adapter? policy source.source with
  | some l =>
    -- the adapter that is used again is declared already
    obtain ⟨u, hu, hhead⟩ := hp.adapters _ (mem_of_adapter? hmade)
    simp only [Placement.adapter, hmade]
    exact ⟨hp, .refl p, u, hu, plain_of_head_object hhead⟩
  | none =>
    simp only [Placement.adapter, hmade]
    -- a fresh adapter becomes one of those that may be used again
    obtain ⟨htyped, hgrows, hbound⟩ := hp.emit (t := .object (.genericView source.kind))
      (e := .wrapAdapter source.kind source.array) (admits_cons h rfl admits_nil)
      (.inr (by rintro _ ⟨⟩; rfl))
    refine ⟨⟨htyped.operands, htyped.fits, htyped.scope, ?_⟩, ⟨hgrows.bindings, rfl⟩, hbound⟩
    intro a ha
    rcases List.mem_append.mp ha with ha | ha
    · exact htyped.adapters a ha
    · rw [List.mem_singleton.mp ha]
      obtain ⟨u, hu, hplain⟩ := hbound
      exact ⟨u, hu, Erased.Ty.head_eq_of_plain_eq hplain⟩

/-- What is placed for an operand may play the role of a generic value. -/
theorem Typed.generic (policy : AdapterPolicy) {role : Role} {operand : Generic}
    (hp : p.Typed tuples)
    (h : p.Offers role operand) (hrole : role.Admits .object) :
    (p.generic policy operand).2.Typed tuples ∧ p.Grows (p.generic policy operand).2 ∧
      ∃ h, (p.generic policy operand).2.HasHead (p.generic policy operand).1 h ∧
        role.Admits h := by
  cases operand with
  | plain l => exact ⟨hp, .refl p, h⟩
  | adapted source =>
    have hplaced := hp.adapter policy h
    exact ⟨hplaced.typed, hplaced.grows, .object, hplaced.hasHead, hrole⟩

/-- Placing a plan that fits keeps the invariant. -/
theorem Typed.code (policy : AdapterPolicy) {plan : Plan} (hp : p.Typed tuples)
    (h : p.Accepts tuples plan) :
    p.Placed tuples plan.type (p.code policy plan).1 (p.code policy plan).2 := by
  cases plan with
  | bind t e => exact hp.emit h.1 h.2
  | use t operand use =>
    obtain ⟨hoffers, hothers, htype⟩ := h
    obtain ⟨htyped, hgrows, hd, hhead, hadm⟩ := hp.generic policy hoffers
      use.admits_object
    -- the operand has grown the placement, so the others are looked up there
    refine .of_grows hgrows (htyped.emit ?_ (.inr ?_))
    · rw [GenericUse.operands_expr]
      exact admits_cons hhead hadm (hothers.grows hgrows)
    · intro u hu
      rw [GenericUse.type?_expr] at hu
      injection hu with hu
      exact hu ▸ htype
  | adapt source => exact hp.adapter policy h
  | adaptFresh k array =>
    have hfresh := hp.emit h.1 (.inr h.2)
    exact .of_grows hfresh.grows (hfresh.typed.adapter policy hfresh.hasHead)

/-- A binding is erased by placing its plan. -/
theorem erase_eq_ok {b : Bridge.Binding} :
    p.erase policy b = .ok p' ↔
      ∃ plan, p.scope.plan b.type b.expr = .ok plan ∧ p' = p.place policy b plan := by
  rw [Placement.erase]
  cases p.scope.plan b.type b.expr with
  | error fault => simp
  | ok plan => simp [eq_comm]

/-- Placing a binding keeps the invariant. -/
theorem Typed.erase {b : Bridge.Binding} (hp : p.Typed tuples)
    (htuple : TupleKnown tuples (p.scope.map Bound.binding) b)
    (h : p.erase policy b = .ok p') :
    p'.Typed tuples ∧ p'.scope.map Bound.binding = p.scope.map Bound.binding ++ [b] ∧
      p.bindings <+: p'.bindings := by
  obtain ⟨plan, hplan, rfl⟩ := erase_eq_ok.mp h
  obtain ⟨haccepts, htype⟩ := hp.accepts_of_plans htuple (Scope.plans_of_plan hplan)
  obtain ⟨htyped, hgrows, u, hu, hplain⟩ := hp.code policy haccepts
  -- only the scope is longer than after the code
  refine ⟨⟨htyped.operands, htyped.fits, ?_, htyped.adapters⟩, ?_, hgrows.bindings⟩
  · intro c hc
    rcases List.mem_append.mp hc with hc | hc
    · exact htyped.scope c hc
    · rw [List.mem_singleton.mp hc]
      exact ⟨u, hu, hplain.trans htype⟩
  · rw [place]
    simp only [hgrows.scope, List.map_append, List.map_cons, List.map_nil]

theorem typed_empty : empty.Typed tuples :=
  ⟨.nil, .nil, fun _ h => by simp [empty] at h, fun _ h => by simp [empty] at h⟩

/-- Everything that erasure places is well typed. -/
theorem Typed.eraseAll {bs : List Bridge.Binding} (hp : p.Typed tuples)
    (htuple : ∀ before b after, bs = before ++ b :: after →
      TupleKnown tuples (p.scope.map Bound.binding ++ before) b)
    (h : p.eraseAll policy bs = .ok p') :
    p'.Typed tuples ∧ p'.scope.map Bound.binding = p.scope.map Bound.binding ++ bs ∧
      p.bindings <+: p'.bindings := by
  -- the step above, for one binding after another
  induction bs generalizing p with
  | nil =>
    injection h with h
    exact ⟨h ▸ hp, by rw [h, List.append_nil], h ▸ List.prefix_refl _⟩
  | cons b bs ih =>
    obtain ⟨p₁, hb, h⟩ := Check.bind_eq_ok.mp h
    have htupleB := htuple [] b bs rfl
    rw [List.append_nil] at htupleB
    obtain ⟨htyped, hscope, hprefix⟩ := hp.erase htupleB hb
    -- the tuples that are left are known after one more binding
    have htupleRest : ∀ before c after, bs = before ++ c :: after →
        TupleKnown tuples (p₁.scope.map Bound.binding ++ before) c := by
      intro before c after hbs
      rw [hscope, List.append_assoc]
      exact htuple (b :: before) c after (by rw [hbs, List.cons_append])
    obtain ⟨htyped', hscope', hprefix'⟩ := ih htyped htupleRest h
    rw [hscope, List.append_assoc] at hscope'
    exact ⟨htyped', hscope', hprefix.trans hprefix'⟩

end Placement

/-! ## Erased programs -/

/-- A program reads locals only after they are bound, at types that their uses demand, and declares
them at types that fit. -/
structure ProgramTyped (tuples : List Erased.Ty → Erased.Binding → Prop) (e : Erased.Program) :
    Prop where
  operands : EachBinding (fun types b => b.expr.OperandsTyped types) e.bindings
  fits : EachBinding (Placement.FitsOrTuple tuples) e.bindings
  result : e.result < e.bindings.length

/-- A program is erased by placing its bindings, and what stands for its result is returned. -/
theorem exists_placement_of_erase {policy : AdapterPolicy} {p : Bridge.Program}
    {e : Erased.Program} (h : p.erase policy = .ok e) :
    ∃ placed b, Placement.empty.eraseAll policy p.bindings = .ok placed ∧
      placed.scope[p.result]? = some b ∧ e = ⟨placed.bindings, b.erased⟩ := by
  cases hplaced : Placement.empty.eraseAll policy p.bindings with
  | error error =>
    rw [Bridge.Program.erase, hplaced] at h
    cases h
  | ok placed =>
    rw [Bridge.Program.erase, hplaced] at h
    cases hb : placed.scope[p.result]? with
    | none =>
      simp only [bind, Except.bind, hb] at h
      cases h
    | some b =>
      simp only [bind, Except.bind, hb, pure, Except.pure, Except.ok.injEq] at h
      exact ⟨placed, b, rfl, hb, h.symm⟩

/-- Erasure starts from nothing and keeps the placement typed, so the whole program is. -/
theorem typed_of_erase {tuples : List Erased.Ty → Erased.Binding → Prop}
    {policy : AdapterPolicy} {p : Bridge.Program} {e : Erased.Program}
    (htuple : ∀ before b after, p.bindings = before ++ b :: after → TupleKnown tuples before b)
    (h : p.erase policy = .ok e) : ProgramTyped tuples e := by
  obtain ⟨placed, b, hplaced, hb, rfl⟩ := exists_placement_of_erase h
  obtain ⟨htyped, -⟩ := Placement.typed_empty.eraseAll htuple hplaced
  refine ⟨htyped.operands, htyped.fits, ?_⟩
  -- the result stands for a bound local
  obtain ⟨t, ht, -⟩ := htyped.scope b (List.mem_of_getElem? hb)
  have hlt := (List.getElem?_eq_some_iff.mp ht).1
  rwa [Placement.types, List.length_map] at hlt

/-- Whatever tuples are declared as, all else is well typed. -/
theorem typed_up_to_tuples_of_erase {policy : AdapterPolicy} {p : Bridge.Program}
    {e : Erased.Program} (h : p.erase policy = .ok e) : ProgramTyped (fun _ _ => True) e :=
  typed_of_erase (fun _ _ _ _ _ _ _ _ _ => trivial) h

end ArrayBridge.Erasure
