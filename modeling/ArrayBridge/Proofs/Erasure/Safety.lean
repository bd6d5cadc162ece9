import ArrayBridge.Proofs.Erasure.Placing

/-!
# Safety of erased programs

The values that an erased program binds inhabit the types that it declares, if its tuples do, and
it never gets stuck on a local that is missing or of the wrong form. Erasure does not check the
declared type of a tuple, so tuples are where either may fail.

Main results:

* `inhabit_iff_of_erase` — the values that are bound inhabit the declared types exactly if every
  tuple that is reached is declared as a tuple of the types of its items.
* `safe_of_erase` — if every tuple is declared as some tuple, an erased program does not go wrong.
-/

namespace ArrayBridge

open ArrayBridge.Erased (EachBinding Head Role)
open ArrayBridge.Erasure (TupleKnown Represents ProgramTyped typed_of_erase
  typed_up_to_tuples_of_erase)

/-! ## Declared types of tuples -/

/-- Whether every tuple of a bridge program is declared at some tuple type. -/
def Bridge.Program.TuplesAreTuples (p : Bridge.Program) : Prop :=
  ∀ b ∈ p.bindings, ∀ items, b.expr = .tuple items → ∃ ts, b.type = .tuple ts

/-- What is known of the tuples of an erased program then. -/
def Erasure.AtTupleType (_ : List Erased.Ty) (b : Erased.Binding) : Prop := b.type.head = .tuple

/-- A tuple that is declared at a tuple type is known to be one. -/
theorem Erasure.tupleKnown_of_tuple {before : List Bridge.Binding} {b : Bridge.Binding}
    (h : ∀ items, b.expr = .tuple items → ∃ ts, b.type = .tuple ts) :
    TupleKnown Erasure.AtTupleType before b := by
  intro items hitems types es _
  obtain ⟨ts, hts⟩ := h items hitems
  rw [hts]
  rfl

/-- Whether a tuple is declared as a tuple of the types of its items, up to object types. -/
def Erased.Binding.DeclaresItems (types : List Erased.Ty) (b : Erased.Binding) : Prop :=
  ∀ items, b.expr = .tuple items →
    ∃ ts, items.mapM (types[·]?) = some ts ∧ b.type.plain = (Erased.Ty.tuple ts).plain

/-- Whether every tuple of a bridge program is declared as a tuple of the types of its items, up
to object types. -/
def Bridge.Program.TuplesDeclareItems (p : Bridge.Program) : Prop :=
  ∀ before b after, p.bindings = before ++ b :: after → ∀ items, b.expr = .tuple items →
    ∃ ts, items.mapM ((before.map Bridge.Binding.type)[·]?) = some ts ∧
      (Erased.Ty.ofBridge b.type).plain = (Erased.Ty.ofBridge (.tuple ts)).plain

namespace Erased

/-- A binding that fits declares its items, if they are bound. -/
theorem Binding.declaresItems_of_fits {types : List Ty} {b : Binding} (hfits : b.Fits types)
    (htyped : b.expr.OperandsTyped types) : b.DeclaresItems types := by
  intro items hitems
  have hbound : ∀ l ∈ items, ∃ t, types[l]? = some t := by
    intro l hl
    obtain ⟨t, ht, -⟩ := htyped .value l (by simpa [hitems, Expr.operands] using hl)
    exact ⟨t, ht⟩
  obtain ⟨ts, hts⟩ := exists_mapM_eq_some hbound
  refine ⟨ts, hts, (hfits (.tuple ts) ?_).symm⟩
  rw [hitems, Expr.type?, hts]
  rfl

/-- A tuple that declares its items fits. -/
theorem Binding.fits_of_declaresItems {types : List Ty} {b : Binding} (hb : b.DeclaresItems types)
    (htuple : b.expr.IsTuple) : b.Fits types := by
  cases hexpr : b.expr with
  | tuple items =>
    obtain ⟨ts, hts, hplain⟩ := hb items hexpr
    intro t ht
    rw [hexpr, Expr.type?, hts] at ht
    injection ht with ht
    rw [← ht, hplain]
  | _ => rw [hexpr] at htuple; cases htuple

end Erased

/-! ## Type preservation -/

namespace Bridge.Program

variable {policy : AdapterPolicy} {p : Bridge.Program} {e : Erased.Program}

/-- The items of an erased tuple are of the types that those of the bridge tuple become. -/
private theorem types_of_represents {before : List Bridge.Binding} {types us : List Erased.Ty}
    {items es : List Local} {ts : List Bridge.Ty}
    (h : List.Forall₂ (Represents before types) items es)
    (hts : List.Forall₂ (fun l t => (before.map Bridge.Binding.type)[l]? = some t) items ts)
    (hus : List.Forall₂ (fun l u => types[l]? = some u) es us) :
    us.map Erased.Ty.plain = (ts.map Erased.Ty.ofBridge).map Erased.Ty.plain := by
  induction h generalizing ts us with
  | nil =>
    cases hts
    cases hus
    rfl
  | cons hl _ ih =>
    obtain ⟨b, u, hb, hu, hplain⟩ := hl
    -- both lists of types are as long as the items
    cases hts with
    | cons ht hts =>
      cases hus with
      | cons hu' hus =>
        rw [List.getElem?_map, hb, Option.map_some] at ht
        injection ht with ht
        rw [hu] at hu'
        injection hu' with hu'
        rw [List.map_cons, List.map_cons, List.map_cons, ih hts hus, ← ht, ← hu', hplain]

/-- The tuples of an erased program are those of the bridge program: if they declare the types of
their items there, they fit here. -/
theorem TuplesDeclareItems.tupleKnown (h : p.TuplesDeclareItems) :
    ∀ before b after, p.bindings = before ++ b :: after →
      TupleKnown (fun types b => b.Fits types) before b := by
  intro before b after hbs items hitems types es hes
  obtain ⟨ts, hts, hplain⟩ := h before b after hbs items hitems
  intro t ht
  show t.plain = (Erased.Ty.ofBridge b.type).plain
  rw [Erased.Expr.type?] at ht
  cases hus : es.mapM (types[·]?) with
  | none => rw [hus] at ht; cases ht
  | some us =>
    rw [hus] at ht
    injection ht with ht
    have hitems := types_of_represents hes (mapM_eq_some_iff.mp hts)
      (mapM_eq_some_iff.mp hus)
    rw [hplain, ← ht, Erased.Ty.ofBridge, Erased.Ty.plain, Erased.Ty.plain,
      Erased.Ty.plainAll_eq_map, Erased.Ty.plainAll_eq_map, Erased.Ty.ofBridgeAll_eq_map, hitems]

/-- The values of an erased program inhabit their declared types exactly when its tuples declare
their items, and they do if the tuples of the bridge program do. -/
theorem inhabit_iff_of_erase (h : p.erase policy = .ok e) :
    (e.ValuesInhabit ↔ e.EachBound fun types b => b.DeclaresItems types) ∧
      (p.TuplesDeclareItems → e.ValuesInhabit) := by
  constructor
  · -- every binding fits except that nothing is known of tuples
    have htyped := typed_up_to_tuples_of_erase h
    rw [Erased.Program.valuesInhabit_iff]
    constructor
    · intro hfits before b after hbs hlt
      exact Erased.Binding.declaresItems_of_fits (hfits before b after hbs hlt)
        (htyped.operands before b after hbs)
    · intro hdeclares before b after hbs hlt
      rcases htyped.fits before b after hbs with ⟨htuple, -⟩ | hfits
      · exact Erased.Binding.fits_of_declaresItems (hdeclares before b after hbs hlt) htuple
      · exact hfits
  · intro htuples
    -- tuples that declare their items in the bridge program fit as well
    have htyped := typed_of_erase htuples.tupleKnown h
    refine Erased.Program.valuesInhabit_iff.mpr fun before b after hbs _ => ?_
    rcases htyped.fits before b after hbs with ⟨-, hfits⟩ | hfits <;> exact hfits

/-- The tuple of one integer, declared as what it is and as an integer: the first program keeps its
types, the second is erased as well and does not. -/
theorem inhabit_iff_of_erase_tuple :
    (erase .shared ⟨[⟨.integer, .intLit 5⟩, ⟨.tuple [.integer], .tuple [0]⟩], 1⟩ =
        .ok ⟨[⟨.integer, .intLit 5⟩, ⟨.tuple [.integer], .tuple [0]⟩], 1⟩ ∧
      Erased.Program.ValuesInhabit
        ⟨[⟨.integer, .intLit 5⟩, ⟨.tuple [.integer], .tuple [0]⟩], 1⟩) ∧
    erase .shared ⟨[⟨.integer, .intLit 5⟩, ⟨.integer, .tuple [0]⟩], 1⟩ =
        .ok ⟨[⟨.integer, .intLit 5⟩, ⟨.integer, .tuple [0]⟩], 1⟩ ∧
      ¬ Erased.Program.ValuesInhabit ⟨[⟨.integer, .intLit 5⟩, ⟨.integer, .tuple [0]⟩], 1⟩ := by
  have hpair : erase .shared ⟨[⟨.integer, .intLit 5⟩, ⟨.tuple [.integer], .tuple [0]⟩], 1⟩ =
      .ok ⟨[⟨.integer, .intLit 5⟩, ⟨.tuple [.integer], .tuple [0]⟩], 1⟩ := rfl
  have hwrong : erase .shared ⟨[⟨.integer, .intLit 5⟩, ⟨.integer, .tuple [0]⟩], 1⟩ =
      .ok ⟨[⟨.integer, .intLit 5⟩, ⟨.integer, .tuple [0]⟩], 1⟩ := rfl
  refine ⟨⟨hpair, (inhabit_iff_of_erase hpair).2 ?_⟩, hwrong, fun h => ?_⟩
  · intro before b after hbs items hitems
    rcases before with _ | ⟨_, _ | ⟨_, _⟩⟩ <;> simp at hbs
    · simp [← hbs.1] at hitems
    · obtain ⟨rfl, rfl, rfl⟩ := hbs
      injection hitems with hitems
      exact ⟨[.integer], by rw [← hitems]; rfl, rfl⟩
  · have hdeclares := (inhabit_iff_of_erase hwrong).1.mp h
    obtain ⟨ts, -, hplain⟩ := hdeclares [_] _ [] rfl (by decide) [0] rfl
    simp [Erased.Ty.plain] at hplain

end Bridge.Program

/-! ## Safety -/

namespace Erased

/-- A tuple that is declared at some tuple type has the form of its value. -/
theorem Binding.headFits_of_fitsOrTuple {types : List Ty} {b : Binding}
    (h : Erasure.Placement.FitsOrTuple Erasure.AtTupleType types b) :
    b.HeadFits types := by
  rcases h with ⟨htuple, hhead⟩ | hfits
  · intro t ht
    cases hexpr : b.expr with
    | tuple items =>
      rw [hexpr, Expr.type?] at ht
      obtain ⟨ts, -, rfl⟩ := Option.map_eq_some_iff.mp ht
      rw [hhead]
      rfl
    | _ => rw [hexpr] at htuple; cases htuple
  · exact hfits.headFits

namespace Program

/-- A failed run of a well typed program failed at a binding, in one of the ways left to it. -/
theorem remaining_of_run {e : Program} {error : RunError} {s : Store}
    (he : ProgramTyped Erasure.AtTupleType e) (h : e.run = .error error s) :
    ∃ before b after env, e.bindings = before ++ b :: after ∧
      env.map Value.head = (before.map Binding.type).map Ty.head ∧
      b.expr.Remaining env error := by
  have hfits : EachBinding Binding.HeadFits e.bindings :=
    he.fits.mono fun _ _ => Binding.headFits_of_fitsOrTuple
  have h : (evalBindings [] e.bindings >>= fun env => Action.lift (env.value e.result))
      Store.empty = .error error s := h
  -- a run fails at a binding, or at the result
  rcases Action.bind_eq_error.mp h with hfail | ⟨env, s₁, hrun, hresult⟩
  · obtain ⟨before, b, after, env, s₁, hbs, hbefore, hb⟩ := evalBindings_eq_error hfail
    have hheads := heads_of_evalBindings (.of_append (hbs ▸ hfits)) hbefore
    have hplay := Expr.operandsPlay_of_operandsTyped (he.operands before b after hbs) hheads
    exact ⟨before, b, after, env, hbs, hheads, Expr.remaining_of_eval hplay hb⟩
  · -- the result is bound, so reading it does not fail
    have hlength : env.length = e.bindings.length := by simpa using length_of_evalBindings hrun
    obtain ⟨v, hv⟩ : ∃ v, env[e.result]? = some v :=
      ⟨_, List.getElem?_eq_getElem (hlength ▸ he.result)⟩
    rw [Env.value_eq_ok.mpr hv] at hresult
    cases hresult

/-- The failures at run time that typing does not rule out: an object that is no sequence or no
element where one is needed, and a type test or query of a value that has no type of its own. -/
inductive LeavesOpen (e : Program) : Local → Expectation → Value.Shape → Prop
  | notSequence {l : Local} {d : Descriptor} {expr : Expr} {name : String}
    (hl : e.bindings[l]? = some ⟨.object d, expr⟩) : LeavesOpen e l .sequence (.boxed name)
  | notElement {l : Local} {d d' : Descriptor} {expr : Expr}
    (hl : e.bindings[l]? = some ⟨.object d, expr⟩) : LeavesOpen e l .element (.sequence d')
  | notReified {l : Local} {b : Binding} {found : Value.Shape} (hb : b ∈ e.bindings)
    (hexpr : b.expr = .typeOf l ∨ ∃ d, b.expr = .typeTest l d)
    (hfound : found ∈ [Value.Shape.unit, .descriptor, .tuple]) : LeavesOpen e l .reified found

/-- A local that is bound to an object is declared as one. -/
private theorem exists_object_of_head {e : Program} {before : List Binding} {rest : List Binding}
    {env : Env} {l : Local} {v : Value} (hbs : e.bindings = before ++ rest)
    (henv : env.map Value.head = (before.map Binding.type).map Ty.head) (hv : env[l]? = some v)
    (hhead : v.head = .object) : ∃ d expr, e.bindings[l]? = some ⟨.object d, expr⟩ := by
  -- the local is one of those bound before, and forms tell object types from others
  obtain ⟨t, ht, hthead⟩ := exists_of_map_eq_map henv hv
  rw [hhead] at hthead
  rw [List.getElem?_map] at ht
  obtain ⟨⟨u, expr⟩, hb, rfl⟩ := Option.map_eq_some_iff.mp ht
  have hl : e.bindings[l]? = some ⟨u, expr⟩ := by
    rw [hbs]
    exact getElem?_append_of_eq_some hb
  cases u with
  | object d => exact ⟨d, expr, hl⟩
  | _ => cases hthead

/-- Only a type test or query asks a value for its type. -/
theorem exists_typeTest_of_reified {expr : Expr} {l : Local} (h : (.reified, l) ∈ expr.operands) :
    expr = .typeOf l ∨ ∃ d, expr = .typeTest l d := by
  cases expr with
  | typeOf value =>
    rw [Expr.operands, List.mem_singleton, Prod.mk.injEq] at h
    exact .inl (h.2 ▸ rfl)
  | typeTest value d =>
    rw [Expr.operands, List.mem_singleton, Prod.mk.injEq] at h
    exact .inr ⟨d, h.2 ▸ rfl⟩
  | arrayCopy => simp [Expr.operands, Operand.operands, CopyLength.operands] at h
  | _ => simp [Expr.operands] at h

end Program

end Erased

namespace Bridge.Program

variable {policy : AdapterPolicy} {p : Bridge.Program} {e : Erased.Program}

/-- What can go wrong when an erased program runs: an operation on an array or a sequence, but never
over kinds, or the use of a local as a sequence, as an element or for its own type where its
declaration leaves open what it holds. -/
theorem safe_of_erase {error : Erased.RunError} {s : Store} (htuples : p.TuplesAreTuples)
    (herase : p.erase policy = .ok e) (hrun : e.run = .error error s) :
    (∀ l, error ≠ .unboundLocal l) ∧
      (∀ fault, error = .array fault → ¬ fault.IsKindMismatch) ∧
      (∀ fault, error = .sequence fault → ¬ fault.IsKindMismatch) ∧
      ∀ l expected found, error = .dynamicType l expected found →
        expected ∉ [Erased.Expectation.integer, .primitive, .array] ∧
          (∀ k, found ≠ .array k) ∧ e.LeavesOpen l expected found := by
  have htyped : ProgramTyped Erasure.AtTupleType e := typed_of_erase
    (fun before b after hbs => Erasure.tupleKnown_of_tuple (htuples b (by simp [hbs]))) herase
  obtain ⟨before, b, after, env, hbs, hheads, hremaining⟩ :=
    Erased.Program.remaining_of_run htyped hrun
  -- the remaining failures, and what each says of its local
  cases hremaining with
  | array h => simpa using h
  | sequence h => simpa using h
  | notSequence hl hv =>
    obtain ⟨d, expr, hdeclared⟩ := Erased.Program.exists_object_of_head hbs hheads hv rfl
    refine ⟨by simp, by simp, by simp, ?_⟩
    rintro _ _ _ ⟨⟩
    exact ⟨by simp, by simp, .notSequence hdeclared⟩
  | notElement hl hv =>
    obtain ⟨d, expr, hdeclared⟩ := Erased.Program.exists_object_of_head hbs hheads hv rfl
    refine ⟨by simp, by simp, by simp, ?_⟩
    rintro _ _ _ ⟨⟩
    exact ⟨by simp, by simp, .notElement hdeclared⟩
  | @notReified l v hl hv hhead =>
    have hexpr := Erased.Program.exists_typeTest_of_reified hl
    have hfound : v.shape ∈ [Erased.Value.Shape.unit, .descriptor, .tuple] := by
      cases v <;> simp [Erased.Value.head, Erased.Value.shape] at hhead ⊢
    refine ⟨by simp, by simp, by simp, ?_⟩
    rintro _ _ _ ⟨⟩
    refine ⟨by simp, ?_, .notReified (by simp [hbs]) hexpr hfound⟩
    rintro k hk
    simp [hk] at hfound

/-- An item taken out of a sequence is declared as an object, and is not a sequence itself. -/
theorem safe_of_erase_item :
    ∃ (p : Bridge.Program) (e : Erased.Program) (s : Store),
      p.TuplesAreTuples ∧ p.erase .shared = .ok e ∧
        e.run = .error (.dynamicType 2 .sequence (.boxed "Boolean")) s ∧
        e.LeavesOpen 2 .sequence (.boxed "Boolean") := by
  let p : Bridge.Program :=
    ⟨[⟨.object .anything, .sequenceLit .anything [.boolean true]⟩, ⟨.integer, .intLit 0⟩,
      ⟨.object .anything, .genericGet 0 1⟩, ⟨.integer, .genericSize 2⟩], 3⟩
  let e : Erased.Program :=
    ⟨[⟨.object .anything, .sequenceLit .anything [.boolean true]⟩, ⟨.integer, .intLit 0⟩,
      ⟨.object .anything, .genericGet 0 1⟩, ⟨.integer, .genericSize 2⟩], 3⟩
  have htuples : p.TuplesAreTuples := by simp [p, TuplesAreTuples]
  have herase : p.erase .shared = .ok e := rfl
  have hrun : e.run = .error (.dynamicType 2 .sequence (.boxed "Boolean"))
      ⟨#[], #[#[.boolean true]]⟩ := rfl
  have hsafe := safe_of_erase htuples herase hrun
  exact ⟨p, e, _, htuples, herase, hrun, (hsafe.2.2.2 _ _ _ rfl).2.2⟩

end Bridge.Program

end ArrayBridge
