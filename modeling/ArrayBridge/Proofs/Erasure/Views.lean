import ArrayBridge.Proofs.Erasure.Appending
import ArrayBridge.Proofs.Erasure.Safety

/-!
# Arrays that are bound as objects

An array may be bound at any object type. What stands for the binding is then an adapter of the
array, so that a run finds a view there which shares the storage of the array. A copy of a generic
sequence is the exception: it is an array like any other, but may be bound at its own type only.

Main results:

* `IsAdaptedBy.run_eq_ok`, `IsAdaptedBy.run_eq_error` — a program that adapts what another one
  returns ends as that one does, with a view of the array in its place.
* `adapts_of_givesArray` — which arrays are adapted, and what is said of those that are not.
-/

namespace ArrayBridge

open ArrayBridge.Action (bind_eq_ok)
open ArrayBridge.Erasure (Placement Places adapterBinding)

/-! ## Expressions that give arrays -/

namespace Bridge

/-- The expressions that give an array of a kind. Their operands are declared as they should be. -/
inductive Expr.GivesArray (bs : List Binding) (k : Kind) : Expr → Prop
  | var {l : Local} (h : Declares bs l (.wrapper k)) : GivesArray bs k (.var l)
  | construct {size : Local} {element : Option Local} (hsize : Declares bs size .integer)
    (helement : ∀ l ∈ element, Declares bs l (.prim k)) :
    GivesArray bs k (.call k (.construct size element))
  | fromGenericView {sequence : Local} {t : Ty} (h : Declares bs sequence t)
    (ht : (∃ l, t = .wrapper l) ∨ ∃ d, t = .object d) :
    GivesArray bs k (.call k (.fromGenericView sequence))

/-- A program that returns the array of an expression. A local is returned as it is, and any other
array is bound first. -/
def Program.returning (p : Program) (k : Kind) : Expr → Program
  | .var l => ⟨p.bindings, l⟩
  | expr => p.concat ⟨.wrapper k, expr⟩

end Bridge

/-! ## Programs whose result is adapted -/

namespace Erased

/-- Whether another program returns an adapter of the array that a program returns. It does what
this one does, and makes the adapter if this one does not. -/
structure Program.IsAdaptedBy (k : Kind) (e₀ e : Program) : Prop where
  adapter : e.bindings[e.result]? = some (adapterBinding k e₀.result)
  bindings : e.bindings = e₀.bindings ∨ e.bindings = e₀.bindings ++ [adapterBinding k e₀.result]

namespace Program

variable {k : Kind} {e e₀ : Program} {v : Value} {error : RunError} {s : Store}

/-- A run that ends has bound a value for the result. -/
theorem run_eq_ok_iff : e.run = .ok v s ↔
    ∃ env, evalBindings [] e.bindings .empty = .ok env s ∧ env[e.result]? = some v := by
  have hrun : e.run =
      (evalBindings [] e.bindings >>= fun env => Action.lift (env.value e.result)) .empty := rfl
  rw [hrun, bind_eq_ok]
  constructor
  · rintro ⟨env, s₁, henv, hread⟩
    obtain ⟨hv, hs⟩ := Action.lift_eq_ok.mp hread
    exact ⟨env, hs ▸ henv, Env.value_eq_ok.mp hv⟩
  · rintro ⟨env, henv, hv⟩
    exact ⟨env, s, henv, Action.lift_eq_ok.mpr ⟨Env.value_eq_ok.mpr hv, rfl⟩⟩

/-- A run of the adapting program goes through one of the other program. -/
theorem IsAdaptedBy.exists_run {env : Env} (h : e₀.IsAdaptedBy k e)
    (hrun : evalBindings [] e.bindings .empty = .ok env s) :
    ∃ env₀, evalBindings [] e₀.bindings .empty = .ok env₀ s ∧ env₀ <+: env := by
  rcases h.bindings with hsame | hmade
  · exact ⟨env, hsame ▸ hrun, List.prefix_refl env⟩
  · -- the adapter is made last, and leaves the store alone
    rw [hmade, evalBindings_append] at hrun
    obtain ⟨env₀, s₁, hrun₀, hlast⟩ := bind_eq_ok.mp hrun
    have hprefix := prefix_of_evalBindings hlast
    obtain ⟨v, s₂, hv, hnil⟩ := bind_eq_ok.mp hlast
    obtain ⟨-, rfl⟩ := eval_wrapAdapter_eq_ok.mp hv
    injection hnil with _ hs
    exact ⟨env₀, hs ▸ hrun₀, hprefix⟩

/-- A run of the other program that returns an array becomes one of the adapting program. -/
theorem IsAdaptedBy.exists_run_of_run {env₀ : Env} {a : ArrayRef} (h : e₀.IsAdaptedBy k e)
    (hrun : evalBindings [] e₀.bindings .empty = .ok env₀ s)
    (ha : env₀[e₀.result]? = some (.array a)) (hk : a.kind = k) :
    ∃ env, evalBindings [] e.bindings .empty = .ok env s ∧ env₀ <+: env := by
  rcases h.bindings with hsame | hmade
  · exact ⟨env₀, hsame ▸ hrun, List.prefix_refl env₀⟩
  · -- the adapter is made at the end, and making it changes nothing in the store
    have hlast : (adapterBinding k e₀.result).expr.eval env₀ s = .ok (.sequence a.toSequence) s :=
      eval_wrapAdapter_eq_ok.mpr ⟨⟨a, hk, ha, rfl⟩, rfl⟩
    refine ⟨env₀ ++ [.sequence a.toSequence], ?_, List.prefix_append _ _⟩
    rw [hmade, evalBindings_append, Action.bind_of_ok hrun]
    exact evalBindings_singleton hlast

/-- The adapting program returns a view of the array that the other one returns. -/
theorem IsAdaptedBy.run_eq_ok (h : e₀.IsAdaptedBy k e) (hresult : e₀.result < e₀.bindings.length) :
    e.run = .ok v s ↔
      ∃ a : ArrayRef, a.kind = k ∧ e₀.run = .ok (.array a) s ∧ v = .sequence a.toSequence := by
  simp only [run_eq_ok_iff]
  constructor
  · rintro ⟨env, hrun, hv⟩
    obtain ⟨a, hk, ha, hview⟩ := holdsViews_of_evalBindings hrun _ _ _ _ h.adapter
    obtain ⟨env₀, hrun₀, more, rfl⟩ := h.exists_run hrun
    -- the array is bound in the run of the other program
    have hlength : env₀.length = e₀.bindings.length := by
      simpa using length_of_evalBindings hrun₀
    rw [List.getElem?_append_left (hlength ▸ hresult)] at ha
    exact ⟨a, hk, ⟨env₀, hrun₀, ha⟩, Option.some.inj (hv.symm.trans hview)⟩
  · rintro ⟨a, hk, ⟨env₀, hrun₀, ha⟩, rfl⟩
    obtain ⟨env, hrun, more, rfl⟩ := h.exists_run_of_run hrun₀ ha hk
    obtain ⟨a', -, ha', hview⟩ := holdsViews_of_evalBindings hrun _ _ _ _ h.adapter
    rw [getElem?_append_of_eq_some ha] at ha'
    obtain rfl : a = a' := by
      injection ha' with ha'
      injection ha'
    exact ⟨_, hrun, hview⟩

/-- Where the other program fails, so does the adapting one. -/
theorem IsAdaptedBy.run_eq_error (h : e₀.IsAdaptedBy k e) (hresult : e₀.result < e₀.bindings.length)
    (hrun : e₀.run = .error error s) : e.run = .error error s := by
  have hfail : evalBindings [] e₀.bindings .empty = .error error s := by
    have hrun : (evalBindings [] e₀.bindings >>= fun env => Action.lift (env.value e₀.result))
        Store.empty = .error error s := hrun
    rcases Action.bind_eq_error.mp hrun with hfail | ⟨env, s₁, henv, hvalue⟩
    · exact hfail
    · -- the result is bound, so reading it does not fail
      have hlength : env.length = e₀.bindings.length := by simpa using length_of_evalBindings henv
      rw [Env.value_eq_ok.mpr (List.getElem?_eq_getElem (hlength ▸ hresult))] at hvalue
      cases hvalue
  have hfail' : evalBindings [] e.bindings .empty = .error error s := by
    rcases h.bindings with hsame | hmade
    · rw [hsame, hfail]
    · rw [hmade, evalBindings_append, Action.bind_of_error hfail]
  exact Action.bind_of_error hfail'

end Program

end Erased

/-! ## Arrays at object types -/

namespace Bridge

variable {policy : AdapterPolicy} {p : Program} {e : Erased.Program} {k : Kind} {expr : Expr}

/-- What a run returns is of the form that the result is declared at, if tuples are tuples. -/
theorem Program.head_of_run {b : Binding} {v : Erased.Value} {s : Store}
    (htuples : p.TuplesAreTuples) (herase : p.erase policy = .ok e)
    (hb : p.bindings[p.result]? = some b) (hrun : e.run = .ok v s) :
    v.head = (Erased.Ty.ofBridge b.type).head := by
  obtain ⟨placed, c, hplaced, hc, rfl⟩ := Erasure.exists_placement_of_erase herase
  obtain ⟨htyped, hscope, -⟩ := Placement.typed_empty.eraseAll
    (fun before b after hbs => Erasure.tupleKnown_of_tuple (htuples b (by simp [hbs]))) hplaced
  -- the binding that stands for the result is that of the result
  obtain rfl : c.binding = b := by
    have hat : (placed.scope.map Erasure.Bound.binding)[p.result]? = some c.binding := by
      rw [List.getElem?_map, hc]
      rfl
    rw [hscope] at hat
    exact Option.some.inj (hat.symm.trans hb)
  obtain ⟨t, ht, hhead⟩ := htyped.hasHead_of_binds ⟨c, hc, rfl, rfl⟩
  obtain ⟨env, henv, hv⟩ := Erased.Program.run_eq_ok_iff.mp hrun
  have hheads := Erased.heads_of_evalBindings
    (htyped.fits.mono fun _ _ => Erased.Binding.headFits_of_fitsOrTuple) henv
  obtain ⟨u, hu, hvu⟩ := exists_of_map_eq_map hheads hv
  obtain rfl : t = u := Option.some.inj (ht.symm.trans hu)
  rw [← hvu, hhead]

/-- An array that a program returns is declared as one. -/
theorem Expr.GivesArray.exists_result (h : expr.GivesArray p.bindings k) :
    ∃ b, (p.returning k expr).bindings[(p.returning k expr).result]? = some b ∧
      b.type = .wrapper k := by
  cases h with
  | var h => exact h
  | construct | fromGenericView => exact ⟨_, List.getElem?_concat_length, rfl⟩

/-- Returning an array adds no tuple. -/
theorem Program.TuplesAreTuples.returning (h : p.TuplesAreTuples)
    (hexpr : expr.GivesArray p.bindings k) : (p.returning k expr).TuplesAreTuples := by
  cases hexpr with
  | var => exact h
  -- neither of the two is a tuple
  | construct | fromGenericView =>
    intro b hb items hitems
    rcases List.mem_append.mp hb with hb | hb
    · exact h b hb items hitems
    · obtain rfl := List.mem_singleton.mp hb
      cases hitems

/-- The array of an expression can be bound at its own type. -/
theorem Expr.GivesArray.exists_erase {placed : Placement} (hplaced : Places policy p placed)
    (h : expr.GivesArray p.bindings k) : ∃ e₀, (p.returning k expr).erase policy = .ok e₀ := by
  cases h with
  | var h =>
    obtain ⟨array, harray⟩ := hplaced.exists_binds h
    exact ⟨_, hplaced.erase_of_binds harray⟩
  | construct hsize helement =>
    obtain ⟨array, hplan, -⟩ := Erasure.Scope.exists_plan_construct (hplaced.exists_binds hsize)
      fun l hl => hplaced.exists_binds (helement l hl)
    exact ⟨_, hplaced.erase_concat ⟨.wrapper k, _⟩ hplan⟩
  | fromGenericView h ht =>
    obtain ⟨q, hplan⟩ := Erasure.Scope.exists_plan_fromGenericView (k := k)
      (hplaced.exists_binds h) ht
    exact ⟨_, hplaced.erase_concat ⟨.wrapper k, _⟩ hplan⟩

/-- At an object type it is adapted, unless it is a copy of a generic sequence. -/
theorem Expr.GivesArray.exists_isAdaptedBy {placed : Placement} {e₀ : Erased.Program}
    (hplaced : Places policy p placed) (h : expr.GivesArray p.bindings k)
    (he₀ : (p.returning k expr).erase policy = .ok e₀)
    (hview : ∀ sequence, expr ≠ .call k (.fromGenericView sequence)) (d : Descriptor) :
    ∃ e, (p.concat ⟨.object d, expr⟩).erase policy = .ok e ∧ e₀.IsAdaptedBy k e := by
  cases h with
  | @var l h =>
    obtain ⟨array, harray⟩ := hplaced.exists_binds h
    obtain rfl : ⟨placed.bindings, array⟩ = e₀ :=
      Except.ok.inj ((hplaced.erase_of_binds harray).symm.trans he₀)
    obtain ⟨-, hadapter, hbindings⟩ := hplaced.adapters.adapter policy ⟨k, l, array⟩ harray
    refine ⟨_, hplaced.erase_concat ⟨.object d, .var l⟩ (Erasure.Scope.plan_var_object d harray),
      hadapter, hbindings.imp ?_ id⟩
    intro hsame
    exact congrArg (·.bindings) hsame
  | @construct size element hsize helement =>
    obtain ⟨array, hplan, hplanObject⟩ := Erasure.Scope.exists_plan_construct
      (hplaced.exists_binds hsize) fun l hl => hplaced.exists_binds (helement l hl)
    let b : Binding := ⟨.object d, .call k (.construct size element)⟩
    have hwrapper := hplaced.erase_concat ⟨.wrapper k, .call k (.construct size element)⟩ hplan
    obtain rfl := Except.ok.inj (hwrapper.symm.trans he₀)
    refine ⟨_, hplaced.erase_concat b (hplanObject d), ?_⟩
    -- the array is placed as it is at its own type, and right after it the adapter of it
    have hplace := Placement.place_adaptFresh policy hplaced.adapters b k array
    rw [hplace, Placement.code_adaptFresh policy hplaced.adapters]
    refine ⟨?_, .inr (List.append_cons _ _ _)⟩
    rw [List.getElem?_append_right (Nat.le_add_right _ 1), Nat.add_sub_cancel_left]
    rfl
  | fromGenericView => exact absurd rfl (hview _)

/-- An array whose operands are declared as they should be can be bound at its own type under every
policy. It can also be bound at every object type, where it is adapted and a run finds a view of it,
unless it is a copy of a generic sequence; such a copy is refused there. -/
theorem Program.adapts_of_givesArray {policy' : AdapterPolicy} {accepted : Erased.Program}
    (policy : AdapterPolicy) (d : Descriptor) (haccepted : p.erase policy' = .ok accepted)
    (hexpr : expr.GivesArray p.bindings k) :
    ∃ e₀, (p.returning k expr).erase policy = .ok e₀ ∧
      (p.TuplesAreTuples → ∀ v s, e₀.run = .ok v s → ∃ a : ArrayRef, a.kind = k ∧ v = .array a) ∧
      ((∀ sequence, expr ≠ .call k (.fromGenericView sequence)) →
        ∃ e, (p.concat ⟨.object d, expr⟩).erase policy = .ok e ∧ e₀.IsAdaptedBy k e ∧
          (∀ v s, e.run = .ok v s ↔
            ∃ a : ArrayRef, a.kind = k ∧ e₀.run = .ok (.array a) s ∧ v = .sequence a.toSequence) ∧
          ∀ error s, e₀.run = .error error s → e.run = .error error s) ∧
      ((∃ sequence, expr = .call k (.fromGenericView sequence)) →
        (p.concat ⟨.object d, expr⟩).erase policy =
          .error ⟨p.bindings.length, .resultType (.object d) (.type (.wrapper k))⟩) := by
  -- acceptance does not depend on the policy
  obtain ⟨placed, hplaced⟩ := Erasure.exists_places haccepted policy
  obtain ⟨e₀, he₀⟩ := hexpr.exists_erase hplaced
  have hresult := (Erasure.typed_up_to_tuples_of_erase he₀).result
  refine ⟨e₀, he₀, ?_, ?_, ?_⟩
  · intro htuples v s hrun
    obtain ⟨b, hb, ht⟩ := hexpr.exists_result
    have hhead := head_of_run (htuples.returning hexpr) he₀ hb hrun
    rw [ht] at hhead
    obtain ⟨a, rfl, hk⟩ := Erased.Value.exists_array_of_head hhead
    exact ⟨a, hk, rfl⟩
  · intro hview
    obtain ⟨e, he, hadapted⟩ := hexpr.exists_isAdaptedBy hplaced he₀ hview d
    exact ⟨e, he, hadapted, fun v s => hadapted.run_eq_ok hresult,
      fun error s => hadapted.run_eq_error hresult⟩
  · rintro ⟨sequence, rfl⟩
    exact hplaced.erase_concat_eq_error ⟨.object d, .call k (.fromGenericView sequence)⟩
      (Erasure.Scope.plan_fromGenericView_object _ k sequence d)

/-- A fresh array of two zeros that is bound as an object is seen as a sequence of two items, and a
copy of the array is refused there. -/
theorem Program.adapts_of_givesArray_construct :
    ∃ (p : Program) (e : Erased.Program) (s : Store) (a : ArrayRef),
      (p.concat ⟨.object .anything, .call .int (.construct 0 none)⟩).erase .shared = .ok e ∧
        e.run = .ok (.sequence a.toSequence) s ∧ a.kind = .int ∧
        (p.concat ⟨.object .anything, .call .int (.fromGenericView 1)⟩).erase .shared =
          .error ⟨2, .resultType (.object .anything) (.type (.wrapper .int))⟩ := by
  let p : Program := ⟨[⟨.integer, .intLit 2⟩, ⟨.wrapper .int, .call .int (.construct 0 none)⟩], 1⟩
  have haccepted : p.erase .shared =
      .ok ⟨[⟨.integer, .intLit 2⟩, ⟨.array .int, .newArray .int 0⟩], 1⟩ := rfl
  have hconstruct : Expr.GivesArray p.bindings .int (.call .int (.construct 0 none)) :=
    .construct ⟨_, rfl, rfl⟩ (by simp)
  have hcopy : Expr.GivesArray p.bindings .int (.call .int (.fromGenericView 1)) :=
    .fromGenericView ⟨_, rfl, rfl⟩ (.inl ⟨.int, rfl⟩)
  obtain ⟨e₀, he₀, -, hview, -⟩ := adapts_of_givesArray .shared .anything haccepted hconstruct
  obtain ⟨e, he, -, hrun, -⟩ := hview (by simp)
  obtain ⟨-, -, -, -, hrefused⟩ := adapts_of_givesArray .shared .anything haccepted hcopy
  have hrun₀ : ∃ a s, e₀.run = .ok (.array a) s ∧ a.kind = .int := by
    have herased : (p.returning .int (.call .int (.construct 0 none))).erase .shared =
        .ok ⟨[⟨.integer, .intLit 2⟩, ⟨.array .int, .newArray .int 0⟩,
          ⟨.array .int, .newArray .int 0⟩], 2⟩ := rfl
    obtain rfl := Except.ok.inj (herased.symm.trans he₀)
    exact ⟨⟨.int, 1⟩, ⟨#[#[0, 0], #[0, 0]], #[]⟩, by with_unfolding_all rfl, rfl⟩
  obtain ⟨a, s, ha, hk⟩ := hrun₀
  exact ⟨p, e, s, a, he, (hrun _ _).mpr ⟨a, hk, ha, rfl⟩, hk, hrefused ⟨1, rfl⟩⟩

end Bridge

end ArrayBridge
