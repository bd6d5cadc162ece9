import ArrayBridge.Proofs.Erased.Evaluation
import Mathlib.Data.List.Induction

/-!
# Runs of typed programs

A run evaluates the bindings of a program in order, so what one evaluation preserves holds along
the whole run. A binding is judged by the declared types of the bindings before it.

Main results:

* `evalBindings_append`, `evalBindings_eq_error` — a run in two parts, and where a failed run
  failed.
* `evalBindings_induction` — induction along a run that starts with nothing bound.
* `evalBindings_boundValues` — the values that a run binds, whether it ends or fails.
* `heads_of_evalBindings`, `types_of_evalBindings` — if the declared types fit, so do the values.
* `valuesInhabit_iff` — the bound values inhabit the declared types exactly if these fit wherever a
  value is bound.
-/

namespace ArrayBridge.Erased

open ArrayBridge.Action (bind_eq_ok bind_eq_error)

/-! ## Bindings in order -/

/-- Whether a property holds of every binding, given the declared types of those before it. -/
def EachBinding (property : List Ty → Binding → Prop) (bindings : List Binding) : Prop :=
  ∀ before b after, bindings = before ++ b :: after → property (before.map Binding.type) b

namespace EachBinding

variable {property : List Ty → Binding → Prop} {bs : List Binding}

theorem nil : EachBinding property [] := by
  intro before b after h
  simp at h

/-- Adding a binding at the end adds one thing to check. -/
theorem concat {b : Binding} (h : EachBinding property bs)
    (hb : property (bs.map Binding.type) b) : EachBinding property (bs ++ [b]) := by
  intro before c after heq
  -- the binding is the added one, or one before it
  rcases List.eq_nil_or_concat after with rfl | ⟨after', d, rfl⟩
  · obtain ⟨rfl, hcd⟩ := List.append_inj' heq rfl
    injection hcd with hbc
    exact hbc ▸ hb
  · rw [List.concat_eq_append, ← List.cons_append, ← List.append_assoc] at heq
    exact h before c after' (List.append_inj' heq rfl).1

/-- What follows from a property holds of each binding that has it. -/
theorem mono {property' : List Ty → Binding → Prop} (h : EachBinding property bs)
    (himp : ∀ types b, property types b → property' types b) : EachBinding property' bs :=
  fun before b after heq => himp _ _ (h before b after heq)

theorem of_append {cs : List Binding} (h : EachBinding property (bs ++ cs)) :
    EachBinding property bs := by
  rintro before b after rfl
  exact h before b (after ++ cs) (by simp)

end EachBinding

/-! ## Runs in parts -/

/-- Bindings run part by part. -/
theorem evalBindings_append (env : Env) (bs cs : List Binding) :
    evalBindings env (bs ++ cs) = evalBindings env bs >>= fun env => evalBindings env cs := by
  induction bs generalizing env with
  | nil => rfl
  | cons b bs ih =>
    funext s
    show (b.expr.eval env >>= fun v => evalBindings (env ++ [v]) (bs ++ cs)) s =
      ((b.expr.eval env >>= fun v => evalBindings (env ++ [v]) bs) >>= _) s
    cases hb : b.expr.eval env s with
    | error e s' => rw [Action.bind_of_error hb, Action.bind_of_error (Action.bind_of_error hb)]
    | ok v s' =>
      rw [Action.bind_of_ok hb, ih]
      cases hbs : evalBindings (env ++ [v]) bs s' with
      | error e s'' =>
        rw [Action.bind_of_error hbs, Action.bind_of_error ((Action.bind_of_ok hb).trans hbs)]
      | ok env' s'' =>
        rw [Action.bind_of_ok hbs, Action.bind_of_ok ((Action.bind_of_ok hb).trans hbs)]

theorem evalBindings_singleton {env : Env} {b : Binding} {s s' : Store} {v : Value}
    (h : b.expr.eval env s = .ok v s') : evalBindings env [b] s = .ok (env ++ [v]) s' :=
  Action.bind_of_ok h

/-- What holds at the start and is kept by each evaluation holds after every run. -/
theorem evalBindings_induction {motive : List Binding → Env → Store → Prop}
    (start : motive [] [] .empty)
    (concat : ∀ bs env s b v s', evalBindings [] bs .empty = .ok env s → motive bs env s →
      b.expr.eval env s = .ok v s' → motive (bs ++ [b]) (env ++ [v]) s')
    {bs : List Binding} {env : Env} {s : Store} (h : evalBindings [] bs .empty = .ok env s) :
    motive bs env s := by
  -- on the last binding, which is evaluated in the state that the others lead to
  induction bs using List.reverseRecOn generalizing env s with
  | nil =>
    injection h with henv hs
    subst henv hs
    exact start
  | append_singleton bs b ih =>
    rw [evalBindings_append] at h
    obtain ⟨env₀, s₀, hbefore, hlast⟩ := bind_eq_ok.mp h
    obtain ⟨v, s₁, heval, hnil⟩ := bind_eq_ok.mp hlast
    injection hnil with henv hs
    subst henv hs
    exact concat bs env₀ s₀ b v s₁ hbefore (ih hbefore) heval

/-- A failed run evaluated some bindings and failed at the next. -/
theorem evalBindings_eq_error {env : Env} {bs : List Binding} {s s' : Store} {error : RunError}
    (h : evalBindings env bs s = .error error s') :
    ∃ before b after env' s₁, bs = before ++ b :: after ∧
      evalBindings env before s = .ok env' s₁ ∧ b.expr.eval env' s₁ = .error error s' := by
  induction bs generalizing env s with
  | nil => cases h
  | cons b bs ih =>
    rcases bind_eq_error.mp h with hb | ⟨v, s₁, hb, hrest⟩
    · exact ⟨[], b, bs, env, s, rfl, rfl, hb⟩
    · obtain ⟨before, c, after, env', s₂, rfl, hbefore, hc⟩ := ih hrest
      exact ⟨b :: before, c, after, env', s₂, rfl, (Action.bind_of_ok hb).trans hbefore, hc⟩

/-- The values that evaluating bindings from a store on binds, until it ends or fails. -/
def boundValues (env : Env) : List Binding → Store → Env
  | [], _ => env
  | b :: rest, s =>
    match b.expr.eval env s with
    | .ok v s => boundValues (env ++ [v]) rest s
    | .error _ _ => env

/-- The values that running a program binds, until it ends or fails. -/
def Program.boundValues (p : Program) : Env := Erased.boundValues [] p.bindings .empty

/-- The bound values are those of the bindings before the one that failed, or of all. -/
theorem evalBindings_boundValues (env : Env) (bs : List Binding) (s : Store) :
    ∃ before after s', bs = before ++ after ∧
      evalBindings env before s = .ok (boundValues env bs s) s' ∧
      ∀ b ∈ after.head?, ∃ error s'', b.expr.eval (boundValues env bs s) s' = .error error s'' := by
  -- either the first binding fails, or the rest goes on from its value
  induction bs generalizing env s with
  | nil => exact ⟨[], [], s, rfl, rfl, by simp⟩
  | cons b bs ih =>
    cases hb : b.expr.eval env s with
    | error error s' =>
      refine ⟨[], b :: bs, s, rfl, ?_, ?_⟩
      · simp only [boundValues, hb]
        rfl
      · simp [boundValues, hb]
    | ok v s' =>
      obtain ⟨before, after, s'', rfl, hbefore, hafter⟩ := ih (env ++ [v]) s'
      refine ⟨b :: before, after, s'', rfl, ?_, ?_⟩
      · simp only [boundValues, hb]
        exact (Action.bind_of_ok hb).trans hbefore
      · simpa only [boundValues, hb] using hafter

/-- A run in two parts binds what the second part binds after the first. -/
theorem boundValues_append {env env' : Env} {bs : List Binding} (more : List Binding) {s s' : Store}
    (h : evalBindings env bs s = .ok env' s') :
    boundValues env (bs ++ more) s = boundValues env' more s' := by
  induction bs generalizing env s with
  | nil =>
    injection h with henv hs
    rw [henv, hs, List.nil_append]
  | cons b bs ih =>
    obtain ⟨v, s₁, hb, hrest⟩ := bind_eq_ok.mp h
    simp only [List.cons_append, boundValues, hb]
    exact ih hrest

/-- Values that are bound stay bound. -/
theorem prefix_boundValues (env : Env) (bs : List Binding) (s : Store) :
    env <+: boundValues env bs s := by
  induction bs generalizing env s with
  | nil => exact List.prefix_refl env
  | cons b bs ih =>
    rw [boundValues]
    cases b.expr.eval env s with
    | error error s' => exact List.prefix_refl env
    | ok v s' => exact (List.prefix_append env [v]).trans (ih (env ++ [v]) s')

/-- A run binds a value for each of the first bindings exactly if it gets past them. -/
theorem le_length_boundValues_iff {env : Env} {bs : List Binding} (more : List Binding)
    {s : Store} :
    env.length + bs.length ≤ (boundValues env (bs ++ more) s).length ↔
      ∃ env' s', evalBindings env bs s = .ok env' s' := by
  induction bs generalizing env s with
  | nil => exact ⟨fun _ => ⟨env, s, rfl⟩, fun _ => (prefix_boundValues env more s).length_le⟩
  | cons b bs ih =>
    have hstep : evalBindings env (b :: bs) = b.expr.eval env >>= fun v =>
      evalBindings (env ++ [v]) bs := rfl
    rw [List.cons_append, boundValues, hstep]
    cases hb : b.expr.eval env s with
    | error error s' =>
      -- nothing is bound past a failure
      rw [Action.bind_of_error hb]
      constructor
      · intro hle
        have hall : env.length + (b :: bs).length ≤ env.length := hle
        rw [List.length_cons] at hall
        omega
      · rintro ⟨env', s', h⟩
        cases h
    | ok v s' =>
      have hlength : env.length + (b :: bs).length = (env ++ [v]).length + bs.length := by
        simp only [List.length_cons, List.length_append, List.length_nil]
        omega
      rw [Action.bind_of_ok hb, hlength]
      exact ih

/-- What is bound stays bound. -/
theorem prefix_of_evalBindings {env env' : Env} {bs : List Binding} {s s' : Store}
    (h : evalBindings env bs s = .ok env' s') : env <+: env' := by
  induction bs generalizing env s with
  | nil =>
    injection h with h
    exact h ▸ List.prefix_refl env
  | cons b bs ih =>
    obtain ⟨v, s₁, -, hrest⟩ := bind_eq_ok.mp h
    exact (List.prefix_append env [v]).trans (ih hrest)

/-- One value is bound for each binding. -/
theorem length_of_evalBindings {env env' : Env} {bs : List Binding} {s s' : Store}
    (h : evalBindings env bs s = .ok env' s') : env'.length = env.length + bs.length := by
  induction bs generalizing env s with
  | nil =>
    injection h with h
    simp [h]
  | cons b bs ih =>
    obtain ⟨v, s₁, -, hrest⟩ := bind_eq_ok.mp h
    rw [ih hrest, List.length_append, List.length_singleton, List.length_cons]
    omega

/-- A run that has gone past a binding has evaluated it, in the state that the bindings before it
lead to. -/
theorem exists_eval_of_evalBindings {before after : List Binding} {b : Binding} {env env' : Env}
    {s s' : Store} (h : evalBindings env (before ++ b :: after) s = .ok env' s') :
    ∃ env₀ s₀ v s₁, evalBindings env before s = .ok env₀ s₀ ∧ b.expr.eval env₀ s₀ = .ok v s₁ ∧
      evalBindings (env₀ ++ [v]) after s₁ = .ok env' s' := by
  rw [evalBindings_append] at h
  obtain ⟨env₀, s₀, hbefore, hrest⟩ := bind_eq_ok.mp h
  obtain ⟨v, s₁, heval, hafter⟩ := bind_eq_ok.mp hrest
  exact ⟨env₀, s₀, v, s₁, hbefore, heval, hafter⟩

/-! ## Values of declared types -/

/-- Whether the declared type of a binding is the type of its expression, if it has a value; object
types are not told apart. -/
def Binding.Fits (types : List Ty) (b : Binding) : Prop :=
  ∀ t ∈ b.expr.type? types, t.plain = b.type.plain

/-- Whether the declared type of a binding has the form of the type of its expression. -/
def Binding.HeadFits (types : List Ty) (b : Binding) : Prop :=
  ∀ t ∈ b.expr.type? types, t.head = b.type.head

theorem Binding.Fits.headFits {types : List Ty} {b : Binding} (h : b.Fits types) :
    b.HeadFits types :=
  fun t ht => Ty.head_eq_of_plain_eq (h t ht)

/-- What holds of the value of each binding, seen through a view of values and a view of types,
holds of all the values that a run binds. -/
private theorem map_of_evalBindings {α : Type} {view : Value → α} {declared : Ty → α}
    {property : List Ty → Binding → Prop}
    (hstep : ∀ types env b s s' v, property types b → env.map view = types.map declared →
      b.expr.eval env s = .ok v s' → view v = declared b.type)
    (before : List Binding) {bs : List Binding} {env env' : Env} {s s' : Store}
    (hbs : EachBinding property (before ++ bs))
    (henv : env.map view = (before.map Binding.type).map declared)
    (h : evalBindings env bs s = .ok env' s') :
    env'.map view = ((before ++ bs).map Binding.type).map declared := by
  induction bs generalizing before env s with
  | nil =>
    injection h with h
    rw [← h, henv, List.append_nil]
  | cons b bs ih =>
    obtain ⟨v, s₁, hb, hrest⟩ := bind_eq_ok.mp h
    -- the values before the binding look as the types by which it is judged
    have hv := hstep _ env b s s₁ v (hbs before b bs rfl) henv hb
    rw [List.append_cons] at hbs ⊢
    exact ih _ hbs (by simp [henv, hv]) hrest

/-- A binding that fits gives a value of the outermost form of its type, -/
theorem head_of_eval {types : List Ty} {env : Env} {b : Binding} {s s' : Store} {v : Value}
    (hfits : b.HeadFits types) (henv : env.map Value.head = types.map Ty.head)
    (h : b.expr.eval env s = .ok v s') : v.head = b.type.head := by
  have hheads : (env.map Value.type).map Ty.head = types.map Ty.head := by
    rw [List.map_map, ← henv]
    exact List.map_congr_left fun v _ => Value.head_type v
  -- the type from the values and the one from the declared types have the same form
  have htype := Expr.type_of_eval h
  obtain ⟨t, ht, hplain⟩ := Option.map_eq_some_iff.mp htype
  have hcongr := Expr.head_type?_congr hheads b.expr
  rw [ht] at hcongr
  obtain ⟨u, hu, hhead⟩ := Option.map_eq_some_iff.mp hcongr.symm
  rw [← hfits u hu, hhead, ← Ty.head_plain, hplain, Value.head_type]

/-- and of its type throughout, if it fits throughout. -/
theorem type_of_eval_of_fits {types : List Ty} {env : Env} {b : Binding} {s s' : Store}
    {v : Value} (hfits : b.Fits types) (henv : env.map Value.type = types.map Ty.plain)
    (h : b.expr.eval env s = .ok v s') : v.type = b.type.plain := by
  have htype := Expr.type_of_eval h
  rw [henv, Expr.type?_map_plain] at htype
  obtain ⟨t, ht, hplain⟩ := Option.map_eq_some_iff.mp htype
  rw [← hplain, hfits t ht]

theorem heads_of_evalBindings {bs : List Binding} {env : Env} {s s' : Store}
    (hbs : EachBinding Binding.HeadFits bs) (h : evalBindings [] bs s = .ok env s') :
    env.map Value.head = (bs.map Binding.type).map Ty.head :=
  map_of_evalBindings (fun _ _ _ _ _ _ => head_of_eval) [] hbs rfl h

theorem types_of_evalBindings {bs : List Binding} {env : Env} {s s' : Store}
    (hbs : EachBinding Binding.Fits bs) (h : evalBindings [] bs s = .ok env s') :
    env.map Value.type = (bs.map Binding.type).map Ty.plain :=
  map_of_evalBindings (fun _ _ _ _ _ _ => type_of_eval_of_fits) [] hbs rfl h

/-- Operands of typed bindings may play their roles once all before them are bound. -/
theorem Expr.operandsPlay_of_operandsTyped {types : List Ty} {env : Env} {e : Expr}
    (h : e.OperandsTyped types) (henv : env.map Value.head = types.map Ty.head) :
    e.OperandsPlay env := by
  intro role l hl
  obtain ⟨t, ht, hadm⟩ := h role l hl
  obtain ⟨v, hv, hhead⟩ := exists_of_map_eq_map henv.symm ht
  exact ⟨v, hv, hhead ▸ hadm⟩

/-! ## Bound values -/

namespace Program

/-- Whether every value that a run binds inhabits the type declared for its binding. -/
def ValuesInhabit (p : Program) : Prop :=
  ∀ (i : Nat) (v : Value) (b : Binding),
    p.boundValues[i]? = some v → p.bindings[i]? = some b → v.Inhabits b.type

/-- Whether a property holds of every binding that a run binds a value for, given the declared
types of those before it. -/
def EachBound (property : List Ty → Binding → Prop) (p : Program) : Prop :=
  ∀ before b after, p.bindings = before ++ b :: after → before.length < p.boundValues.length →
    property (before.map Binding.type) b

/-- The states that a program reaches are those after the bindings that it binds values for. -/
theorem exists_reached_iff {p : Program} {before rest : List Binding}
    (hp : p.bindings = before ++ rest) :
    (∃ env s, evalBindings [] before .empty = .ok env s) ↔
      before.length ≤ p.boundValues.length := by
  have hle : ([] : Env).length + before.length ≤
      (Erased.boundValues [] (before ++ rest) .empty).length ↔
        ∃ env s, evalBindings [] before .empty = .ok env s := le_length_boundValues_iff rest
  rw [List.length_nil, Nat.zero_add, ← hp] at hle
  exact hle.symm

/-- Values inhabit declared types exactly if their types are these, object types apart. -/
theorem map_type_of_valuesInhabit {p : Program} {before : List Binding} {env : Env}
    (h : p.ValuesInhabit) (hbefore : before <+: p.bindings) (henv : env <+: p.boundValues)
    (hlength : env.length = before.length) :
    env.map Value.type = (before.map Binding.type).map Ty.plain := by
  refine List.ext_getElem (by simp [hlength]) fun i hi hi' => ?_
  simp only [List.length_map] at hi hi'
  simp only [List.getElem_map]
  have hvalue := List.prefix_iff_getElem?.mp henv i hi
  have hbinding := List.prefix_iff_getElem?.mp hbefore i hi'
  exact (Value.inhabits_iff _ _).mp (h i _ _ hvalue hbinding)

/-- The values that a run binds inhabit their declared types exactly when the bindings that it comes
to all fit. -/
theorem valuesInhabit_iff {p : Program} : p.ValuesInhabit ↔ p.EachBound Binding.Fits := by
  -- the values belong to the bindings that were reached
  obtain ⟨reached, rest, s', hsplit, hrun, -⟩ := evalBindings_boundValues [] p.bindings .empty
  change evalBindings [] reached .empty = .ok p.boundValues s' at hrun
  have hlength : p.boundValues.length = reached.length := by
    simpa using length_of_evalBindings hrun
  constructor
  · intro h before b after hbs hlt
    -- the run up to the binding, and the step that binds it
    obtain ⟨mid, rfl⟩ : ∃ mid, reached = before ++ b :: mid := by
      have hto : before ++ [b] <+: p.bindings := ⟨after, by simp [hbs]⟩
      have hreached : reached <+: p.bindings := ⟨rest, hsplit.symm⟩
      obtain ⟨mid, hmid⟩ := List.prefix_of_prefix_length_le hto hreached (by
        rw [List.length_append, List.length_singleton, ← hlength]
        omega)
      exact ⟨mid, by rw [← hmid, List.append_assoc, List.singleton_append]⟩
    obtain ⟨env, s₁, v, s₂, hbefore, hv, hrun⟩ := exists_eval_of_evalBindings hrun
    have hlengthEnv : env.length = before.length := by simpa using length_of_evalBindings hbefore
    have hprefix := prefix_of_evalBindings hrun
    have htypes : env.map Value.type = (before.map Binding.type).map Ty.plain :=
      map_type_of_valuesInhabit h ⟨_, hbs.symm⟩ ((List.prefix_append env [v]).trans hprefix)
        hlengthEnv
    have hvalue : p.boundValues[before.length]? = some v := by
      rw [← hlengthEnv, List.prefix_iff_getElem?.mp hprefix env.length (by simp)]
      simp
    have hvtype := (Value.inhabits_iff _ _).mp (h _ v b hvalue (by simp [hbs]))
    intro t ht
    have htype := Expr.type_of_eval hv
    rw [htypes, Expr.type?_map_plain, ht, Option.map_some, hvtype] at htype
    exact Option.some.inj htype
  · intro h i v b hv hb
    -- all that were reached fit, so their values are of the declared types
    have hfits : EachBinding Binding.Fits reached := by
      rintro before c after rfl
      refine h before c (after ++ rest) (by simp [hsplit]) ?_
      rw [hlength, List.length_append, List.length_cons]
      omega
    have htypes := types_of_evalBindings hfits hrun
    have hi := (List.getElem?_eq_some_iff.mp hv).1
    have hi' : i < reached.length := hlength ▸ hi
    have hb' : reached[i]? = some b := by
      rw [← hb, hsplit, List.getElem?_append_left hi']
    have hat := congrArg (·[i]?) htypes
    simp only [List.getElem?_map, hv, hb', Option.map_some, Option.some.injEq] at hat
    exact (Value.inhabits_iff _ _).mpr hat

end Program

end ArrayBridge.Erased
