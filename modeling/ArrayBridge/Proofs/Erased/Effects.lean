import ArrayBridge.Proofs.Erased.Runs
import ArrayBridge.Proofs.Store.Frames

/-!
# What a program writes

Only three forms of expression write cells that were there before: a store into an array, a generic
set, and a bulk copy. Which cells these are follows from the values of the operands, of whatever
form the values are, so programs need not be typed here.

Main results:

* `Expr.writesOnly_eval` — what one evaluation writes, in every state.
* `frame_of_evalBindings` — what a run writes, whether it ends or fails.
* `Program.frame_of_reached` — the effect of the next binding in a state that a program reaches, and
  the store that a failed run leaves.
-/

namespace ArrayBridge.Erased

open ArrayBridge.Action (WritesOnly bind_eq_ok bind_eq_error)

/-! ## One evaluation -/

/-- The cells that an expression names for writing: one of an array, one of a sequence, or the range
of a copy in its destination. -/
inductive Expr.Writes (env : Env) (s : Store) : Expr → Cell → Prop
  | store {k : Kind} {array index value : Local} {a : ArrayRef} {n : Int64} {i : Nat}
    (ha : env.array k array = .ok a) (hn : env.integer index = .ok n) (hi : n.toInt = i) :
    Writes env s (.store k array index value) (a.cell i)
  | genericSet {sequence index value : Local} {q : Sequence} {n : Int64} {i : Nat}
    (hq : env.sequence sequence = .ok q) (hn : env.integer index = .ok n) (hi : n.toInt = i) :
    Writes env s (.genericSet sequence index value) (q.cell i)
  | arrayCopy {k : Kind} {source destination : Local} {sourceOffset destinationOffset : Operand}
    {length : CopyLength} {a d : ArrayRef} {m n : Int64} {given : Option Int64} {i : Nat}
    (ha : env.array k source = .ok a) (hd : env.array k destination = .ok d)
    (hm : env.offset sourceOffset = .ok m) (hn : env.offset destinationOffset = .ok n)
    (hlength : env.copyLength length = .ok given) (hlo : n.toInt ≤ i)
    (hhi : i < n.toInt + ArrayRef.copyCount (s.length a) (s.length d) m n given) :
    Writes env s (.arrayCopy k source sourceOffset destination destinationOffset length) (d.cell i)

/-- An evaluation writes the cells that its expression names at most, and none if it fails. -/
theorem Expr.writesOnly_eval (e : Expr) (env : Env) (s : Store) :
    (e.eval env).WritesOnly (e.Writes env s) s := by
  cases e with
  | intLit | primLit => exact .pure _
  | invokeWrapper => exact .throw _
  | var l => exact .lift _
  | tuple | wrapAdapter | typeTest | typeOf => exact .lift_bind fun _ _ => .pure _
  | newArray k size =>
    exact .lift_bind fun _ _ => .bind_pure _ (.mapError _ (ArrayRef.writesOnly_new k _ _))
  | fillArray k size element =>
    exact .lift_bind fun _ _ => .lift_bind fun _ _ =>
      .bind_pure _ (.mapError _ (ArrayRef.writesOnly_new k _ _))
  | load k array index =>
    exact .lift_bind fun a _ => .lift_bind fun _ _ =>
      .bind_pure _ (.mapError _ (ArrayRef.writesOnly_get a _))
  | arrayLength | genericSize => exact .lift_bind fun _ _ => .view_bind (.pure _)
  | copyFromGeneric k sequence =>
    exact .lift_bind fun q _ => .bind_pure _ (.mapError _ (ArrayRef.writesOnly_ofSequence k q))
  | genericGet sequence index =>
    refine .lift_bind fun q _ => .lift_bind fun n _ => .view_bind (.lift_bind fun i _ =>
      .view_bind ?_)
    -- there may be no item, which is a failure, but nothing is written either way
    cases q.item? s i with
    | none => exact .throw _
    | some item => exact .pure _
  | sequenceLit element items => exact .change (.newSequence _ s element _)
  | store k array index value =>
    refine .lift_bind fun a ha => .lift_bind fun n hn => .lift_bind fun p _ => ?_
    exact .bind_pure _ (.mapError _ (ArrayRef.writesOnly_set fun i hi => .store ha hn hi))
  | genericSet sequence index value =>
    refine .lift_bind fun q hq => .lift_bind fun n hn => .view_bind (.lift_bind fun i hi =>
      .lift_bind fun b _ => ?_)
    have hcheck := Check.mapError_eq_ok.mp hi
    have hmax := Sequence.le_maxIndex_of_checkIndex hcheck
    have hindex := toInt_of_checked hcheck
    exact .bind_pure _ (.mapError _ (Sequence.writesOnly_setItem hmax (.genericSet hq hn hindex)))
  | arrayCopy k source sourceOffset destination destinationOffset length =>
    refine .lift_bind fun given hgiven => .lift_bind fun a ha => .lift_bind fun d hd =>
      .lift_bind fun m hm => .lift_bind fun n hn => ?_
    refine .bind_pure _ (.mapError _ (ArrayRef.writesOnly_copyTo fun range hrange i hi => ?_))
    obtain ⟨-, hdestination, hcount⟩ := ArrayRef.copyCount_of_copyRange? hrange
    exact .arrayCopy ha hd hm hn hgiven (by omega) (by omega)

/-- An evaluation that ends keeps all other cells. -/
theorem Expr.frame_of_eval {env : Env} {e : Expr} {s s' : Store} {v : Value}
    (h : e.eval env s = .ok v s') : s.Frame (e.Writes env s) s' := by
  have hwrites := e.writesOnly_eval env s
  rw [WritesOnly, h] at hwrites
  exact hwrites

/-! ## Runs -/

/-- The cells that a run writes: each binding writes those that its expression names in the state
that the binding is reached in. -/
def runWrites (env : Env) : List Binding → Store → Cell → Prop
  | [], _, _ => False
  | b :: rest, s, c =>
    match b.expr.eval env s with
    | .ok v s' => b.expr.Writes env s c ∨ runWrites (env ++ [v]) rest s' c
    | .error _ _ => False

/-- A run writes no other cells, wherever it ends. -/
theorem frame_of_evalBindings (env : Env) (bs : List Binding) (s : Store) :
    match evalBindings env bs s with
    | .ok _ s' => s.Frame (runWrites env bs s) s'
    | .error _ s' => s.Frame (runWrites env bs s) s' := by
  induction bs generalizing env s with
  | nil => exact .refl _ s
  | cons b bs ih =>
    -- the first binding writes what it names, and the rest goes on from there
    have hfirst := b.expr.writesOnly_eval env s
    rw [WritesOnly] at hfirst
    cases hb : b.expr.eval env s with
    | error error s₁ =>
      rw [hb] at hfirst
      obtain rfl : s₁ = s := hfirst
      have hrun : evalBindings env (b :: bs) s₁ = .error error s₁ := Action.bind_of_error hb
      rw [hrun]
      exact .refl _ s₁
    | ok v s₁ =>
      rw [hb] at hfirst
      have hrun : evalBindings env (b :: bs) s = evalBindings (env ++ [v]) bs s₁ :=
        Action.bind_of_ok hb
      have hwrites : ∀ c, runWrites env (b :: bs) s c ↔
          b.expr.Writes env s c ∨ runWrites (env ++ [v]) bs s₁ c := by
        intro c
        rw [runWrites, hb]
      have hrest := ih (env ++ [v]) s₁
      rw [hrun]
      cases hbs : evalBindings (env ++ [v]) bs s₁ with
      | ok env' s₂ =>
        rw [hbs] at hrest
        exact (hfirst.mono fun c hc => (hwrites c).mpr (.inl hc)).trans
          (hrest.mono fun c hc => (hwrites c).mpr (.inr hc))
      | error error s₂ =>
        rw [hbs] at hrest
        exact (hfirst.mono fun c hc => (hwrites c).mpr (.inl hc)).trans
          (hrest.mono fun c hc => (hwrites c).mpr (.inr hc))

/-! ## Programs -/

namespace Program

variable {p : Program} {before rest : List Binding} {env : Env} {s s' : Store} {error : RunError}

/-- A run goes on from each state that it reaches. -/
theorem run_of_reached (hp : p.bindings = before ++ rest)
    (hreached : evalBindings [] before .empty = .ok env s) :
    p.run = (evalBindings env rest >>= fun env => Action.lift (env.value p.result)) s := by
  show (evalBindings [] p.bindings >>= fun env => Action.lift (env.value p.result)) .empty = _
  rw [hp, evalBindings_append]
  -- the bindings that have been run do not fail, so the rest decides
  cases hrest : evalBindings env rest s with
  | ok env' s' =>
    rw [Action.bind_of_ok hrest, Action.bind_of_ok ((Action.bind_of_ok hreached).trans hrest)]
  | error e s' =>
    rw [Action.bind_of_error hrest, Action.bind_of_error ((Action.bind_of_ok hreached).trans hrest)]

/-- A run that fails does so at a binding, or where the result is read. -/
theorem exists_of_run_eq_error (hp : p.bindings = before ++ rest)
    (hreached : evalBindings [] before .empty = .ok env s) (hrun : p.run = .error error s') :
    ∃ done left env', rest = done ++ left ∧ evalBindings env done s = .ok env' s' ∧
      match left with
      | [] => env'.value p.result = .error error
      | b :: _ => b.expr.eval env' s' = .error error s' := by
  rw [run_of_reached hp hreached] at hrun
  rcases bind_eq_error.mp hrun with hfail | ⟨env', s₁, hdone, hvalue⟩
  · obtain ⟨done, b, left, env', s₁, rfl, hdone, hb⟩ := evalBindings_eq_error hfail
    -- the binding that fails leaves the store in which it was reached
    have hkept := b.expr.writesOnly_eval env' s₁
    rw [WritesOnly, hb] at hkept
    obtain rfl : s' = s₁ := hkept
    exact ⟨done, b :: left, env', rfl, hdone, hb⟩
  · cases hresult : env'.value p.result with
    | ok v =>
      rw [hresult] at hvalue
      cases hvalue
    | error e =>
      rw [hresult] at hvalue
      injection hvalue with he hs
      subst he hs
      exact ⟨rest, [], env', (List.append_nil rest).symm, hdone, hresult⟩

/-- In every state that a program reaches, the next binding writes the cells that its expression
names and no others, and leaves the lengths of all arrays and sequences. If it fails, the run ends
there with the store as it was. So the store of a failed run is that of the bindings before the one
that failed, and holds what they have written. -/
theorem frame_of_reached (hp : p.bindings = before ++ rest)
    (hreached : evalBindings [] before .empty = .ok env s) :
    (∀ b ∈ rest.head?,
      match b.expr.eval env s with
      | .ok _ s' => s.Frame (b.expr.Writes env s) s'
      | .error error s' => s' = s ∧ p.run = .error error s) ∧
    ∀ error s', p.run = .error error s' →
      ∃ done left env', rest = done ++ left ∧ evalBindings env done s = .ok env' s' ∧
        s.Frame (runWrites env done s) s' ∧
        match left with
        | [] => env'.value p.result = .error error
        | b :: _ => b.expr.eval env' s' = .error error s' := by
  constructor
  · intro b hb
    obtain ⟨left, rfl⟩ : ∃ left, rest = b :: left := by
      cases rest with
      | nil => cases hb
      | cons c left =>
        obtain rfl := Option.some.inj hb
        exact ⟨left, rfl⟩
    have hwrites := b.expr.writesOnly_eval env s
    rw [WritesOnly] at hwrites
    cases heval : b.expr.eval env s with
    | ok v s' =>
      rw [heval] at hwrites
      exact hwrites
    | error error s' =>
      rw [heval] at hwrites
      obtain rfl : s' = s := hwrites
      refine ⟨rfl, ?_⟩
      rw [run_of_reached hp hreached]
      exact Action.bind_of_error (Action.bind_of_error heval)
  · -- a failed run is cut at the binding that failed
    intro error s' hrun
    obtain ⟨done, left, env', hsplit, hdone, hleft⟩ := exists_of_run_eq_error hp hreached hrun
    have hframe := frame_of_evalBindings env done s
    rw [hdone] at hframe
    exact ⟨done, left, env', hsplit, hdone, hframe, hleft⟩

/-- A store into an array of two words writes the first of them. The store after it is out of range,
and the run ends with what the first one has written. -/
theorem frame_of_reached_store :
    ∃ (p : Program) (before : List Binding) (b c : Binding) (env : Env) (s s' : Store),
      p.bindings = before ++ [b, c] ∧ evalBindings [] before .empty = .ok env s ∧
        b.expr.eval env s = .ok .unit s' ∧ s'.arrays = #[#[7, 0]] ∧
        (s'.slots ⟨.int, 0⟩)[1]? = (s.slots ⟨.int, 0⟩)[1]? ∧
        p.run = .error (.array (.indexOutOfBounds .set .int 2 2)) s' := by
  let before : List Binding :=
    [⟨.integer, .intLit 2⟩, ⟨.array .int, .newArray .int 0⟩, ⟨.integer, .intLit 0⟩,
      ⟨.prim .int, .primLit (.int 7)⟩]
  let b : Binding := ⟨.unit, .store .int 1 2 3⟩
  let c : Binding := ⟨.unit, .store .int 1 0 3⟩
  let p : Program := ⟨before ++ [b, c], 5⟩
  let env : Env := [.integer 2, .array ⟨.int, 0⟩, .integer 0, .prim (.int 7)]
  let s : Store := ⟨#[#[0, 0]], #[]⟩
  let s' : Store := ⟨#[#[7, 0]], #[]⟩
  have hreached : evalBindings [] before .empty = .ok env s := by
    with_unfolding_all rfl
  have heval : b.expr.eval env s = .ok .unit s' := rfl
  have hreached' : evalBindings [] (before ++ [b]) .empty = .ok (env ++ [.unit]) s' := by
    with_unfolding_all rfl
  have hfail : c.expr.eval (env ++ [.unit]) s' =
      .error (.array (.indexOutOfBounds .set .int 2 2)) s' := rfl
  -- one word is named, and the other is kept
  have hwrites : ∀ cell, b.expr.Writes env s cell → cell = .word 0 0 := by
    rintro _ ⟨ha, hn, hi⟩
    obtain rfl := Except.ok.inj ha
    obtain rfl := Except.ok.inj hn
    obtain rfl := Int.ofNat.inj hi
    rfl
  obtain ⟨hframe, -⟩ := frame_of_reached (show p.bindings = before ++ [b, c] from rfl) hreached
  have hkept := hframe b rfl
  rw [heval] at hkept
  have hword := hkept.word ⟨.int, 0⟩ 1 (by decide) fun h => by cases hwrites _ h
  -- the second store is the next binding after the first
  obtain ⟨hnext, -⟩ := frame_of_reached
    (show p.bindings = (before ++ [b]) ++ [c] from rfl) hreached'
  have herror := hnext c rfl
  rw [hfail] at herror
  exact ⟨p, before, b, c, env, s, s', rfl, hreached, heval, rfl, hword, herror.2⟩

end Program

end ArrayBridge.Erased
