import ArrayBridge.Proofs.Java.Outcome

/-!
# What an expression reads

The list of locals that an expression reads is exact. Evaluation looks at no other local, be it for
the value, for the effect or for the account of an error. It succeeds only if all of them are bound,
and the only locals that it finds unbound are among them. So a program whose scopes have been
checked never comes upon an unbound local.

Main results:

* `ReadsExactly.bind` — steps one after another read what each of them reads.
* `Expr.readsExactly_eval` — what an evaluation reads.
* `Program.not_unboundLocal_of_readsInOrder` — a run in which every local is bound before it is
  read.
-/

namespace ArrayBridge.Erased

open ArrayBridge.Action (bind_eq_ok bind_eq_error lift_eq_ok lift mapError)

/-- A computation on an environment reads the given locals and nothing else. -/
structure ReadsExactly {α : Type} (locals : List Local) (x : Env → Action RunError α) : Prop where
  /-- Only these locals matter. -/
  congr {env env' : Env} (h : ∀ l ∈ locals, env[l]? = env'[l]?) : x env = x env'
  /-- All of them are needed. -/
  lt_of_ok {env : Env} {s s' : Store} {a : α} (h : x env s = .ok a s') :
    ∀ l ∈ locals, l < env.length
  /-- No other local is found missing. -/
  of_unboundLocal {env : Env} {s s' : Store} {l : Local}
    (h : x env s = .error (.unboundLocal l) s') : l ∈ locals ∧ env.length ≤ l

namespace ReadsExactly

variable {α β : Type} {xs ys : List Local}

/-- It does not matter in which order the locals are listed, or how often. -/
theorem of_mem_iff {x : Env → Action RunError α} (h : ReadsExactly xs x)
    (hmem : ∀ l, l ∈ ys ↔ l ∈ xs) : ReadsExactly ys x where
  congr hsame := h.congr fun l hl => hsame l ((hmem l).mpr hl)
  lt_of_ok hok l hl := h.lt_of_ok hok l ((hmem l).mp hl)
  of_unboundLocal {_ _ _ l} herror := by
    obtain ⟨hl, hle⟩ := h.of_unboundLocal herror
    exact ⟨(hmem l).mpr hl, hle⟩

/-- An action on the store alone reads no local. -/
theorem action {x : Action RunError α} (h : ∀ s s' l, x s ≠ .error (.unboundLocal l) s') :
    ReadsExactly [] fun _ => x where
  congr _ := rfl
  lt_of_ok _ _ hl := absurd hl List.not_mem_nil
  of_unboundLocal herror := absurd herror (h _ _ _)

/-- What does not look at the environment reads nothing. -/
theorem pure (a : α) : ReadsExactly [] fun _ => (Pure.pure a : Action RunError α) :=
  action fun _ _ _ h => by cases h

theorem onArray (x : Action ArrayFault α) : ReadsExactly [] fun _ => mapError RunError.array x := by
  refine action fun s s' l h => ?_
  obtain ⟨fault, -, hfault⟩ := Action.mapError_eq_error.mp h
  cases hfault

theorem onSequence (x : Action SequenceFault α) :
    ReadsExactly [] fun _ => mapError RunError.sequence x := by
  refine action fun s s' l h => ?_
  obtain ⟨fault, -, hfault⟩ := Action.mapError_eq_error.mp h
  cases hfault

theorem view (f : Store → α) : ReadsExactly [] fun _ => (Action.view f : Action RunError α) :=
  action fun _ _ _ h => by cases h

/-- An index is checked against a length that is known. -/
theorem checkIndex (index : Int64) (length : Nat) :
    ReadsExactly [] fun _ => lift ((Sequence.checkIndex index length).mapError .sequence) := by
  refine action fun s s' l h => ?_
  unfold Sequence.checkIndex at h
  split at h <;> cases h

/-- A second step reads its own locals, whatever the first one gives. -/
theorem bind {x : Env → Action RunError α} {f : Env → α → Action RunError β}
    (hx : ReadsExactly xs x) (hf : ∀ a, ReadsExactly ys fun env => f env a) :
    ReadsExactly (xs ++ ys) fun env => x env >>= f env where
  congr {env env'} h := by
    have hfirst : x env = x env' := hx.congr fun l hl => h l (List.mem_append_left ys hl)
    have hsecond : f env = f env' := by
      funext a
      exact (hf a).congr fun l hl => h l (List.mem_append_right xs hl)
    show x env >>= f env = x env' >>= f env'
    rw [hfirst, hsecond]
  lt_of_ok h l hl := by
    obtain ⟨a, s₁, hfirst, hsecond⟩ := bind_eq_ok.mp h
    rcases List.mem_append.mp hl with hl | hl
    · exact hx.lt_of_ok hfirst l hl
    · exact (hf a).lt_of_ok hsecond l hl
  of_unboundLocal h := by
    -- the first to fail is the one that has found the local unbound
    rcases bind_eq_error.mp h with hfirst | ⟨a, s₁, -, hsecond⟩
    · obtain ⟨hl, hle⟩ := hx.of_unboundLocal hfirst
      exact ⟨List.mem_append_left ys hl, hle⟩
    · obtain ⟨hl, hle⟩ := (hf a).of_unboundLocal hsecond
      exact ⟨List.mem_append_right xs hl, hle⟩

/-- A last step on the store alone adds nothing. -/
theorem andThen {x : Env → Action RunError α} {f : α → Action RunError β}
    (hx : ReadsExactly xs x) (hf : ∀ a, ReadsExactly [] fun _ => f a) :
    ReadsExactly xs fun env => x env >>= f := by
  have h := hx.bind (f := fun _ => f) hf
  rwa [List.append_nil] at h

/-! ## Operands -/

/-- Reading a local reads it and no other: two environments that bind it to different values are
told apart. -/
theorem value (l : Local) : ReadsExactly [l] fun env => lift (env.value l) where
  congr h := by
    have hl := h l List.mem_cons_self
    unfold Env.value
    rw [hl]
  lt_of_ok {env _ _ a} h m hm := by
    obtain ⟨hv, -⟩ := lift_eq_ok.mp h
    rw [List.mem_singleton.mp hm]
    exact (List.getElem?_eq_some_iff.mp (Env.value_eq_ok.mp hv)).1
  of_unboundLocal {env s s' m} h := by
    unfold Env.value at h
    split at h
    · cases h
    · rename_i hnone
      injection h with h
      injection h with h
      subst h
      exact ⟨List.mem_cons_self, List.getElem?_eq_none_iff.mp hnone⟩

/-- So does reading it as something. -/
theorem operand {γ : Type} (expected : Expectation) (read : Value → Option γ) (l : Local) :
    ReadsExactly [l] fun env => lift (env.operand expected read l) := by
  simp only [Env.operand, Action.lift_bind]
  refine (value l).andThen fun v => action fun s s' m h => ?_
  -- the value is there, so that only its form can be wrong
  cases hread : read v <;> simp only [hread] at h <;> cases h

theorem offset (o : Operand) : ReadsExactly o.usedLocals fun env => lift (env.offset o) := by
  cases o with
  | read l => exact operand _ _ l
  | const n => exact pure n

theorem copyLength (n : CopyLength) :
    ReadsExactly n.usedLocals fun env => lift (env.copyLength n) := by
  cases n with
  | explicit o =>
    simp only [Env.copyLength, map_eq_pure_bind, Action.lift_bind]
    exact (offset o).andThen fun n => pure (some n)
  | remaining => exact pure none

theorem items (items : List Local) :
    ReadsExactly items fun env => lift (items.mapM env.value) := by
  induction items with
  | nil => exact pure []
  | cons l items ih =>
    simp only [List.mapM_cons, Action.lift_bind]
    exact (value l).bind fun v => ih.andThen fun vs => pure (v :: vs)

end ReadsExactly

/-! ## Expressions -/

open ReadsExactly in
/-- What an evaluation reads are the locals that the expression lists. -/
theorem Expr.readsExactly_eval (e : Expr) : ReadsExactly e.usedLocals fun env => e.eval env := by
  -- the operands are read one after another, and what follows them is left to the store
  cases e with
  | var l => exact value l
  | intLit n => exact .pure _
  | primLit p => exact .pure _
  | tuple xs => exact (items xs).andThen fun _ => .pure _
  | newArray k size =>
    exact (operand _ _ size).andThen fun _ => (onArray _).andThen fun _ => .pure _
  | fillArray k size element =>
    exact (operand _ _ size).bind fun _ => (operand _ _ element).andThen fun _ =>
      (onArray _).andThen fun _ => .pure _
  | load k a index =>
    exact (operand _ _ a).bind fun _ => (operand _ _ index).andThen fun _ =>
      (onArray _).andThen fun _ => .pure _
  | store k a index v =>
    exact (operand _ _ a).bind fun _ => (operand _ _ index).bind fun _ =>
      (operand _ _ v).andThen fun _ => (onArray _).andThen fun _ => .pure _
  | arrayLength k a =>
    exact (operand _ _ a).andThen fun _ => (view _).andThen fun _ => .pure _
  | arrayCopy k source sourceOffset destination destinationOffset length =>
    -- the length is listed last and read first
    have hmem : ∀ l, l ∈ (arrayCopy k source sourceOffset destination destinationOffset
        length).usedLocals ↔ l ∈ length.usedLocals ++ ([source] ++ ([destination] ++
          (sourceOffset.usedLocals ++ destinationOffset.usedLocals))) := by
      intro l
      simp only [usedLocals, List.mem_append, List.mem_cons, List.not_mem_nil, or_false]
      tauto
    refine of_mem_iff ?_ hmem
    exact (copyLength length).bind fun _ => (operand _ _ source).bind fun _ =>
      (operand _ _ destination).bind fun _ => (offset sourceOffset).bind fun _ =>
        (offset destinationOffset).andThen fun _ => (onArray _).andThen fun _ => .pure _
  | wrapAdapter k a => exact (operand _ _ a).andThen fun _ => .pure _
  | copyFromGeneric k q =>
    exact (operand _ _ q).andThen fun _ => (onArray _).andThen fun _ => .pure _
  | invokeWrapper k op => exact action fun _ _ _ h => by cases h
  | genericSize q =>
    exact (operand _ _ q).andThen fun _ => (view _).andThen fun _ => .pure _
  | genericGet q index =>
    refine (operand _ _ q).bind fun _ => (operand _ _ index).andThen fun _ =>
      (view _).andThen fun _ => (checkIndex _ _).andThen fun _ => (view _).andThen fun item => ?_
    cases item with
    | none => exact action fun _ _ _ h => by cases h
    | some b => exact .pure _
  | genericSet q index v =>
    -- the index is checked before the value is looked at
    exact (operand _ _ q).bind fun _ => (operand _ _ index).bind fun _ => (view _).bind fun _ =>
      (checkIndex _ _).bind fun _ => (operand _ _ v).andThen fun _ =>
        (onSequence _).andThen fun _ => .pure _
  | typeTest v d => exact (operand _ _ v).andThen fun _ => .pure _
  | typeOf v => exact (operand _ _ v).andThen fun _ => .pure _
  | sequenceLit element xs => exact action fun _ _ _ h => by cases h

/-! ## Programs -/

namespace Program

variable {p : Program}

/-- A run in which every local is bound before it is read does not come upon an unbound one. -/
theorem not_unboundLocal_of_readsInOrder (hreads : p.ReadsInOrder)
    (hresult : p.result < p.bindings.length) {l : Local} {s : Store} :
    p.run ≠ .error (.unboundLocal l) s := by
  intro h
  rcases bind_eq_error.mp h with hbindings | ⟨env, s₁, hbindings, hvalue⟩
  · -- at the binding that failed there are as many values as bindings before it
    obtain ⟨before, b, after, env, s₁, hsplit, hbefore, heval⟩ := evalBindings_eq_error hbindings
    obtain ⟨hl, hle⟩ := b.expr.readsExactly_eval.of_unboundLocal heval
    have hlength : env.length = before.length := by
      simpa using length_of_evalBindings hbefore
    have hplace : (b, before.length) ∈ p.bindings.zipIdx := by
      rw [hsplit]
      simp [List.zipIdx_append]
    have hlt : l < before.length := hreads _ hplace l hl
    exact Nat.not_le_of_lt hlt (hlength ▸ hle)
  · obtain ⟨hl, hle⟩ := (ReadsExactly.value p.result).of_unboundLocal hvalue
    have hlength : env.length = p.bindings.length := by
      simpa using length_of_evalBindings hbindings
    rw [List.mem_singleton.mp hl, hlength] at hle
    exact Nat.not_le_of_lt hresult hle

/-- Expressions read the locals that they list, neither less nor more, and a program whose scopes
have been checked never comes upon an unbound local. -/
theorem readsItsLocals :
    (∀ e : Expr, ReadsExactly e.usedLocals fun env => e.eval env) ∧
      ∀ (p : Program) (type : Ty), Java.checkScoping p = .ok type →
        ∀ (l : Local) (s : Store), p.run ≠ .error (.unboundLocal l) s := by
  refine ⟨Expr.readsExactly_eval, fun p type hscope l s => ?_⟩
  obtain ⟨hreads, hresult⟩ := Java.exists_checkScoping_eq_ok_iff.mp ⟨type, hscope⟩
  exact not_unboundLocal_of_readsInOrder hreads hresult

end Program

end ArrayBridge.Erased
