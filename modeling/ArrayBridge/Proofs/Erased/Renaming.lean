import ArrayBridge.Proofs.Erased.Outcomes

/-!
# Renaming the locals of erased code

The same expression may read its operands from different places. `Expr.rename` replaces the locals
that an expression reads; where the new locals hold what the old ones held, nothing else changes.

Main results:

* `Expr.rename_rename`, `Expr.rename_congr` — renaming twice, and renaming alike.
* `Expr.sameOutcome_rename` — an expression that has been renamed ends as the expression does.
-/

namespace ArrayBridge.Erased

open ArrayBridge.Action (lift)

/-! ## Renaming -/

/-- An operand that reads another local. -/
def Operand.rename (f : Local → Local) : Operand → Operand
  | read l => read (f l)
  | const n => const n

/-- A length that is read from another local. -/
def CopyLength.rename (f : Local → Local) : CopyLength → CopyLength
  | explicit n => explicit (n.rename f)
  | remaining => remaining

/-- An expression that reads other locals. -/
def Expr.rename (f : Local → Local) : Expr → Expr
  | var l => var (f l)
  | intLit n => intLit n
  | primLit p => primLit p
  | tuple items => tuple (items.map f)
  | newArray k size => newArray k (f size)
  | fillArray k size element => fillArray k (f size) (f element)
  | load k array index => load k (f array) (f index)
  | store k array index value => store k (f array) (f index) (f value)
  | arrayLength k array => arrayLength k (f array)
  | arrayCopy k source sourceOffset destination destinationOffset length =>
    arrayCopy k (f source) (sourceOffset.rename f) (f destination) (destinationOffset.rename f)
      (length.rename f)
  | wrapAdapter k array => wrapAdapter k (f array)
  | copyFromGeneric k sequence => copyFromGeneric k (f sequence)
  | invokeWrapper k op => invokeWrapper k op
  | genericSize sequence => genericSize (f sequence)
  | genericGet sequence index => genericGet (f sequence) (f index)
  | genericSet sequence index value => genericSet (f sequence) (f index) (f value)
  | typeTest value d => typeTest (f value) d
  | typeOf value => typeOf (f value)
  | sequenceLit element items => sequenceLit element items

theorem Operand.rename_rename (f g : Local → Local) (o : Operand) :
    (o.rename f).rename g = o.rename (g ∘ f) := by
  cases o <;> rfl

/-- Only the locals that are read are renamed. -/
theorem Operand.rename_congr {f g : Local → Local} {o : Operand}
    (h : ∀ l ∈ o.usedLocals, f l = g l) : o.rename f = o.rename g := by
  cases o with
  | read l => rw [rename, rename, h l List.mem_cons_self]
  | const n => rfl

theorem CopyLength.rename_rename (f g : Local → Local) (n : CopyLength) :
    (n.rename f).rename g = n.rename (g ∘ f) := by
  cases n with
  | explicit o => rw [rename, rename, rename, Operand.rename_rename]
  | remaining => rfl

theorem CopyLength.rename_congr {f g : Local → Local} {n : CopyLength}
    (h : ∀ l ∈ n.usedLocals, f l = g l) : n.rename f = n.rename g := by
  cases n with
  | explicit o => rw [rename, rename, Operand.rename_congr h]
  | remaining => rfl

theorem Expr.rename_rename (f g : Local → Local) (e : Expr) :
    (e.rename f).rename g = e.rename (g ∘ f) := by
  cases e <;> simp [rename, Operand.rename_rename, CopyLength.rename_rename]

/-- Only the locals that an expression reads are renamed. -/
theorem Expr.rename_congr {f g : Local → Local} {e : Expr} (h : ∀ l ∈ e.usedLocals, f l = g l) :
    e.rename f = e.rename g := by
  cases e with
  | arrayCopy k source sourceOffset destination destinationOffset length =>
    have hsource : sourceOffset.rename f = sourceOffset.rename g :=
      Operand.rename_congr fun l hl => h l (by simp [usedLocals, hl])
    have hdestination : destinationOffset.rename f = destinationOffset.rename g :=
      Operand.rename_congr fun l hl => h l (by simp [usedLocals, hl])
    have hlength : length.rename f = length.rename g :=
      CopyLength.rename_congr fun l hl => h l (by simp [usedLocals, hl])
    rw [rename, rename, hsource, hdestination, hlength, h source (by simp [usedLocals]),
      h destination (by simp [usedLocals])]
  | tuple items =>
    have hitems : items.map f = items.map g := List.map_congr_left h
    rw [rename, rename, hitems]
  | _ => simp_all [rename, usedLocals]

/-! ## Locals that hold the same values -/

/-- The locals of a list are bound, and hold under their new names what they hold under the old
ones. -/
def Agree (f : Local → Local) (env env' : Env) (locals : List Local) : Prop :=
  ∀ l ∈ locals, ∃ v, env[l]? = some v ∧ env'[f l]? = some v

section

variable {α β : Type} {f : Local → Local} {env env' : Env} {s : Store}

/-- Environments that agree on some locals agree on fewer. -/
theorem Agree.mono {xs ys : List Local} (h : Agree f env env' xs) (hsub : ∀ l ∈ ys, l ∈ xs) :
    Agree f env env' ys :=
  fun l hl => h l (hsub l hl)

/-- A step that reads an operand ends alike on both sides if what comes after it does. -/
theorem sameOutcome_operand {l : Local} {locals : List Local} {expected : Expectation}
    {read : Value → Option α} {k k' : α → Action RunError β} (h : Agree f env env' locals)
    (hl : l ∈ locals) (hk : ∀ a, SameOutcomeUpTo Eq (k a s) (k' a s)) :
    SameOutcomeUpTo Eq ((lift (env.operand expected read l) >>= k) s)
      ((lift (env'.operand expected read (f l)) >>= k') s) := by
  obtain ⟨v, hv, hv'⟩ := h l hl
  exact Env.sameOutcome_of_operand hv hv' fun a _ _ => hk a

/-- An offset is read alike in environments that agree on it. -/
theorem sameOutcome_offset {o : Operand} {k k' : Int64 → Action RunError β}
    (h : Agree f env env' o.usedLocals) (hk : ∀ n, SameOutcomeUpTo Eq (k n s) (k' n s)) :
    SameOutcomeUpTo Eq ((lift (env.offset o) >>= k) s)
      ((lift (env'.offset (o.rename f)) >>= k') s) := by
  cases o with
  | read l => exact sameOutcome_operand h List.mem_cons_self hk
  | const n => exact hk n

/-- So is a length. -/
theorem sameOutcome_copyLength {n : CopyLength} {k k' : Option Int64 → Action RunError β}
    (h : Agree f env env' n.usedLocals) (hk : ∀ n, SameOutcomeUpTo Eq (k n s) (k' n s)) :
    SameOutcomeUpTo Eq ((lift (env.copyLength n) >>= k) s)
      ((lift (env'.copyLength (n.rename f)) >>= k') s) := by
  cases n with
  | explicit o =>
    -- a length that is given is read like an offset
    have hmap : ∀ (r : Except RunError Int64) (k : Option Int64 → Action RunError β),
        (lift (some <$> r) >>= k) = (lift r >>= fun n => k (some n)) := by
      intro r k
      cases r <;> rfl
    rw [Env.copyLength, CopyLength.rename, Env.copyLength, hmap, hmap]
    exact sameOutcome_offset h fun n => hk (some n)
  | remaining => exact hk none

/-- Items are looked up alike. -/
theorem mapM_value_rename {items : List Local} (h : Agree f env env' items) :
    (items.map f).mapM env'.value = items.mapM env.value := by
  induction items with
  | nil => rfl
  | cons l items ih =>
    obtain ⟨v, hv, hv'⟩ := h l List.mem_cons_self
    have hrest := ih (h.mono fun l' hl' => List.mem_cons_of_mem l hl')
    rw [List.map_cons, List.mapM_cons, List.mapM_cons, hrest, Env.value_eq_ok.mpr hv,
      Env.value_eq_ok.mpr hv']

/-- An expression that has been renamed ends as the expression does, if the locals that it reads
hold the same values under their new names. -/
theorem Expr.sameOutcome_rename {e : Expr} (h : Agree f env env' e.usedLocals) (s : Store) :
    SameOutcomeUpTo Eq (e.eval env s) ((e.rename f).eval env' s) := by
  -- the operands are read one after another, and nothing but them depends on the locals
  cases e with
  | intLit | primLit | invokeWrapper | sequenceLit => exact .rfl_eq _
  | var l =>
    obtain ⟨v, hv, hv'⟩ := h l List.mem_cons_self
    rw [rename, eval, eval, Env.value_eq_ok.mpr hv, Env.value_eq_ok.mpr hv']
    exact .rfl_eq _
  | tuple items =>
    have hitems : (items.map f).mapM env'.value = items.mapM env.value := mapM_value_rename h
    rw [rename, eval, eval, hitems]
    exact .rfl_eq _
  | newArray | arrayLength | wrapAdapter | copyFromGeneric | genericSize | typeTest | typeOf =>
    exact sameOutcome_operand h List.mem_cons_self fun _ => .rfl_eq _
  | fillArray k size element | load k array index =>
    refine sameOutcome_operand h (by simp [usedLocals]) fun _ => ?_
    exact sameOutcome_operand h (by simp [usedLocals]) fun _ => .rfl_eq _
  | store k array index value =>
    refine sameOutcome_operand h (by simp [usedLocals]) fun _ => ?_
    refine sameOutcome_operand h (by simp [usedLocals]) fun _ => ?_
    exact sameOutcome_operand h (by simp [usedLocals]) fun _ => .rfl_eq _
  | arrayCopy k source sourceOffset destination destinationOffset length =>
    refine sameOutcome_copyLength (h.mono fun l hl => by simp [usedLocals, hl]) fun _ => ?_
    refine sameOutcome_operand h (by simp [usedLocals]) fun _ => ?_
    refine sameOutcome_operand h (by simp [usedLocals]) fun _ => ?_
    refine sameOutcome_offset (h.mono fun l hl => by simp [usedLocals, hl]) fun _ => ?_
    exact sameOutcome_offset (h.mono fun l hl => by simp [usedLocals, hl]) fun _ => .rfl_eq _
  | genericGet sequence index =>
    refine sameOutcome_operand h (by simp [usedLocals]) fun _ => ?_
    exact sameOutcome_operand h (by simp [usedLocals]) fun _ => .rfl_eq _
  | genericSet sequence index value =>
    refine sameOutcome_operand h (by simp [usedLocals]) fun _ => ?_
    refine sameOutcome_operand h (by simp [usedLocals]) fun _ => ?_
    -- the index is checked before the value is read
    refine .bind_self fun _ _ => .bind_self fun _ _ => ?_
    exact sameOutcome_operand h (by simp [usedLocals]) fun _ => .rfl_eq _

end

end ArrayBridge.Erased
