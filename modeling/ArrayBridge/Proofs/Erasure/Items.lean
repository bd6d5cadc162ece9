import ArrayBridge.Proofs.Erased.Items
import ArrayBridge.Proofs.Erasure.Placing

/-!
# Items of erased programs

Erasure makes no sequence literals of its own, and does not look at the items of those that it
finds. So a sequence of an erased program holds an item of another type exactly if a literal of the
bridge program has put it there.

Main results:

* `Placement.literal_of_code` — placing the code of a binding adds the literal of the binding at
  most.
* `Bridge.Program.itemsFit_iff_of_erase` — sequences hold items of their element types exactly if
  the literals that the run binds do, and only the items of a literal can be of another type.
-/

namespace ArrayBridge.Erasure

variable {element : Descriptor} {items : List Boxed}

/-! ## Plans -/

/-- A plan that binds a literal is that of the same literal. -/
theorem Scope.Plans.eq_sequenceLit {scope : Scope} {t : Bridge.Ty} {expr : Bridge.Expr}
    {u : Erased.Ty} (h : scope.Plans t expr (.bind u (.sequenceLit element items))) :
    expr = .sequenceLit element items := by
  cases h with
  | sequenceLit => rfl
  | construct hconstructs => cases hconstructs

/-- An array that is constructed is no literal. -/
theorem Scope.Plans.ne_sequenceLit {scope : Scope} {t : Bridge.Ty} {expr : Bridge.Expr} {k : Kind}
    {array : Erased.Expr} (h : scope.Plans t expr (.adaptFresh k array)) :
    array ≠ .sequenceLit element items := by
  cases h with
  | constructView hconstructs => cases hconstructs <;> exact nofun

namespace Placement

/-! ## Placing code -/

variable {policy : AdapterPolicy} {p p' : Placement} {t : Erased.Ty}

/-- A sequence literal among placed code was there before, or is what has just been placed. -/
theorem literal_of_emit {u : Erased.Ty} {expr : Erased.Expr}
    (h : ⟨t, .sequenceLit element items⟩ ∈ (p.emit u expr).2.bindings) :
    ⟨t, .sequenceLit element items⟩ ∈ p.bindings ∨ expr = .sequenceLit element items := by
  rcases List.mem_append.mp h with hold | hnew
  · exact .inl hold
  · have heq := List.mem_singleton.mp hnew
    injection heq with _ hexpr
    exact .inr hexpr.symm

/-- Adapters are no literals, -/
theorem literal_of_adapter {source : ArraySource}
    (h : ⟨t, .sequenceLit element items⟩ ∈ (p.adapter policy source).2.bindings) :
    ⟨t, .sequenceLit element items⟩ ∈ p.bindings := by
  cases hmade : p.adapter? policy source.source with
  | some l =>
    simp only [adapter, hmade] at h
    exact h
  | none =>
    simp only [adapter, hmade] at h
    -- what is emitted for an adapter is a call, which is no literal
    rcases literal_of_emit h with hold | hexpr
    · exact hold
    · cases hexpr

/-- and generic operands place nothing else. -/
theorem literal_of_generic {operand : Generic}
    (h : ⟨t, .sequenceLit element items⟩ ∈ (p.generic policy operand).2.bindings) :
    ⟨t, .sequenceLit element items⟩ ∈ p.bindings := by
  cases operand with
  | plain l => exact h
  | adapted source => exact literal_of_adapter h

/-- Placing the code of a binding adds the literal of the binding at most. -/
theorem literal_of_code {u : Bridge.Ty} {expr : Bridge.Expr} {plan : Plan}
    (hplan : p.scope.Plans u expr plan)
    (h : ⟨t, .sequenceLit element items⟩ ∈ (p.code policy plan).2.bindings) :
    ⟨t, .sequenceLit element items⟩ ∈ p.bindings ∨ expr = .sequenceLit element items := by
  cases plan with
  | bind v code =>
    rcases literal_of_emit h with hold | rfl
    · exact .inl hold
    · exact .inr hplan.eq_sequenceLit
  | use v operand use =>
    rcases literal_of_emit h with hold | hexpr
    · exact .inl (literal_of_generic hold)
    · cases use <;> cases hexpr
  | adapt source => exact .inl (literal_of_adapter h)
  | adaptFresh k array =>
    -- a fresh array is emitted first, and then its adapter
    rcases literal_of_emit (literal_of_adapter h) with hold | hexpr
    · exact .inl hold
    · exact absurd hexpr hplan.ne_sequenceLit

/-- What is placed for a list of bindings has the literals of these bindings only. -/
theorem literal_of_eraseAll {bs : List Bridge.Binding} (h : p.eraseAll policy bs = .ok p')
    (hb : ⟨t, .sequenceLit element items⟩ ∈ p'.bindings) :
    ⟨t, .sequenceLit element items⟩ ∈ p.bindings ∨
      ∃ u, ⟨u, .sequenceLit element items⟩ ∈ bs := by
  induction bs generalizing p with
  | nil =>
    injection h with h
    exact .inl (h ▸ hb)
  | cons b bs ih =>
    obtain ⟨p₁, hfirst, hrest⟩ := Check.bind_eq_ok.mp h
    -- the literal comes from this binding or from one of those that follow
    rcases ih hrest with hplaced | ⟨u, hu⟩
    · obtain ⟨plan, hplan, rfl⟩ := erase_eq_ok.mp hfirst
      rcases literal_of_code (Scope.plans_of_plan hplan) hplaced with hold | hexpr
      · exact .inl hold
      · refine .inr ⟨b.type, ?_⟩
        rw [← hexpr]
        exact List.mem_cons_self
    · exact .inr ⟨u, List.mem_cons_of_mem b hu⟩

end Placement

end ArrayBridge.Erasure

/-! ## Bridge programs -/

namespace ArrayBridge.Bridge.Program

/-- An erased program has the literals of the bridge program only. -/
theorem exists_literal_of_erase {policy : AdapterPolicy} {p : Bridge.Program} {e : Erased.Program}
    (h : p.erase policy = .ok e) {t : Erased.Ty} {element : Descriptor} {items : List Boxed}
    (hb : ⟨t, .sequenceLit element items⟩ ∈ e.bindings) :
    ∃ u, ⟨u, .sequenceLit element items⟩ ∈ p.bindings := by
  obtain ⟨placed, b, hplaced, -, rfl⟩ := Erasure.exists_placement_of_erase h
  rcases Erasure.Placement.literal_of_eraseAll hplaced hb with hempty | hu
  · cases hempty
  · exact hu

/-- In every state that an erased program reaches, all sequences hold items of their element types
exactly if the literals that the run binds do. Only the items of a literal of the bridge program can
be of another type, at the indices where the literal has them: views hold what their element types
say, and what is written is of the element type. -/
theorem itemsFit_iff_of_erase {policy : AdapterPolicy} {p : Bridge.Program} {e : Erased.Program}
    (h : p.erase policy = .ok e) :
    (e.ItemsFit ↔ e.EachBound fun _ b => b.expr.LiteralFits) ∧
      ∀ before rest env s, e.bindings = before ++ rest →
        Erased.evalBindings [] before .empty = .ok env s →
        ∀ l path q element (i : Nat) (b : Boxed), env.reference? l path = some q →
          q.descriptor = .sequenceOf element → (s.itemsOf q)[i]? = some b →
          b.isInstanceOf element = false →
          ∃ t items, ⟨t, .sequenceLit element items⟩ ∈ p.bindings ∧ items[i]? = some b := by
  refine ⟨Erased.Program.itemsFit_iff, ?_⟩
  intro before rest env s hsplit hreached l path q element i b hq helement hb hnot
  obtain ⟨t, items, hmem, hitem⟩ :=
    Erased.Program.exists_literal_of_not_isInstanceOf hreached hq helement hb hnot
  obtain ⟨u, hu⟩ := exists_literal_of_erase h (hsplit ▸ List.mem_append_left rest hmem)
  exact ⟨u, items, hu, hitem⟩

/-- A literal of integers that holds a truth value is accepted, and keeps it. -/
theorem itemsFit_iff_of_erase_boolean :
    ∃ (p : Bridge.Program) (e : Erased.Program), p.erase .shared = .ok e ∧ ¬ e.ItemsFit := by
  let literal : Erased.Binding :=
    ⟨.object .anything, .sequenceLit (.language "Integer") [.boolean true]⟩
  let p : Bridge.Program :=
    ⟨[⟨.object .anything, .sequenceLit (.language "Integer") [.boolean true]⟩], 0⟩
  let e : Erased.Program := ⟨[literal], 0⟩
  have herase : p.erase .shared = .ok e := by rfl
  refine ⟨p, e, herase, fun hfit => ?_⟩
  have hliterals := (itemsFit_iff_of_erase herase).1.mp hfit
  have hbound : ([] : List Erased.Binding).length < e.boundValues.length := by decide
  have hinstance := hliterals [] literal [] rfl hbound (.boolean true) List.mem_cons_self
  exact absurd hinstance (by decide)

end ArrayBridge.Bridge.Program
