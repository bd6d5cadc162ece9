import ArrayBridge.Proofs.Erased.Sharing

/-!
# Items and element types

A generic sequence answers for its element type whatever it holds. Views hold boxed elements of
their array's kind, and a generic set tests the value, so that only the items that a literal starts
with may be of another type.

Main results:

* `isInstanceOf_of_mem_view` — the items of a view are of its element type.
* `HoldsLiterals.concat` — one evaluation keeps each item of a boxed sequence one of its literal or
  one of the element type.
* `Program.itemsFit_iff` — sequences hold items of their element types exactly if the literals that
  a run binds do.
-/

namespace ArrayBridge.Erased

/-! ## Views -/

/-- A boxed value is of the class of its kind. -/
theorem isInstanceOf_box (p : Prim) : p.box.isInstanceOf (.boxed p.kind) = true := by
  have htype : p.box.descriptor = .boxed p.kind := by
    rw [Boxed.descriptor, Prim.typeName_box]
    rfl
  rw [Boxed.isInstanceOf, htype, Descriptor.conformsTo_self]

/-- The items of a view are of its element type. -/
theorem isInstanceOf_of_mem_view {s : Store} {a : ArrayRef} {b : Boxed}
    (hb : b ∈ s.itemsOf (.view a)) : b.isInstanceOf (.boxed a.kind) = true := by
  obtain ⟨p, hp, rfl⟩ := List.mem_map.mp hb
  obtain ⟨w, -, rfl⟩ := List.mem_map.mp hp
  have hbox := isInstanceOf_box (a.kind.ofSlot w)
  rwa [Kind.kind_ofSlot] at hbox

/-- A descriptor of a sequence type has one element type. -/
theorem sequenceOf_injective {d d' : Descriptor} (h : Descriptor.sequenceOf d = .sequenceOf d') :
    d = d' := by
  injection h with _ harguments
  injection harguments

/-! ## Literals -/

/-- Whether the items of a sequence literal are of its element type. -/
def Expr.LiteralFits : Expr → Prop
  | sequenceLit element items => ∀ b ∈ items, b.isInstanceOf element = true
  | _ => True

/-- A literal does not look at its items. -/
theorem itemsOf_newSequence (s : Store) (element : Descriptor) (items : List Boxed) :
    (s.newSequence element items.toArray).2.itemsOf
      (.boxed (s.newSequence element items.toArray).1) = items := by
  have hplace : (s.newSequence element items.toArray).1.place = s.sequences.size := rfl
  rw [Store.itemsOf, Store.items_newSequence, if_pos hplace]

/-- An expression that gives a boxed sequence, and allocates it, is a literal. -/
theorem Expr.exists_literal_of_eval {env : Env} {e : Expr} {s s' : Store} {v : Value} {r : BoxedRef}
    (h : e.eval env s = .ok v s') (halloc : e.Allocates)
    (hr : v.reference? [] = some (.boxed r)) :
    ∃ items, e = .sequenceLit r.element items ∧ s'.itemsOf (.boxed r) = items := by
  cases evaluates_of_eval h with
  | @sequenceLit element items =>
    obtain rfl : (s.newSequence element items.toArray).1 = r := by
      injection hr with hr
      injection hr
    exact ⟨items, rfl, itemsOf_newSequence s element items⟩
  -- what else allocates makes a native array, which is no boxed sequence
  | newArray | fillArray | copyFromGeneric => cases hr
  | _ => exact halloc.elim

/-- Each item of a boxed sequence is one that its literal has put at that index, or is of the
element type. -/
def HoldsLiterals (bs : List Binding) (env : Env) (s : Store) : Prop :=
  ∀ l path r, env.reference? l path = some (.boxed r) →
    ∃ t items, ⟨t, .sequenceLit r.element items⟩ ∈ bs ∧
      ∀ (i : Nat) (b : Boxed), (s.itemsOf (.boxed r))[i]? = some b →
        items[i]? = some b ∨ b.isInstanceOf r.element = true

/-- What is written into a boxed sequence is of its element type. -/
theorem Expr.Edits.item_cases {env : Env} {e : Expr} {s : Store} {r : BoxedRef}
    {edit : List Boxed → List Boxed} (h : e.Edits env s (.boxed r) edit) {items : List Boxed}
    {i : Nat} {b : Boxed} (hb : (edit items)[i]? = some b) :
    items[i]? = some b ∨ b.isInstanceOf r.element = true := by
  generalize hq : Sequence.boxed r = q at h
  cases h with
  -- arrays are edited through views only
  | store => cases hq
  | arrayCopy => cases hq
  | genericSet hread hn hvalue haccepts =>
    subst hq
    rw [List.getElem?_set] at hb
    split at hb
    · split at hb
      · obtain rfl := Option.some.inj hb
        exact .inr haccepts
      · cases hb
    · exact .inl hb

namespace HoldsLiterals

variable {bs : List Binding} {env : Env} {s s' : Store}

theorem empty : HoldsLiterals [] [] .empty := by
  intro l path r hr
  cases hr

theorem concat (h : HoldsLiterals bs env s) (htracked : Tracked bs env s) {b : Binding} {v : Value}
    (heval : b.expr.eval env s = .ok v s') : HoldsLiterals (bs ++ [b]) (env ++ [v]) s' := by
  -- what was referred to before is kept or written
  have hold : ∀ l path r, env.reference? l path = some (.boxed r) →
      ∃ t items, ⟨t, .sequenceLit r.element items⟩ ∈ bs ++ [b] ∧
        ∀ (i : Nat) (c : Boxed), (s'.itemsOf (.boxed r))[i]? = some c →
          items[i]? = some c ∨ c.isInstanceOf r.element = true := by
    intro l path r hr
    obtain ⟨t, items, hmem, hitems⟩ := h l path r hr
    refine ⟨t, items, List.mem_append_left [b] hmem, fun i c hc => ?_⟩
    rcases htracked.itemsOf_eq_or_edits heval hr with hkept | ⟨edit, hedits, hedited⟩
    · rw [hkept] at hc
      exact hitems i c hc
    · rw [hedited] at hc
      rcases hedits.item_cases hc with hc | hinstance
      · exact hitems i c hc
      · exact .inr hinstance
  intro l path r hr
  rcases Env.reference?_concat_cases hr with ⟨-, hr₀⟩ | ⟨rfl, hv⟩
  · exact hold l path r hr₀
  · rcases Expr.reference?_of_eval heval hv with ⟨halloc, rfl⟩ | ⟨m, source, hon⟩
    · obtain ⟨items, hexpr, hitems⟩ := Expr.exists_literal_of_eval heval halloc hv
      refine ⟨b.type, items, ?_, fun i c hc => .inl (hitems ▸ hc)⟩
      rw [← hexpr]
      exact List.mem_append_right bs List.mem_cons_self
    · obtain ⟨-, hsource⟩ := hon.reference?_eq heval
      exact hold m source r (hsource.symm.trans hv)

end HoldsLiterals

/-- In every state that is reached, what is known of literals holds. -/
theorem holdsLiterals_of_evalBindings {bs : List Binding} {env : Env} {s : Store}
    (h : evalBindings [] bs .empty = .ok env s) : HoldsLiterals bs env s := by
  refine evalBindings_induction .empty ?_ h
  intro bs env s b v s' hrun hholds heval
  exact hholds.concat (tracked_of_evalBindings hrun) heval

/-! ## Programs -/

/-- Whether every generic sequence that is referred to holds items of its element type only. -/
def Env.ItemsFit (env : Env) (s : Store) : Prop :=
  ∀ l path q element, env.reference? l path = some q → q.descriptor = .sequenceOf element →
    ∀ b ∈ s.itemsOf q, b.isInstanceOf element = true

namespace Program

variable {p : Program} {before rest : List Binding} {env : Env} {s : Store}

/-- Whether in every state that a program reaches all sequences hold items of their element types.
-/
def ItemsFit (p : Program) : Prop :=
  ∀ before rest env s, p.bindings = before ++ rest → evalBindings [] before .empty = .ok env s →
    env.ItemsFit s

/-- In every state that a program reaches, an item that is not of the element type of its sequence
comes from a literal, which has it at the same index. -/
theorem exists_literal_of_not_isInstanceOf (hreached : evalBindings [] before .empty = .ok env s)
    {l : Local} {path : List Nat} {q : Sequence} {element : Descriptor} {i : Nat} {b : Boxed}
    (hq : env.reference? l path = some q) (helement : q.descriptor = .sequenceOf element)
    (hb : (s.itemsOf q)[i]? = some b) (hnot : b.isInstanceOf element = false) :
    ∃ t items, ⟨t, .sequenceLit element items⟩ ∈ before ∧ items[i]? = some b := by
  -- A view boxes the elements of its array, all of which are of its element type.
  cases q with
  | view a =>
    obtain rfl := sequenceOf_injective helement
    rw [isInstanceOf_of_mem_view (List.mem_of_getElem? hb)] at hnot
    cases hnot
  | boxed r =>
    obtain rfl := sequenceOf_injective helement
    obtain ⟨t, items, hmem, hitems⟩ := holdsLiterals_of_evalBindings hreached l path r hq
    rcases hitems i b hb with hitem | hinstance
    · exact ⟨t, items, hmem, hitem⟩
    · rw [hinstance] at hnot
      cases hnot

/-- Sequences hold items of their element types exactly if the literals that the run binds do. -/
theorem itemsFit_iff : p.ItemsFit ↔ p.EachBound fun _ b => b.expr.LiteralFits := by
  constructor
  · intro hfit before b after hbs hlt
    cases hexpr : b.expr with
    | sequenceLit element items =>
      -- the state right after the literal, where its items are as they were given
      have hsplit : p.bindings = (before ++ [b]) ++ after := by
        rw [hbs, List.append_assoc, List.singleton_append]
      have hle : (before ++ [b]).length ≤ p.boundValues.length := by
        rw [List.length_append, List.length_singleton]
        exact hlt
      obtain ⟨env, s, hreached⟩ := (exists_reached_iff hsplit).mpr hle
      obtain ⟨env₀, s₀, v, s₁, -, heval, hrest⟩ := exists_eval_of_evalBindings hreached
      injection hrest with henv hs
      subst henv hs
      rw [hexpr] at heval
      cases Expr.evaluates_of_eval heval
      intro c hc
      refine hfit (before ++ [b]) after _ _ hsplit hreached env₀.length [] _ element
        Env.reference?_concat_length rfl c ?_
      rwa [itemsOf_newSequence]
    | _ => trivial
  · intro hliterals before rest env s hp hreached l path q element hq helement b hb
    by_contra hnot
    obtain ⟨i, hi⟩ := List.mem_iff_getElem?.mp hb
    obtain ⟨t, items, hmem, hitem⟩ := exists_literal_of_not_isInstanceOf hreached hq helement hi
      (Bool.eq_false_iff.mpr hnot)
    obtain ⟨pre, post, rfl⟩ := List.append_of_mem hmem
    have hsplit : p.bindings = pre ++ ⟨t, .sequenceLit element items⟩ :: (post ++ rest) := by
      rw [hp, List.append_assoc, List.cons_append]
    have hle := (exists_reached_iff hp).mp ⟨env, s, hreached⟩
    rw [List.length_append, List.length_cons] at hle
    exact hnot (hliterals pre _ _ hsplit (by omega) b (List.mem_of_getElem? hitem))

end Program

end ArrayBridge.Erased
