import Mathlib.Data.List.Forall2

/-!
# Going through a list

Checks and look-ups that are made for the items of a list in turn. The whole succeeds exactly if
each of them does, and then the results stand beside the items one by one. Proofs use
`List.Forall₂` from there on and do not open the traversal.

Main results:

* `mapM_eq_ok_iff`, `mapM_eq_some_iff` — what a traversal gives, item by item.
* `mapM_eq_error_iff` — a traversal fails at the first item that is refused.
* `mapM_getElem?_map` — looking up commutes with a map on what is looked up.
-/

namespace ArrayBridge

variable {α β γ ε : Type}

/-- Items that are each related to something are related to a list. -/
theorem exists_forall₂ {R : α → β → Prop} {xs : List α} (h : ∀ x ∈ xs, ∃ y, R x y) :
    ∃ ys, List.Forall₂ R xs ys := by
  induction xs with
  | nil => exact ⟨[], .nil⟩
  | cons x xs ih =>
    obtain ⟨y, hy⟩ := h x List.mem_cons_self
    obtain ⟨ys, hys⟩ := ih fun x' hx' => h x' (List.mem_cons_of_mem x hx')
    exact ⟨y :: ys, .cons hy hys⟩

/-- What is in the second of two related lists is related to something in the first. -/
theorem exists_of_forall₂_right {R : α → β → Prop} {xs : List α} {ys : List β}
    (h : List.Forall₂ R xs ys) {y : β} (hy : y ∈ ys) : ∃ x ∈ xs, R x y := by
  induction h with
  | nil => cases hy
  | @cons x y' xs ys hxy _ ih =>
    rcases List.mem_cons.mp hy with rfl | hy
    · exact ⟨x, List.mem_cons_self, hxy⟩
    · obtain ⟨x', hx', hR⟩ := ih hy
      exact ⟨x', List.mem_cons_of_mem x hx', hR⟩

/-! ## Checks -/

namespace Check

/-- A sequence of checks succeeds exactly if each does. -/
theorem bind_eq_ok {x : Except ε α} {f : α → Except ε β} {b : β} :
    (x >>= f) = .ok b ↔ ∃ a, x = .ok a ∧ f a = .ok b := by
  cases x with
  | error e => simp [bind, Except.bind]
  | ok a => simp [bind, Except.bind]

/-- It fails exactly if one of them does, and as that one does. -/
theorem bind_eq_error {x : Except ε α} {f : α → Except ε β} {e : ε} :
    (x >>= f) = .error e ↔ x = .error e ∨ ∃ a, x = .ok a ∧ f a = .error e := by
  cases x with
  | error e => simp [bind, Except.bind]
  | ok a => simp [bind, Except.bind]

/-- A check that succeeds hands on what it found. -/
theorem ok_bind (a : α) (f : α → Except ε β) : (Except.ok a >>= f) = f a := rfl

theorem pure_eq_ok {a b : α} : (pure a : Except ε α) = .ok b ↔ a = b := by
  simp [pure, Except.pure]

/-- Another account of its failures does not change what a check finds. -/
theorem mapError_eq_ok {ε' : Type} {f : ε → ε'} {x : Except ε α} {a : α} :
    x.mapError f = .ok a ↔ x = .ok a := by
  cases x <;> simp [Except.mapError]

theorem mapError_eq_error {ε' : Type} {f : ε → ε'} {x : Except ε α} {e : ε'} :
    x.mapError f = .error e ↔ ∃ e₀, x = .error e₀ ∧ f e₀ = e := by
  cases x <;> simp [Except.mapError]

/-- The account of the failures of a sequence of checks is that of each. -/
theorem mapError_bind {ε' : Type} (g : ε → ε') (x : Except ε α) (f : α → Except ε β) :
    (x >>= f).mapError g = (x.mapError g >>= fun a => (f a).mapError g) := by
  cases x <;> rfl

/-- A check fails exactly if it does not succeed. -/
theorem exists_eq_error_iff {x : Except ε α} : (∃ e, x = .error e) ↔ ¬ ∃ a, x = .ok a := by
  cases x <;> simp

/-- Two checks agree if they fail alike, or both succeed and what they find is related. -/
inductive Agree (R : α → β → Prop) : Except ε α → Except ε β → Prop
  | error (e : ε) : Agree R (.error e) (.error e)
  | ok {a : α} {b : β} (h : R a b) : Agree R (.ok a) (.ok b)

theorem Agree.self (x : Except ε α) : Agree (fun a b => x = .ok a ∧ b = a) x x := by
  cases x with
  | error e => exact .error e
  | ok a => exact .ok ⟨rfl, rfl⟩

/-- Checks that agree may be gone on from, in ways that agree for what they find. -/
theorem Agree.bind {γ' : Type} {R : α → β → Prop} {S : γ → γ' → Prop} {x : Except ε α}
    {y : Except ε β} {f : α → Except ε γ} {g : β → Except ε γ'} (h : Agree R x y)
    (hfg : ∀ a b, R a b → Agree S (f a) (g b)) : Agree S (x >>= f) (y >>= g) := by
  cases h with
  | error e => exact .error e
  | ok h => exact hfg _ _ h

end Check

/-- A traversal succeeds if each item does, with their results in order. -/
theorem mapM_eq_ok_iff {f : α → Except ε β} {xs : List α} {ys : List β} :
    xs.mapM f = .ok ys ↔ List.Forall₂ (fun x y => f x = .ok y) xs ys := by
  induction xs generalizing ys with
  | nil => rw [List.mapM_nil, Check.pure_eq_ok, List.forall₂_nil_left_iff, eq_comm]
  | cons x xs ih =>
    simp only [List.mapM_cons, Check.bind_eq_ok, Check.pure_eq_ok, ih,
      List.forall₂_cons_left_iff]
    constructor
    · rintro ⟨y, hy, ys', hys, rfl⟩
      exact ⟨y, ys', hy, hys, rfl⟩
    · rintro ⟨y, ys', hy, hys, rfl⟩
      exact ⟨y, hy, ys', hys, rfl⟩

/-- So it has a result if each item has one. -/
theorem exists_mapM_eq_ok {f : α → Except ε β} {xs : List α}
    (h : ∀ x ∈ xs, ∃ y, f x = .ok y) : ∃ ys, xs.mapM f = .ok ys := by
  obtain ⟨ys, hys⟩ := exists_forall₂ h
  exact ⟨ys, mapM_eq_ok_iff.mpr hys⟩

/-- A traversal fails at the first item that is refused. -/
theorem mapM_eq_error_iff {f : α → Except ε β} {xs : List α} {e : ε} :
    xs.mapM f = .error e ↔ ∃ (i : Nat) (x : α), xs[i]? = some x ∧ f x = .error e ∧
      ∀ (j : Nat) (y : α), j < i → xs[j]? = some y → ∃ z, f y = .ok z := by
  -- the first item is refused, or the first refused one is among the others, one place further
  induction xs with
  | nil => simp [pure, Except.pure]
  | cons x xs ih =>
    cases hx : f x with
    | error e' =>
      have hhead : (x :: xs).mapM f = .error e' := by simp [hx, bind, Except.bind]
      rw [hhead]
      constructor
      · rintro ⟨⟩
        exact ⟨0, x, rfl, hx, fun j _ hj => absurd hj (Nat.not_lt_zero j)⟩
      · -- nothing after the first item is looked at
        rintro ⟨i, found, hi, hfound, hbefore⟩
        cases i with
        | zero =>
          obtain rfl := Option.some.inj hi
          obtain rfl := Except.error.inj (hx.symm.trans hfound)
          rfl
        | succ i =>
          obtain ⟨z, hz⟩ := hbefore 0 x (Nat.succ_pos i) rfl
          rw [hx] at hz
          cases hz
    | ok y =>
      have htail : (x :: xs).mapM f = .error e ↔ xs.mapM f = .error e := by
        cases hxs : xs.mapM f <;> simp [hx, hxs, bind, Except.bind, pure, Except.pure]
      rw [htail, ih]
      constructor
      · rintro ⟨i, found, hi, hfound, hbefore⟩
        refine ⟨i + 1, found, hi, hfound, fun j y' hj hy' => ?_⟩
        cases j with
        | zero =>
          obtain rfl := Option.some.inj hy'
          exact ⟨y, hx⟩
        | succ j => exact hbefore j y' (Nat.lt_of_succ_lt_succ hj) hy'
      · rintro ⟨i, found, hi, hfound, hbefore⟩
        cases i with
        | zero =>
          obtain rfl := Option.some.inj hi
          rw [hx] at hfound
          cases hfound
        | succ i =>
          exact ⟨i, found, hi, hfound,
            fun j y' hj hy' => hbefore (j + 1) y' (Nat.succ_lt_succ hj) hy'⟩

/-- A traversal fails at one of its items. -/
theorem exists_of_mapM_eq_error {f : α → Except ε β} {xs : List α} {e : ε}
    (h : xs.mapM f = .error e) : ∃ x ∈ xs, f x = .error e := by
  obtain ⟨i, x, hi, hx, -⟩ := mapM_eq_error_iff.mp h
  exact ⟨x, List.mem_of_getElem? hi, hx⟩

/-! ## Look-ups -/

/-- The same for results that may be missing. -/
theorem mapM_eq_some_iff {f : α → Option β} {xs : List α} {ys : List β} :
    xs.mapM f = some ys ↔ List.Forall₂ (fun x y => f x = some y) xs ys := by
  induction xs generalizing ys with
  | nil => simp [eq_comm]
  | cons x xs ih =>
    rw [List.mapM_cons, List.forall₂_cons_left_iff]
    constructor
    · intro h
      obtain ⟨y, hy, h⟩ := Option.bind_eq_some_iff.mp h
      obtain ⟨ys', hys, h⟩ := Option.bind_eq_some_iff.mp h
      exact ⟨y, ys', hy, ih.mp hys, (Option.some.inj h).symm⟩
    · rintro ⟨y, ys', hy, hys, rfl⟩
      rw [hy, ih.mpr hys]
      rfl

theorem exists_mapM_eq_some {f : α → Option β} {xs : List α}
    (h : ∀ x ∈ xs, ∃ y, f x = some y) : ∃ ys, xs.mapM f = some ys := by
  obtain ⟨ys, hys⟩ := exists_forall₂ h
  exact ⟨ys, mapM_eq_some_iff.mpr hys⟩

/-- Looking up the places of a list commutes with a map on what is looked up. -/
theorem mapM_getElem?_map (f : α → β) (xs : List α) (places : List Nat) :
    places.mapM ((xs.map f)[·]?) = (places.mapM (xs[·]?)).map (List.map f) := by
  induction places with
  | nil => rfl
  | cons i places ih =>
    rw [List.mapM_cons, List.mapM_cons, ih, List.getElem?_map]
    -- a place that is out of range fails before and after mapping
    cases xs[i]? with
    | none => rfl
    | some x => cases places.mapM (xs[·]?) <;> rfl

/-- What is in a list stays where it is when more is added at the end. -/
theorem getElem?_append_of_eq_some {xs ys : List α} {i : Nat} {x : α} (h : xs[i]? = some x) :
    (xs ++ ys)[i]? = some x := by
  rw [List.getElem?_append_left (List.getElem?_eq_some_iff.mp h).1, h]

/-- A list is taken apart at an item that is found in it. -/
theorem exists_append_of_getElem? {xs : List α} {i : Nat} {x : α} (h : xs[i]? = some x) :
    ∃ before after, xs = before ++ x :: after ∧ before.length = i := by
  obtain ⟨hi, rfl⟩ := List.getElem?_eq_some_iff.mp h
  refine ⟨xs.take i, xs.drop (i + 1), ?_, List.length_take_of_le (Nat.le_of_lt hi)⟩
  rw [List.getElem_cons_drop, List.take_append_drop]

/-- What is found in a list with one item added is an old item, or the added one. -/
theorem getElem?_concat_cases {xs : List α} {x y : α} {i : Nat}
    (h : (xs ++ [x])[i]? = some y) :
    i < xs.length ∧ xs[i]? = some y ∨ i = xs.length ∧ y = x := by
  rcases Nat.lt_or_ge i xs.length with hlt | hge
  · rw [List.getElem?_append_left hlt] at h
    exact .inl ⟨hlt, h⟩
  · -- past the others there is only the last
    have hi : i = xs.length := by
      have hlt := (List.getElem?_eq_some_iff.mp h).1
      rw [List.length_append, List.length_singleton] at hlt
      omega
    rw [hi, List.getElem?_concat_length] at h
    exact .inr ⟨hi, (Option.some.inj h).symm⟩

/-- Where two lists look alike through two views, an item of the one has its like in the other. -/
theorem exists_of_map_eq_map {f : α → γ} {g : β → γ} {xs : List α} {ys : List β}
    (h : xs.map f = ys.map g) {i : Nat} {x : α} (hx : xs[i]? = some x) :
    ∃ y, ys[i]? = some y ∧ g y = f x := by
  have hat := congrArg (·[i]?) h
  simp only [List.getElem?_map, hx, Option.map_some] at hat
  exact Option.map_eq_some_iff.mp hat.symm

end ArrayBridge
