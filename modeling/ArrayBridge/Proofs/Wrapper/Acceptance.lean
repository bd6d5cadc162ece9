import ArrayBridge.Proofs.Wrapper.Resolution

/-!
# Which calls are resolved

A call is resolved in one pass over its arguments, which stops at the first that cannot be placed.
What it accepts can be said of the argument list as a whole: in every state of the pass the slots
are the entries of the arguments that have been placed, and the next argument can be placed exactly
if the list stays placeable with it.

Main results:

* `Signature.place_entries_cons` — what one argument does to the slots.
* `Signature.place_entries` — so a list is placed exactly if it is placeable.
* `Signature.resolve_eq_ok_iff` — which calls are resolved, and to which slots.
* `Operation.resolvesWellFormed` — the operations of an array wrapper take the well-formed calls,
  each argument of which ends up in one slot.
-/

namespace ArrayBridge

/-! ## Argument lists -/

namespace Argument

variable {α : Type}

/-- The value of a positional argument. -/
def positional? : Argument α → Option α
  | positional v => some v
  | named _ _ => none

/-- The name of a named argument. -/
def name? : Argument α → Option String
  | positional _ => none
  | named name _ => some name

/-- The value of an argument of the given name. -/
def valueNamed? (name : String) : Argument α → Option α
  | positional _ => none
  | named name' v => if name' = name then some v else none

/-- The positional arguments of a list, in order. -/
def positionals (args : List (Argument α)) : List α := args.filterMap positional?

/-- The names of the named arguments of a list, in order. -/
def names (args : List (Argument α)) : List String := args.filterMap name?

/-- The value that an argument list gives under a name. -/
def lookup? (args : List (Argument α)) (name : String) : Option α :=
  args.findSome? (valueNamed? name)

variable {args args' : List (Argument α)} {name : String} {v : α}

theorem positionals_append :
    positionals (args ++ args') = positionals args ++ positionals args' :=
  List.filterMap_append

@[simp] theorem positionals_concat_positional :
    positionals (args ++ [.positional v]) = positionals args ++ [v] :=
  positionals_append

@[simp] theorem positionals_concat_named :
    positionals (args ++ [.named name v]) = positionals args :=
  positionals_append.trans (List.append_nil _)

theorem names_append : names (args ++ args') = names args ++ names args' :=
  List.filterMap_append

@[simp] theorem names_concat_positional : names (args ++ [.positional v]) = names args :=
  names_append.trans (List.append_nil _)

@[simp] theorem names_concat_named : names (args ++ [.named name v]) = names args ++ [name] :=
  names_append

@[simp] theorem lookup?_concat_positional :
    lookup? (args ++ [.positional v]) name = lookup? args name :=
  List.findSome?_append.trans (Option.or_none ..)

@[simp] theorem lookup?_concat_named {name' : String} :
    lookup? (args ++ [.named name' v]) name =
      (lookup? args name).or (if name' = name then some v else none) := by
  rw [lookup?, List.findSome?_append, List.findSome?_singleton]
  rfl

/-- A value is found under the names that are there. -/
theorem lookup?_eq_none_iff : lookup? args name = none ↔ name ∉ names args := by
  rw [lookup?, names, List.findSome?_eq_none_iff, List.mem_filterMap]
  push Not
  refine forall₂_congr fun arg _ => ?_
  cases arg <;> simp [valueNamed?, name?]

/-- If no name is given twice, each argument is found under its name. -/
theorem lookup?_eq_some_iff (h : (names args).Nodup) :
    lookup? args name = some v ↔ .named name v ∈ args := by
  induction args with
  | nil => simp [lookup?]
  | cons arg args ih =>
    cases arg with
    | positional w => exact (ih h).trans (by simp)
    | named name' w =>
      obtain ⟨hname', hnames⟩ := List.nodup_cons.mp h
      by_cases hname : name' = name
      · -- the name is not given again
        subst hname
        have hrest : .named name' v ∉ args := fun hmem =>
          hname' (List.mem_filterMap.mpr ⟨_, hmem, rfl⟩)
        simp [lookup?, valueNamed?, hrest, eq_comm]
      · have hskip : lookup? (.named name' w :: args) name = lookup? args name := by
          simp [lookup?, valueNamed?, hname]
        rw [hskip, ih hnames]
        simp [Ne.symm hname]

/-- A list without names is one of positional arguments. -/
theorem length_positionals (h : names args = []) : (positionals args).length = args.length := by
  induction args with
  | nil => rfl
  | cons arg args ih =>
    cases arg with
    | positional v => exact congrArg Nat.succ (ih h)
    | named name v => cases h

theorem names_eq_nil_iff : names args = [] ↔ ∀ arg ∈ args, arg.positional? ≠ none := by
  rw [names, List.filterMap_eq_nil_iff]
  refine forall₂_congr fun arg _ => ?_
  cases arg <;> simp [name?, positional?]

/-- One list of arguments is another in which named arguments have changed places with each other:
every positional argument stands where it stood. -/
structure Reorders (args args' : List (Argument α)) : Prop where
  perm : args'.Perm args
  positional : args'.map positional? = args.map positional?

namespace Reorders

theorem symm (h : Reorders args args') : Reorders args' args := ⟨h.perm.symm, h.positional.symm⟩

/-- Reordering named arguments leaves the positional ones in place. -/
theorem positionals_eq (h : Reorders args args') : positionals args' = positionals args := by
  have hmap : ∀ args : List (Argument α),
      positionals args = (args.map positional?).filterMap id := by
    intro args
    rw [List.filterMap_map]
    rfl
  rw [hmap, h.positional, ← hmap]

theorem perm_names (h : Reorders args args') : (names args').Perm (names args) :=
  h.perm.filterMap name?

end Reorders

end Argument

open Argument (positionals names lookup?)

namespace Signature

variable {α : Type} {s : Signature} {args before : List (Argument α)} {slots : List (Option α)}

/-! ## Well-formed calls -/

/-- An argument list whose arguments can all be placed, as far as there are places. -/
structure Placeable (s : Signature) (args : List (Argument α)) : Prop where
  /-- No positional argument follows a named one. -/
  ordered : args.Pairwise fun arg later => arg.positional? = none → later.positional? = none
  /-- Every name is that of a parameter. -/
  known : ∀ name ∈ names args, ∃ param ∈ s.params, param.name = name
  /-- No parameter is supplied twice by name. -/
  distinct : (names args).Nodup
  /-- None is supplied both by position and by name. -/
  apart : ∀ (i : Nat) (param : Param), s.params[i]? = some param →
    i < (positionals args).length → param.name ∉ names args

/-- A well-formed call. -/
structure Fits (s : Signature) (args : List (Argument α)) : Prop extends s.Placeable args where
  /-- There are no more arguments than parameters. -/
  few : args.length ≤ s.params.length
  /-- Every parameter without a default is supplied by position or by name. -/
  complete : ∀ (i : Nat) (param : Param), s.params[i]? = some param → param.default = none →
    i < (positionals args).length ∨ param.name ∈ names args

/-- One entry for each parameter: the positional argument of its place, or else the argument of its
name, if there is one. -/
def entries (s : Signature) (args : List (Argument α)) : List (Option α) :=
  s.params.mapIdx fun i param => ((positionals args)[i]?).or (lookup? args param.name)

@[simp] theorem length_entries : (s.entries args).length = s.params.length := by
  rw [entries, List.length_mapIdx]

/-- A parameter takes the argument at its place, or else the one by its name. -/
theorem getElem?_entries (i : Nat) :
    (s.entries args)[i]? =
      s.params[i]?.map fun param => ((positionals args)[i]?).or (lookup? args param.name) := by
  rw [entries, List.getElem?_mapIdx]

theorem entries_nil : s.entries ([] : List (Argument α)) = s.params.map fun _ => none := by
  refine List.ext_getElem? fun i => ?_
  rw [getElem?_entries, List.getElem?_map]
  rfl

/-- An entry is empty if its parameter is supplied neither by position nor by name. -/
theorem getElem?_entries_eq_none {i : Nat} {param : Param} (hparam : s.params[i]? = some param) :
    (s.entries args)[i]? = some none ↔
      (positionals args).length ≤ i ∧ param.name ∉ names args := by
  rw [getElem?_entries, hparam, Option.map_some, Option.some.injEq, Option.or_eq_none_iff,
    List.getElem?_eq_none_iff, Argument.lookup?_eq_none_iff]

/-! ## Placing one argument -/

theorem placeable_nil : s.Placeable ([] : List (Argument α)) :=
  ⟨.nil, by simp [names], by simp [names], by simp [names]⟩

/-- Arguments that can be placed can be placed up to any of them. -/
theorem Placeable.of_append {args' : List (Argument α)} (h : s.Placeable (args ++ args')) :
    s.Placeable args := by
  have hdistinct := h.distinct
  rw [Argument.names_append] at hdistinct
  have hnames : ∀ name ∈ names args, name ∈ names (args ++ args') := fun name hname =>
    Argument.names_append ▸ List.mem_append_left _ hname
  constructor
  case ordered => exact (List.pairwise_append.mp h.ordered).1
  case known => exact fun name hname => h.known name (hnames name hname)
  case distinct => exact (List.nodup_append.mp hdistinct).1
  case apart =>
    intro i param hparam hi hname
    refine h.apart i param hparam ?_ (hnames _ hname)
    rw [Argument.positionals_append, List.length_append]
    omega

/-- A positional argument can be placed as long as none has been named. -/
theorem placeable_concat_positional {v : α} :
    s.Placeable (before ++ [.positional v]) ↔ s.Placeable before ∧ names before = [] := by
  constructor
  · intro h
    refine ⟨h.of_append, Argument.names_eq_nil_iff.mpr fun arg harg hnamed => ?_⟩
    have hlater := (List.pairwise_append.mp h.ordered).2.2 arg harg _ List.mem_cons_self hnamed
    cases hlater
  · rintro ⟨h, hnames⟩
    constructor
    case ordered =>
      refine List.pairwise_append.mpr ⟨h.ordered, List.pairwise_singleton _ _, ?_⟩
      intro arg harg _ _ hnamed
      exact absurd hnamed (Argument.names_eq_nil_iff.mp hnames arg harg)
    -- the other conditions are about names, and there are none
    all_goals simp [hnames]

/-- A named argument can be placed if its parameter is there and has not been supplied. -/
theorem placeable_concat_named {name : String} {v : α} :
    s.Placeable (before ++ [.named name v]) ↔
      s.Placeable before ∧ (∃ param ∈ s.params, param.name = name) ∧ name ∉ names before ∧
        ∀ (i : Nat) (param : Param), s.params[i]? = some param →
          i < (positionals before).length → param.name ≠ name := by
  constructor
  · intro h
    have hdistinct := h.distinct
    rw [Argument.names_concat_named, List.nodup_append] at hdistinct
    refine ⟨h.of_append, h.known name (by simp), fun hname => ?_, ?_⟩
    · exact hdistinct.2.2 name hname name List.mem_cons_self rfl
    · rintro i param hparam hi rfl
      exact h.apart i param hparam (by simpa using hi) (by simp)
  · rintro ⟨h, hknown, hname, hapart⟩
    constructor
    case ordered =>
      -- a named argument may follow whatever there is
      refine List.pairwise_append.mpr ⟨h.ordered, List.pairwise_singleton _ _, ?_⟩
      intro arg _ later hlater _
      rw [List.mem_singleton.mp hlater]
      rfl
    case known =>
      intro name' hname'
      rw [Argument.names_concat_named, List.mem_append, List.mem_singleton] at hname'
      rcases hname' with hname' | rfl
      · exact h.known name' hname'
      · exact hknown
    case distinct =>
      rw [Argument.names_concat_named]
      refine List.nodup_append.mpr ⟨h.distinct, List.pairwise_singleton _ _, ?_⟩
      intro name' hname' last hlast
      rw [List.mem_singleton.mp hlast]
      rintro rfl
      exact hname hname'
    case apart =>
      intro i param hparam hi
      rw [Argument.positionals_concat_named] at hi
      rw [Argument.names_concat_named, List.mem_append, List.mem_singleton]
      exact not_or.mpr ⟨h.apart i param hparam hi, hapart i param hparam hi⟩

/-- The entries after a positional argument: that of its place is filled. -/
theorem entries_concat_positional {v : α} (hnames : names before = []) :
    s.entries (before ++ [.positional v]) = (s.entries before).set before.length (some v) := by
  have hlength := Argument.length_positionals hnames
  -- place by place: with no names before it, the argument belongs to the next place
  refine List.ext_getElem? fun i => ?_
  rw [List.getElem?_set, getElem?_entries, length_entries, Argument.positionals_concat_positional]
  by_cases hi : before.length = i
  · subst hi
    rw [if_pos rfl, ← hlength, List.getElem?_concat_length]
    split
    · rename_i hlt
      rw [List.getElem?_eq_getElem hlt]
      rfl
    · rename_i hge
      rw [List.getElem?_eq_none (Nat.not_lt.mp hge)]
      rfl
  · -- at the other places there is no further argument
    have hsame : (positionals before ++ [v])[i]? = (positionals before)[i]? := by
      by_cases hlt : i < (positionals before).length
      · exact List.getElem?_append_left hlt
      · rw [List.getElem?_eq_none (by simp; omega), List.getElem?_eq_none (by omega)]
    rw [if_neg hi, getElem?_entries, hsame]
    simp only [Argument.lookup?_concat_positional]

/-! ### Names of parameters -/

section

variable (hparams : (s.params.map Param.name).Nodup)

include hparams

/-- A parameter is told from the others by its name. -/
theorem eq_of_name_eq {i j : Nat} {param param' : Param} (hi : s.params[i]? = some param)
    (hj : s.params[j]? = some param') (hname : param.name = param'.name) : i = j := by
  have hi' : (s.params.map Param.name)[i]? = some param.name := by simp [hi]
  have hj' : (s.params.map Param.name)[j]? = some param.name := by simp [hj, hname]
  obtain ⟨hlt, -⟩ := List.getElem?_eq_some_iff.mp hi'
  exact (List.getElem?_inj hlt hparams).mp (hi'.trans hj'.symm)

/-- Names of parameters are all different, so a name has one place. -/
theorem paramIndex?_eq_some_iff {name : String} {index : Nat} :
    s.paramIndex? name = some index ↔
      ∃ param, s.params[index]? = some param ∧ param.name = name := by
  rw [paramIndex?, List.findIdx?_eq_some_iff_getElem]
  constructor
  · rintro ⟨hlt, hname, -⟩
    exact ⟨_, List.getElem?_eq_getElem hlt, by simpa using hname⟩
  · rintro ⟨param, hparam, rfl⟩
    obtain ⟨hlt, rfl⟩ := List.getElem?_eq_some_iff.mp hparam
    refine ⟨hlt, by simp, fun j hj hname => ?_⟩
    -- it is the first of its name, as it is the only one
    have hj' := List.getElem?_eq_getElem (show j < s.params.length by omega)
    exact absurd (s.eq_of_name_eq hparams hj' hparam (by simpa using hname)) (Nat.ne_of_lt hj)

/-- The entries after a named argument: that of its parameter is filled. -/
theorem entries_concat_named {name : String} {v : α} {index : Nat}
    (hindex : s.paramIndex? name = some index)
    (hempty : (s.entries before)[index]? = some none) :
    s.entries (before ++ [.named name v]) = (s.entries before).set index (some v) := by
  obtain ⟨param, hparam, rfl⟩ := (paramIndex?_eq_some_iff hparams).mp hindex
  obtain ⟨hlt, -⟩ := List.getElem?_eq_some_iff.mp hparam
  refine List.ext_getElem? fun i => ?_
  rw [List.getElem?_set, getElem?_entries, length_entries, Argument.positionals_concat_named,
    if_pos hlt]
  by_cases hi : index = i
  · subst hi
    obtain ⟨hposition, hname⟩ := (getElem?_entries_eq_none hparam).mp hempty
    rw [if_pos rfl, hparam, Option.map_some, List.getElem?_eq_none hposition,
      Argument.lookup?_concat_named, Argument.lookup?_eq_none_iff.mpr hname, if_pos rfl]
    rfl
  · rw [if_neg hi, getElem?_entries]
    cases hother : s.params[i]? with
    | none => rfl
    | some other =>
      -- the other parameters have other names
      have hname : param.name ≠ other.name := fun h => hi (s.eq_of_name_eq hparams hparam hother h)
      rw [Option.map_some, Option.map_some, Argument.lookup?_concat_named, if_neg hname,
        Option.or_none]

/-- A named argument can be placed if the entry of its parameter is empty. -/
theorem placeable_concat_named_iff {name : String} {v : α} {index : Nat}
    (hbefore : s.Placeable before) (hindex : s.paramIndex? name = some index) :
    s.Placeable (before ++ [.named name v]) ↔ (s.entries before)[index]? = some none := by
  obtain ⟨param, hparam, rfl⟩ := (paramIndex?_eq_some_iff hparams).mp hindex
  rw [placeable_concat_named, getElem?_entries_eq_none hparam]
  constructor
  · rintro ⟨-, -, hname, hapart⟩
    exact ⟨Nat.not_lt.mp fun hlt => hapart index param hparam hlt rfl, hname⟩
  · rintro ⟨hposition, hname⟩
    refine ⟨hbefore, ⟨param, List.mem_of_getElem? hparam, rfl⟩, hname,
      fun i other hi hlt hsame => ?_⟩
    have heq := s.eq_of_name_eq hparams hi hparam hsame
    omega

/-- One argument is placed exactly if the list stays placeable with it, and then the slots are the
entries with it. -/
theorem place_entries_cons {arg : Argument α} {rest : List (Argument α)}
    (hbefore : s.Placeable before) (hfew : before.length < s.params.length) :
    s.place (s.entries before) (!(names before).isEmpty) before.length (arg :: rest) = .ok slots ↔
      s.Placeable (before ++ [arg]) ∧
        s.place (s.entries (before ++ [arg])) (!(names (before ++ [arg])).isEmpty)
          (before ++ [arg]).length rest = .ok slots := by
  cases arg with
  | positional v =>
    rw [placeable_concat_positional, place, Argument.names_concat_positional]
    by_cases hnames : names before = []
    · -- the arguments so far have filled the places before this one
      have hempty : (s.entries before)[before.length]? = some none := by
        refine (getElem?_entries_eq_none (List.getElem?_eq_getElem hfew)).mpr ⟨?_, by simp [hnames]⟩
        exact Nat.le_of_eq (Argument.length_positionals hnames)
      have hfill : s.fill (s.entries before) before.length v =
          .ok (s.entries (before ++ [.positional v])) :=
        fill_eq_ok.mpr ⟨hempty, entries_concat_positional hnames⟩
      rw [hnames, hfill, List.length_append]
      simp [hbefore, Check.ok_bind]
    · simp [hnames]
  | named name v =>
    rw [place]
    cases hindex : s.paramIndex? name with
    | none =>
      simp only [reduceCtorEq, false_iff, not_and]
      intro h
      obtain ⟨param, hmem, hname⟩ := (placeable_concat_named.mp h).2.1
      obtain ⟨index, hparam⟩ := List.getElem?_of_mem hmem
      rw [(paramIndex?_eq_some_iff hparams).mpr ⟨param, hparam, hname⟩] at hindex
      cases hindex
    | some index =>
      -- from here on there is a name
      have hnamed : (names (before ++ [Argument.named name v])).isEmpty = false := by simp
      rw [placeable_concat_named_iff hparams hbefore hindex, hnamed, List.length_append]
      simp only [Check.bind_eq_ok, fill_eq_ok]
      constructor
      · rintro ⟨filled, ⟨hempty, rfl⟩, hrest⟩
        rw [entries_concat_named hparams hindex hempty]
        exact ⟨hempty, hrest⟩
      · rintro ⟨hempty, hrest⟩
        rw [entries_concat_named hparams hindex hempty] at hrest
        exact ⟨_, ⟨hempty, rfl⟩, hrest⟩

/-- From the entries of a placeable list, arguments are placed exactly if the whole list is
placeable, and then the slots are its entries. -/
theorem place_entries {rest : List (Argument α)} (hbefore : s.Placeable before)
    (hfew : (before ++ rest).length ≤ s.params.length) :
    s.place (s.entries before) (!(names before).isEmpty) before.length rest = .ok slots ↔
      s.Placeable (before ++ rest) ∧ slots = s.entries (before ++ rest) := by
  -- on what is left to place; what has been placed grows by one argument a step
  induction rest generalizing before with
  | nil => simp [place, hbefore, eq_comm]
  | cons arg rest ih =>
    have hlength : (before ++ arg :: rest).length = before.length + (rest.length + 1) :=
      List.length_append
    have hsplit : before ++ arg :: rest = before ++ [arg] ++ rest := List.append_cons ..
    rw [place_entries_cons hparams hbefore (by omega)]
    rw [hsplit] at hfew ⊢
    constructor
    · rintro ⟨hplaced, hrest⟩
      exact (ih hplaced hfew).mp hrest
    · rintro ⟨hplaceable, hslots⟩
      -- what is placeable with later arguments is so without them
      have hplaced := hplaceable.of_append
      exact ⟨hplaced, (ih hplaced hfew).mpr ⟨hplaceable, hslots⟩⟩

/-- A call is resolved exactly if it is well-formed, and then its slots are its entries. -/
theorem resolve_eq_ok_iff :
    s.resolve args = .ok slots ↔ s.Fits args ∧ slots = s.entries args := by
  -- the pass starts from the entries of the empty list
  rw [resolve_eq_ok, ← entries_nil]
  constructor
  · rintro ⟨hfew, hplaced, hmissing⟩
    obtain ⟨hplaceable, rfl⟩ := (place_entries hparams placeable_nil hfew).mp hplaced
    refine ⟨⟨hplaceable, hfew, fun i param hparam hnone => ?_⟩, rfl⟩
    -- a parameter that nothing supplies would be found missing
    by_contra hsupplied
    obtain ⟨hposition, hname⟩ := not_or.mp hsupplied
    have hempty := (getElem?_entries_eq_none hparam).mpr ⟨Nat.not_lt.mp hposition, hname⟩
    exact missing?_eq_none_iff.mp hmissing i param hparam hempty hnone
  · rintro ⟨h, rfl⟩
    refine ⟨h.few, (place_entries hparams placeable_nil h.few).mpr ⟨h.toPlaceable, rfl⟩, ?_⟩
    refine missing?_eq_none_iff.mpr fun i param hparam hempty hnone => ?_
    obtain ⟨hposition, hname⟩ := (getElem?_entries_eq_none hparam).mp hempty
    rcases h.complete i param hparam hnone with hlt | hmem
    · exact absurd hlt (Nat.not_lt.mpr hposition)
    · exact hname hmem

end

/-! ## Values -/

/-- Filling an empty slot adds one value to those that are held. -/
theorem perm_filterMap_set {index : Nat} {v : α} (h : slots[index]? = some none) :
    ((slots.set index (some v)).filterMap id).Perm (v :: slots.filterMap id) := by
  -- on the slots in front of the one that is filled
  induction slots generalizing index with
  | nil => cases h
  | cons slot slots ih =>
    cases index with
    | zero =>
      obtain rfl := Option.some.inj h
      exact .refl _
    | succ index =>
      cases slot with
      | none => exact ih h
      | some w => exact ((ih h).cons w).trans (.swap v w _)

/-- Placing arguments adds their values, each of them once. -/
theorem perm_of_place {slots' : List (Option α)} {afterNamed : Bool} {position : Nat}
    (h : s.place slots afterNamed position args = .ok slots') :
    (slots'.filterMap id).Perm (slots.filterMap id ++ args.map Argument.value) := by
  induction args generalizing slots afterNamed position with
  | nil =>
    injection h with h
    rw [h, List.map_nil, List.append_nil]
  | cons arg args ih =>
    obtain ⟨index, filled, afterNamed', -, hfill, hrest⟩ := exists_of_place_cons h
    obtain ⟨hempty, rfl⟩ := fill_eq_ok.mp hfill
    refine (ih hrest).trans (((perm_filterMap_set hempty).append_right _).trans ?_)
    exact List.perm_middle.symm

/-- The values in the slots of a resolved call are those of its arguments. -/
theorem perm_of_resolve (h : s.resolve args = .ok slots) :
    (slots.filterMap id).Perm (args.map Argument.value) := by
  obtain ⟨-, hplaced, -⟩ := resolve_eq_ok.mp h
  have hempty : (s.params.map fun _ => (none : Option α)).filterMap id = [] := by simp
  have hperm := perm_of_place hplaced
  rwa [hempty, List.nil_append] at hperm

/-! ## Other orders -/

variable {args' : List (Argument α)}

/-- Whether arguments can be placed does not depend on the order of the named ones, -/
theorem Placeable.of_reorders (h : s.Placeable args) (hreorders : Argument.Reorders args args') :
    s.Placeable args' := by
  have hnames := hreorders.perm_names
  constructor
  case ordered =>
    -- which arguments are named is the same, place by place
    have hordered := h.ordered
    rw [← List.pairwise_map (R := fun p later => p = none → later = none)] at hordered ⊢
    rwa [hreorders.positional]
  case known => exact fun name hname => h.known name (hnames.mem_iff.mp hname)
  case distinct => exact hnames.nodup_iff.mpr h.distinct
  case apart =>
    rw [hreorders.positionals_eq]
    exact fun i param hparam hi hname => h.apart i param hparam hi (hnames.mem_iff.mp hname)

/-- and neither does whether they fit. -/
theorem Fits.of_reorders (h : s.Fits args) (hreorders : Argument.Reorders args args') :
    s.Fits args' := by
  refine ⟨h.toPlaceable.of_reorders hreorders, hreorders.perm.length_eq ▸ h.few, ?_⟩
  rw [hreorders.positionals_eq]
  intro i param hparam hnone
  exact (h.complete i param hparam hnone).imp id hreorders.perm_names.mem_iff.mpr

/-- Named arguments are found by their names, in whatever order they stand. -/
theorem entries_of_reorders (hdistinct : (names args).Nodup)
    (h : Argument.Reorders args args') : s.entries args' = s.entries args := by
  have hlookup : ∀ name, lookup? args' name = lookup? args name := by
    intro name
    refine Option.ext fun v => ?_
    rw [Argument.lookup?_eq_some_iff (h.perm_names.nodup_iff.mpr hdistinct),
      Argument.lookup?_eq_some_iff hdistinct, h.perm.mem_iff]
  simp only [entries, hlookup, h.positionals_eq]

end Signature

/-! ## Operations -/

namespace Operation

variable {α : Type}

theorem nodup_params (op : Operation) : (op.signature.params.map Param.name).Nodup := by
  cases op <;> decide

/-- The calls of an operation that are resolved are the well-formed ones, and to what. -/
structure ResolvesWellFormed (op : Operation) (k : Kind) (args : List (Argument α)) : Prop where
  ok_iff : (∃ slots, op.resolve k args = .ok slots) ↔ op.signature.Fits args
  /-- The slots are one for each parameter: its positional argument, or else the one of its name. -/
  entries (slots : List (Option α)) (h : op.resolve k args = .ok slots) :
    slots.length = op.signature.params.length ∧ slots = op.signature.entries args
  /-- No argument is lost, and none is there twice. -/
  values (slots : List (Option α)) (h : op.resolve k args = .ok slots) :
    (slots.filterMap id).Perm (args.map Argument.value)
  /-- Named arguments may stand in any order. -/
  reordered (args' : List (Argument α)) (h : Argument.Reorders args args')
    (slots : List (Option α)) : op.resolve k args' = .ok slots ↔ op.resolve k args = .ok slots

/-- Resolution accepts exactly the well-formed calls. -/
theorem resolvesWellFormed (op : Operation) (k : Kind) (args : List (Argument α)) :
    ResolvesWellFormed op k args := by
  -- the kind is named in faults only
  have hresolve : ∀ (args : List (Argument α)) (slots : List (Option α)),
      op.resolve k args = .ok slots ↔
        op.signature.Fits args ∧ slots = op.signature.entries args := by
    intro args slots
    rw [resolve, Check.mapError_eq_ok, Signature.resolve_eq_ok_iff op.nodup_params]
  constructor
  case ok_iff =>
    simp only [hresolve, exists_and_left, exists_eq, and_true]
  case entries =>
    intro slots h
    obtain ⟨-, rfl⟩ := (hresolve args slots).mp h
    exact ⟨Signature.length_entries, rfl⟩
  case values =>
    intro slots h
    exact Signature.perm_of_resolve (Check.mapError_eq_ok.mp h)
  case reordered =>
    intro args' h slots
    rw [hresolve, hresolve]
    constructor
    · rintro ⟨hfits, rfl⟩
      have hfits' := hfits.of_reorders h.symm
      exact ⟨hfits', Signature.entries_of_reorders hfits'.distinct h⟩
    · rintro ⟨hfits, rfl⟩
      exact ⟨hfits.of_reorders h, (Signature.entries_of_reorders hfits.distinct h).symm⟩

-- what is left out of a call keeps its place
example : resolve .copyTo .int [.positional 0, .named "length" 1] =
    .ok [some 0, none, none, some 1] := rfl

end Operation

end ArrayBridge
