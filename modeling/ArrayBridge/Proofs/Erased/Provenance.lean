import ArrayBridge.Proofs.Erased.Effects
import ArrayBridge.Proofs.Store.Sequences

/-!
# Where references come from

Arrays and sequences are allocated by four forms of expression. Three others hand on what their
operands refer to: a local, a tuple, and an adapter. So each array or sequence that a run has bound,
also inside tuples, can be traced back through the bindings to the one that allocated it.

Main results:

* `Expr.reference?_of_eval` — what an expression gives refers to fresh storage or is handed on.
* `Tracked.concat` — one more binding keeps the correspondence of references and traces.
* `tracked_of_evalBindings` — so it holds after every run, and two references are to one storage
  exactly if they are traced to one binding.
-/

namespace ArrayBridge.Erased

/-! ## References -/

/-- The array or sequence at a path into nested tuples, if there is one. An array is taken as the
sequence of its elements. -/
def Value.reference? : List Nat → Value → Option Sequence
  | [], .array a => some a.toSequence
  | [], .sequence q => some q
  | i :: path, .tuple items => items[i]?.bind (reference? path)
  | _, _ => none

/-- The array or sequence that a local refers to at a path. -/
def Env.reference? (env : Env) (l : Local) (path : List Nat) : Option Sequence :=
  env[l]?.bind (Value.reference? path)

section

variable {env : Env} {v : Value} {l : Local} {path : List Nat} {q : Sequence}

theorem Env.reference?_of_eq_some (h : env[l]? = some v) :
    env.reference? l path = v.reference? path := by
  rw [Env.reference?, h, Option.bind_some]

theorem Env.lt_length_of_reference? (h : env.reference? l path = some q) : l < env.length := by
  obtain ⟨v, hv, -⟩ := Option.bind_eq_some_iff.mp h
  exact (List.getElem?_eq_some_iff.mp hv).1

/-- What is bound later does not change what a local refers to. -/
theorem Env.reference?_append (h : env.reference? l path = some q) (more : Env) :
    Env.reference? (env ++ more) l path = some q := by
  obtain ⟨v, hv, hq⟩ := Option.bind_eq_some_iff.mp h
  exact (reference?_of_eq_some (getElem?_append_of_eq_some hv)).trans hq

theorem Env.reference?_concat_length :
    Env.reference? (env ++ [v]) env.length path = v.reference? path :=
  reference?_of_eq_some List.getElem?_concat_length

/-- A reference in an environment is in the last value or in one before. -/
theorem Env.reference?_concat_cases (h : Env.reference? (env ++ [v]) l path = some q) :
    l < env.length ∧ env.reference? l path = some q ∨
      l = env.length ∧ v.reference? path = some q := by
  obtain ⟨w, hw, hq⟩ := Option.bind_eq_some_iff.mp h
  rcases getElem?_concat_cases hw with ⟨hl, hw⟩ | ⟨hl, rfl⟩
  · exact .inl ⟨hl, (reference?_of_eq_some hw).trans hq⟩
  · exact .inr ⟨hl, hq⟩

end

/-! ## Expressions -/

namespace Expr

/-- Whether an expression allocates an array or a sequence, and gives it. -/
def Allocates : Expr → Prop
  | newArray .. | fillArray .. | copyFromGeneric .. | sequenceLit .. => True
  | _ => False

/-- Whether what an expression refers to at a path is what a local refers to at another one. -/
inductive HandsOn : Expr → List Nat → Local → List Nat → Prop
  | var {m : Local} {path : List Nat} : HandsOn (.var m) path m path
  | tuple {items : List Local} {i : Nat} {m : Local} {path : List Nat} (hm : items[i]? = some m) :
    HandsOn (.tuple items) (i :: path) m path
  | wrapAdapter {k : Kind} {m : Local} : HandsOn (.wrapAdapter k m) [] m []

/-- There is one local at most from which a reference can come. -/
theorem HandsOn.unique {e : Expr} {path : List Nat} {m m' : Local} {from₁ from₂ : List Nat}
    (h : e.HandsOn path m from₁) (h' : e.HandsOn path m' from₂) : m = m' ∧ from₁ = from₂ := by
  cases h with
  | var =>
    cases h'
    exact ⟨rfl, rfl⟩
  | tuple hm =>
    cases h' with
    | tuple hm' => exact ⟨Option.some.inj (hm.symm.trans hm'), rfl⟩
  | wrapAdapter =>
    cases h'
    exact ⟨rfl, rfl⟩

/-- What hands a reference on makes no new storage. -/
theorem HandsOn.not_allocates {e : Expr} {path : List Nat} {m : Local} {source : List Nat}
    (h : e.HandsOn path m source) : ¬ e.Allocates := by
  cases h <;> exact id

variable {env : Env} {e : Expr} {s s' : Store} {v : Value} {path : List Nat} {q : Sequence}

/-- The value of an expression that allocates is the array or the sequence. -/
theorem exists_reference_of_allocates (h : e.eval env s = .ok v s') (halloc : e.Allocates) :
    ∃ q, v.reference? [] = some q ∧ s.Allocates s' q.storage := by
  cases evaluates_of_eval h with
  | @newArray _ _ _ a _ _ hnew | @fillArray _ _ _ _ _ a _ _ _ hnew =>
    exact ⟨a.toSequence, rfl, ArrayRef.allocates_of_new hnew⟩
  | @copyFromGeneric _ _ _ a _ _ hcopy =>
    exact ⟨a.toSequence, rfl, ArrayRef.allocates_of_ofSequence hcopy⟩
  | sequenceLit =>
    refine ⟨_, rfl, ?_, ?_⟩ <;> simp [Store.Has, Sequence.storage, Store.newSequence]
  | _ => exact halloc.elim

/-- An expression hands on what a local refers to that is bound already. -/
theorem HandsOn.reference?_eq {m : Local} {source : List Nat} (h : e.HandsOn path m source)
    (heval : e.eval env s = .ok v s') :
    m < env.length ∧ v.reference? path = env.reference? m source := by
  obtain ⟨w, hw, hvalue⟩ : ∃ w, env[m]? = some w ∧ v.reference? path = w.reference? source := by
    cases h with
    | var =>
      cases evaluates_of_eval heval with
      | var hv => exact ⟨v, hv, rfl⟩
    | @tuple items i m source hm =>
      cases evaluates_of_eval heval with
      | @tuple items vs hvs =>
        -- the item of the tuple is the value of the local that stands at its index
        obtain ⟨hlength, hitems⟩ := List.forall₂_iff_get.mp hvs
        obtain ⟨hi, hget⟩ := List.getElem?_eq_some_iff.mp hm
        have hi' : i < vs.length := hlength ▸ hi
        have hw := hitems i hi hi'
        rw [List.get_eq_getElem, hget, List.get_eq_getElem] at hw
        refine ⟨vs[i], hw, ?_⟩
        rw [Value.reference?, List.getElem?_eq_getElem hi', Option.bind_some]
    | wrapAdapter =>
      cases evaluates_of_eval heval with
      | wrapAdapter ha => exact ⟨_, (Env.array_eq_ok.mp ha).1, rfl⟩
  exact ⟨(List.getElem?_eq_some_iff.mp hw).1, hvalue.trans (Env.reference?_of_eq_some hw).symm⟩

/-- The value of an expression has the form of the type that the expression has. -/
theorem head_eq_of_eval {t : Ty} (h : e.eval env s = .ok v s')
    (ht : e.type? (env.map Value.type) = some t) : v.head = t.head := by
  have htype := type_of_eval h
  rw [ht, Option.map_some, Option.some.injEq] at htype
  rw [← Value.head_type, ← htype, Ty.head_plain]

/-- What an expression gives refers to fresh storage or is handed on. -/
theorem reference?_of_eval (h : e.eval env s = .ok v s') (hq : v.reference? path = some q) :
    (e.Allocates ∧ path = []) ∨ ∃ m source, e.HandsOn path m source := by
  cases evaluates_of_eval h with
  | @var m => exact .inr ⟨m, path, .var⟩
  | @tuple items vs hvs =>
    cases path with
    | nil => cases hq
    | cons i path =>
      obtain ⟨w, hw, -⟩ := Option.bind_eq_some_iff.mp hq
      have hi : i < items.length := hvs.length_eq ▸ (List.getElem?_eq_some_iff.mp hw).1
      exact .inr ⟨items[i], path, .tuple (List.getElem?_eq_getElem hi)⟩
  | @wrapAdapter k m =>
    cases path with
    | nil => exact .inr ⟨m, [], .wrapAdapter⟩
    | cons i path => cases hq
  | newArray | fillArray | copyFromGeneric | sequenceLit =>
    cases path with
    | nil => exact .inl ⟨trivial, rfl⟩
    | cons i path => cases hq
  -- the values of the other forms refer to nothing
  | _ => cases path <;> cases hq

end Expr

/-! ## Traces -/

/-- Whether what a local refers to at a path is traced back to the binding of another local, which
allocates it. -/
inductive Traces (bs : List Binding) : Local → List Nat → Local → Prop
  | allocates {l : Local} {b : Binding} (hb : bs[l]? = some b) (halloc : b.expr.Allocates) :
    Traces bs l [] l
  | handsOn {l m origin : Local} {b : Binding} {path source : List Nat} (hb : bs[l]? = some b)
    (hon : b.expr.HandsOn path m source) (h : Traces bs m source origin) : Traces bs l path origin

namespace Traces

variable {bs : List Binding} {l o o' : Local} {path : List Nat}

theorem lt_length (h : Traces bs l path o) : l < bs.length := by
  cases h with
  | allocates hb => exact (List.getElem?_eq_some_iff.mp hb).1
  | handsOn hb => exact (List.getElem?_eq_some_iff.mp hb).1

/-- A path is traced to one origin only, since each form has at most one source. -/
theorem unique (h : Traces bs l path o) (h' : Traces bs l path o') : o = o' := by
  -- both traces go on alike: a binding allocates or hands on, and hands on from one place only
  induction h with
  | allocates hb halloc =>
    cases h' with
    | allocates hb' halloc' => rfl
    | handsOn hb' hon' _ =>
      obtain rfl := Option.some.inj (hb.symm.trans hb')
      exact absurd halloc hon'.not_allocates
  | handsOn hb hon _ ih =>
    cases h' with
    | allocates hb' halloc' =>
      obtain rfl := Option.some.inj (hb.symm.trans hb')
      exact absurd halloc' hon.not_allocates
    | handsOn hb' hon' h' =>
      obtain rfl := Option.some.inj (hb.symm.trans hb')
      obtain ⟨rfl, rfl⟩ := hon.unique hon'
      exact ih h'

/-- A trace ends at a binding that allocates. -/
theorem origin (h : Traces bs l path o) : ∃ b, bs[o]? = some b ∧ b.expr.Allocates := by
  induction h with
  | allocates hb halloc => exact ⟨_, hb, halloc⟩
  | handsOn _ _ _ ih => exact ih

/-- The binding at the end is traced to itself. -/
theorem self (h : Traces bs l path o) : Traces bs o [] o := by
  obtain ⟨b, hb, halloc⟩ := h.origin
  exact .allocates hb halloc

/-- A trace is still there when more is bound. -/
theorem append (h : Traces bs l path o) (more : List Binding) :
    Traces (bs ++ more) l path o := by
  induction h with
  | allocates hb halloc => exact .allocates (getElem?_append_of_eq_some hb) halloc
  | handsOn hb hon _ ih => exact .handsOn (getElem?_append_of_eq_some hb) hon ih

end Traces

/-! ## Runs -/

/-- Whether the references of an environment are those that are traced through the bindings, each
allocation to a storage of its own. -/
structure Tracked (bs : List Binding) (env : Env) (s : Store) : Prop where
  length : env.length = bs.length
  /-- Bindings only hand on what was bound before them. -/
  earlier : ∀ {l m : Local} {b : Binding} {path source : List Nat}, bs[l]? = some b →
    b.expr.HandsOn path m source → m < l
  /-- What is referred to is there, and has been allocated by some binding. -/
  traced : ∀ {l : Local} {path : List Nat} {q : Sequence}, env.reference? l path = some q →
    s.Has q.storage ∧ ∃ origin, Traces bs l path origin
  /-- What is traced to a binding is what the binding has allocated. -/
  same : ∀ {l origin : Local} {path : List Nat}, Traces bs l path origin →
    ∃ q, env.reference? l path = some q ∧ env.reference? origin [] = some q
  /-- No storage is allocated twice. -/
  distinct : ∀ {origin origin' : Local} {q q' : Sequence}, Traces bs origin [] origin →
    Traces bs origin' [] origin' → env.reference? origin [] = some q →
    env.reference? origin' [] = some q' → q.storage = q'.storage → origin = origin'

namespace Tracked

variable {bs : List Binding} {env : Env} {s s' : Store}

/-- Before anything runs there are no references. -/
theorem empty : Tracked [] [] .empty where
  length := rfl
  earlier h := by cases h
  traced h := by cases h
  same h := absurd h.lt_length (Nat.not_lt_zero _)
  distinct h := absurd h.lt_length (Nat.not_lt_zero _)

/-- Traces of what was bound earlier do not go through later bindings. -/
theorem traces_of_append (h : Tracked bs env s) {more : List Binding} {l origin : Local}
    {path : List Nat} (htrace : Traces (bs ++ more) l path origin) (hl : l < bs.length) :
    Traces bs l path origin := by
  induction htrace with
  | allocates hb halloc =>
    rw [List.getElem?_append_left hl] at hb
    exact .allocates hb halloc
  | handsOn hb hon _ ih =>
    -- what a binding hands on was bound before it, and so is not among those that are appended
    rw [List.getElem?_append_left hl] at hb
    exact .handsOn hb hon (ih (Nat.lt_trans (h.earlier hb hon) hl))

section

variable {b : Binding} {v : Value}

theorem getElem?_concat_length (h : Tracked bs env s) : (bs ++ [b])[env.length]? = some b := by
  rw [h.length, List.getElem?_concat_length]

/-- What the value of one more binding refers to is fresh, or is handed on from an earlier local. -/
theorem has_and_traces_of_eval (h : Tracked bs env s) (heval : b.expr.eval env s = .ok v s')
    {path : List Nat} {q : Sequence} (hq : v.reference? path = some q) :
    s'.Has q.storage ∧ ∃ origin, Traces (bs ++ [b]) env.length path origin := by
  rcases Expr.reference?_of_eval heval hq with ⟨halloc, rfl⟩ | ⟨m, source, hon⟩
  · obtain ⟨q', hq', hfresh⟩ := Expr.exists_reference_of_allocates heval halloc
    obtain rfl := Option.some.inj (hq.symm.trans hq')
    exact ⟨hfresh.present, env.length, .allocates h.getElem?_concat_length halloc⟩
  · obtain ⟨-, hm⟩ := hon.reference?_eq heval
    obtain ⟨hhas, origin, htrace⟩ := h.traced (hm.symm.trans hq)
    have hhas' := (Expr.frame_of_eval heval).has hhas
    exact ⟨hhas', origin, .handsOn h.getElem?_concat_length hon (htrace.append [b])⟩

/-- No earlier reference is to the storage that one more binding has allocated. -/
theorem storage_ne_of_eval (h : Tracked bs env s) (heval : b.expr.eval env s = .ok v s')
    {l : Local} {path : List Nat} {q q' : Sequence} (hq : env.reference? l path = some q)
    (htrace : Traces (bs ++ [b]) env.length [] env.length) (hq' : v.reference? [] = some q') :
    q.storage ≠ q'.storage := by
  intro heq
  obtain ⟨c, hc, halloc⟩ := htrace.origin
  obtain rfl := Option.some.inj (h.getElem?_concat_length.symm.trans hc)
  obtain ⟨q'', hq'', hfresh⟩ := Expr.exists_reference_of_allocates heval halloc
  obtain rfl := Option.some.inj (hq'.symm.trans hq'')
  exact hfresh.absent (heq ▸ (h.traced hq).1)

/-- One more binding hands on only what was bound before it. -/
theorem lt_of_handsOn (h : Tracked bs env s) (heval : b.expr.eval env s = .ok v s') {l m : Local}
    {c : Binding} {path source : List Nat} (hc : (bs ++ [b])[l]? = some c)
    (hon : c.expr.HandsOn path m source) : m < l := by
  rcases getElem?_concat_cases hc with ⟨-, hc⟩ | ⟨rfl, rfl⟩
  · exact h.earlier hc hon
  · exact h.length ▸ (hon.reference?_eq heval).1

/-- What the new local is traced to is what the binding there has allocated. -/
theorem exists_reference_of_traces (h : Tracked bs env s) (heval : b.expr.eval env s = .ok v s')
    {path : List Nat} {origin : Local} (htrace : Traces (bs ++ [b]) env.length path origin) :
    ∃ q, v.reference? path = some q ∧ Env.reference? (env ++ [v]) origin [] = some q := by
  cases htrace with
  | allocates hb halloc =>
    obtain rfl := Option.some.inj (h.getElem?_concat_length.symm.trans hb)
    obtain ⟨q, hq, -⟩ := Expr.exists_reference_of_allocates heval halloc
    exact ⟨q, hq, Env.reference?_concat_length.trans hq⟩
  | handsOn hb hon htrace =>
    obtain rfl := Option.some.inj (h.getElem?_concat_length.symm.trans hb)
    obtain ⟨hm, hvalue⟩ := hon.reference?_eq heval
    -- the rest of the trace is one of what was bound before
    obtain ⟨q, hq, horigin⟩ := h.same (h.traces_of_append htrace (h.length ▸ hm))
    exact ⟨q, hvalue.trans hq, Env.reference?_append horigin [v]⟩

/-- One more binding keeps the correspondence: what its value refers to is fresh, or is handed on
from an earlier local. -/
theorem concat (h : Tracked bs env s) (heval : b.expr.eval env s = .ok v s') :
    Tracked (bs ++ [b]) (env ++ [v]) s' := by
  constructor
  case length => rw [List.length_append, List.length_append, h.length]; rfl
  case earlier =>
    intro l m c path source hc hon
    exact h.lt_of_handsOn heval hc hon
  case traced =>
    intro l path q hq
    rcases Env.reference?_concat_cases hq with ⟨-, hq₀⟩ | ⟨rfl, hv⟩
    · obtain ⟨hhas, origin, htrace⟩ := h.traced hq₀
      exact ⟨(Expr.frame_of_eval heval).has hhas, origin, htrace.append [b]⟩
    · exact h.has_and_traces_of_eval heval hv
  case same =>
    intro l origin path htrace
    -- only the traces of the new local go through the new binding
    by_cases hl : l < bs.length
    · obtain ⟨q, hq, horigin⟩ := h.same (h.traces_of_append htrace hl)
      exact ⟨q, Env.reference?_append hq [v], Env.reference?_append horigin [v]⟩
    · have hlt := htrace.lt_length
      obtain rfl : l = env.length := by
        rw [List.length_append, List.length_singleton] at hlt
        rw [h.length]
        exact Nat.eq_of_lt_succ_of_not_lt hlt hl
      obtain ⟨q, hq, horigin⟩ := h.exists_reference_of_traces heval htrace
      exact ⟨q, Env.reference?_concat_length.trans hq, horigin⟩
  case distinct =>
    intro o o' q q' htrace htrace' hq hq' heq
    -- what the new local has allocated is the storage of no other one
    rcases Env.reference?_concat_cases hq with ⟨hl, hq₀⟩ | ⟨rfl, hv⟩
    · rcases Env.reference?_concat_cases hq' with ⟨hl', hq₀'⟩ | ⟨rfl, hv'⟩
      · exact h.distinct (h.traces_of_append htrace (h.length ▸ hl))
          (h.traces_of_append htrace' (h.length ▸ hl')) hq₀ hq₀' heq
      · exact absurd heq (h.storage_ne_of_eval heval hq₀ htrace' hv')
    · rcases Env.reference?_concat_cases hq' with ⟨hl', hq₀'⟩ | ⟨rfl, hv'⟩
      · exact absurd heq.symm (h.storage_ne_of_eval heval hq₀' htrace hv)
      · rfl

end

/-- References to one storage are one reference, and traced to one binding. -/
theorem eq_and_traces_of_storage_eq (h : Tracked bs env s) {l l' : Local} {path path' : List Nat}
    {q q' : Sequence} (hq : env.reference? l path = some q)
    (hq' : env.reference? l' path' = some q') (heq : q.storage = q'.storage) :
    q = q' ∧ ∃ o, Traces bs l path o ∧ Traces bs l' path' o := by
  obtain ⟨-, o, htrace⟩ := h.traced hq
  obtain ⟨-, o', htrace'⟩ := h.traced hq'
  -- each of them is what the binding at the end of its trace has allocated
  obtain ⟨r, hr, horigin⟩ := h.same htrace
  obtain rfl := Option.some.inj (hq.symm.trans hr)
  obtain ⟨r', hr', horigin'⟩ := h.same htrace'
  obtain rfl := Option.some.inj (hq'.symm.trans hr')
  obtain rfl := h.distinct htrace.self htrace'.self horigin horigin' heq
  exact ⟨Option.some.inj (horigin.symm.trans horigin'), o, htrace, htrace'⟩

/-- What is traced to one binding is one reference. -/
theorem eq_of_traces (h : Tracked bs env s) {l l' o : Local} {path path' : List Nat}
    {q q' : Sequence} (hq : env.reference? l path = some q)
    (hq' : env.reference? l' path' = some q') (htrace : Traces bs l path o)
    (htrace' : Traces bs l' path' o) : q = q' := by
  obtain ⟨r, hr, horigin⟩ := h.same htrace
  obtain ⟨r', hr', horigin'⟩ := h.same htrace'
  calc
    q = r := Option.some.inj (hq.symm.trans hr)
    _ = r' := Option.some.inj (horigin.symm.trans horigin')
    _ = q' := (Option.some.inj (hq'.symm.trans hr')).symm

end Tracked

/-- After every run, references are traced through the bindings. -/
theorem tracked_of_evalBindings {bs : List Binding} {env : Env} {s : Store}
    (h : evalBindings [] bs .empty = .ok env s) : Tracked bs env s := by
  refine evalBindings_induction .empty ?_ h
  intro bs env s b v s' _ htracked heval
  exact htracked.concat heval

end ArrayBridge.Erased
