import ArrayBridge.Proofs.Erased.Provenance

/-!
# Shared storage

Two values of a program share their storage exactly if they are traced back to one allocation, and
so a write through one of them is seen through the others of that allocation and through nothing
else.

Main results:

* `Expr.exists_edit_of_eval` — what each write makes of the items that are seen through its operand.
* `Expr.itemsOf_eq_of_storage_ne` — sequences of other storage keep their items.
* `Program.sharesByOrigin_of_reached` — both, for the references of a state that a program reaches.
-/

namespace ArrayBridge.Erased

/-! ## Writes -/

namespace Expr

/-- The operand that an expression writes through. -/
def written? : Expr → Option Local
  | store _ array _ _ => some array
  | arrayCopy _ _ _ destination _ _ => some destination
  | genericSet sequence _ _ => some sequence
  | _ => none

/-- What an expression makes of the items of the sequence that it writes through. -/
inductive Edits (env : Env) (s : Store) : Expr → Sequence → (List Boxed → List Boxed) → Prop
  | store {k : Kind} {array index value : Local} {a : ArrayRef} {n : Int64} {p : Prim}
    (ha : env.array k array = .ok a) (hn : env.integer index = .ok n)
    (hp : env.prim value = .ok p) :
    Edits env s (.store k array index value) a.toSequence (·.set n.toInt.toNat p.box)
  | genericSet {sequence index value : Local} {q : Sequence} {n : Int64} {b : Boxed}
    (hq : env.sequence sequence = .ok q) (hn : env.integer index = .ok n)
    (hb : env.element value = .ok b) (haccepts : q.Accepts b) :
    Edits env s (.genericSet sequence index value) q (·.set n.toInt.toNat (q.held b))
  | arrayCopy {k : Kind} {source destination : Local} {sourceOffset destinationOffset : Operand}
    {length : CopyLength} {a d : ArrayRef} {m n : Int64} {given : Option Int64}
    {range : ArrayRef.CopyRange} (ha : env.array k source = .ok a)
    (hd : env.array k destination = .ok d) (hm : env.offset sourceOffset = .ok m)
    (hn : env.offset destinationOffset = .ok n) (hlength : env.copyLength length = .ok given)
    (hrange : ArrayRef.copyRange? (s.length a) (s.length d) m n given = some range) :
    Edits env s (.arrayCopy k source sourceOffset destination destinationOffset length) d.toSequence
      fun items => splice items range.destination
        (((s.itemsOf a.toSequence).drop range.source).take range.count)

variable {env : Env} {e : Expr} {s s' : Store} {v : Value}

/-- The cells that an expression names are those of the sequence that it writes through. -/
theorem Writes.exists_written {c : Cell} (h : e.Writes env s c) :
    ∃ m q i, e.written? = some m ∧ env.reference? m [] = some q ∧ c = q.cell i := by
  cases h with
  | @store k array index value a n i ha hn hi =>
    obtain ⟨hvalue, -⟩ := Env.array_eq_ok.mp ha
    exact ⟨array, a.toSequence, i, rfl, Env.reference?_of_eq_some hvalue, rfl⟩
  | @genericSet sequence index value q n i hq hn hi =>
    have hvalue := Env.sequence_eq_ok.mp hq
    exact ⟨sequence, q, i, rfl, Env.reference?_of_eq_some hvalue, rfl⟩
  | @arrayCopy k source destination _ _ _ a d m n given i ha hd =>
    obtain ⟨hvalue, -⟩ := Env.array_eq_ok.mp hd
    exact ⟨destination, d.toSequence, i, rfl, Env.reference?_of_eq_some hvalue, rfl⟩

/-- Sequences of other storage than the one that is written through keep their items. -/
theorem itemsOf_eq_of_storage_ne (h : e.eval env s = .ok v s') {q : Sequence}
    (hq : s.Has q.storage)
    (hne : ∀ m q', e.written? = some m → env.reference? m [] = some q' → q.storage ≠ q'.storage) :
    s'.itemsOf q = s.itemsOf q := by
  refine (frame_of_eval h).itemsOf_eq hq fun i hi => ?_
  obtain ⟨m, q', j, hm, hq', hcell⟩ := hi.exists_written
  exact hne m q' hm hq' (Sequence.storage_eq_of_cell_eq hcell)

/-- An expression that writes edits the items that are seen through its operand. -/
theorem exists_edit_of_eval (h : e.eval env s = .ok v s') {m : Local} (hm : e.written? = some m) :
    ∃ q edit, env.reference? m [] = some q ∧ e.Edits env s q edit ∧
      s'.itemsOf q = edit (s.itemsOf q) := by
  cases evaluates_of_eval h with
  | store ha hn hp hset =>
    obtain rfl := Option.some.inj hm
    obtain ⟨hvalue, -⟩ := Env.array_eq_ok.mp ha
    exact ⟨_, _, Env.reference?_of_eq_some hvalue, .store ha hn hp, itemsOf_set hset⟩
  | @genericSet _ _ _ q n i b _ hq hn hi hb hset =>
    obtain rfl := Option.some.inj hm
    -- the index that is written is the one that was read
    have hindex := toInt_of_checked hi
    have hedit := Sequence.itemsOf_setItem (Sequence.le_maxIndex_of_checkIndex hi) hset
    refine ⟨q, _, Env.reference?_of_eq_some (Env.sequence_eq_ok.mp hq),
      .genericSet hq hn hb (Sequence.accepts_of_setItem hset), ?_⟩
    rw [hindex, Int.toNat_natCast]
    exact hedit
  | arrayCopy ha hd hm' hn hgiven hcopy =>
    obtain rfl := Option.some.inj hm
    obtain ⟨range, hrange, hedit⟩ := itemsOf_copyTo hcopy
    obtain ⟨hvalue, -⟩ := Env.array_eq_ok.mp hd
    exact ⟨_, _, Env.reference?_of_eq_some hvalue, .arrayCopy ha hd hm' hn hgiven hrange, hedit⟩
  | _ => cases hm

/-- A copy of a generic sequence reads one. -/
theorem exists_sequence_of_eval {k : Kind} {m : Local}
    (h : (Expr.copyFromGeneric k m).eval env s = .ok v s') :
    ∃ q, env.reference? m [] = some q := by
  cases evaluates_of_eval h with
  | copyFromGeneric hq => exact ⟨_, Env.reference?_of_eq_some (Env.sequence_eq_ok.mp hq)⟩

end Expr

/-! ## Programs -/

/-- Whether two references are traced to one allocation. -/
def SameOrigin (bs : List Binding) (l : Local) (path : List Nat) (l' : Local) (path' : List Nat) :
    Prop :=
  ∃ origin, Traces bs l path origin ∧ Traces bs l' path' origin

/-- In a state of a program, storage is shared as the traces through the bindings say, and the next
binding respects it. -/
structure Program.SharesByOrigin (p : Program) (env : Env) (s : Store) : Prop where
  /-- What is referred to is traced to one allocation. -/
  origin : ∀ l path q, env.reference? l path = some q →
    ∃! origin, Traces p.bindings l path origin
  /-- Two references are to one storage exactly if they are traced to the same one. -/
  storage : ∀ l path q l' path' q', env.reference? l path = some q →
    env.reference? l' path' = some q' →
    (q.storage = q'.storage ↔ SameOrigin p.bindings l path l' path')
  /-- The same is found when two arrays are compared. -/
  arrays : ∀ l path a l' path' a', env.reference? l path = some (.view a) →
    env.reference? l' path' = some (.view a') →
    (a.sharesStorageWith a' = true ↔ SameOrigin p.bindings l path l' path')
  /-- A write through one reference is seen through those of its origin, and through no others. -/
  write : ∀ b, p.bindings[env.length]? = some b → ∀ v s', b.expr.eval env s = .ok v s' →
    ∀ m, b.expr.written? = some m → ∃ written edit, env.reference? m [] = some written ∧
      b.expr.Edits env s written edit ∧ ∀ l path q, env.reference? l path = some q →
        (SameOrigin p.bindings l path m [] → s'.itemsOf q = edit (s.itemsOf q)) ∧
        (¬ SameOrigin p.bindings l path m [] → s'.itemsOf q = s.itemsOf q)
  /-- No other effect is seen through a reference. -/
  keep : ∀ b, p.bindings[env.length]? = some b → ∀ v s', b.expr.eval env s = .ok v s' →
    b.expr.written? = none → ∀ l path q, env.reference? l path = some q →
      s'.itemsOf q = s.itemsOf q
  /-- A copy of a generic sequence has another storage and another origin than the sequence. -/
  copy : ∀ l t k m, l < env.length → p.bindings[l]? = some ⟨t, .copyFromGeneric k m⟩ →
    ∃ q q', env.reference? l [] = some q ∧ env.reference? m [] = some q' ∧
      q.storage ≠ q'.storage ∧ ¬ SameOrigin p.bindings l [] m []

namespace Tracked

variable {bs : List Binding} {env : Env} {s : Store} {l l' : Local} {path path' : List Nat}

/-- What is bound later does not change which of the earlier references have one origin. -/
theorem sameOrigin_append_iff (h : Tracked bs env s) (more : List Binding) {q q' : Sequence}
    (hq : env.reference? l path = some q) (hq' : env.reference? l' path' = some q') :
    SameOrigin (bs ++ more) l path l' path' ↔ SameOrigin bs l path l' path' := by
  have hl : l < bs.length := h.length ▸ Env.lt_length_of_reference? hq
  have hl' : l' < bs.length := h.length ▸ Env.lt_length_of_reference? hq'
  constructor
  · rintro ⟨o, htrace, htrace'⟩
    exact ⟨o, h.traces_of_append htrace hl, h.traces_of_append htrace' hl'⟩
  · rintro ⟨o, htrace, htrace'⟩
    exact ⟨o, htrace.append more, htrace'.append more⟩

/-- Two references share storage exactly if they are traced to one allocation. -/
theorem storage_eq_iff (h : Tracked bs env s) {q q' : Sequence}
    (hq : env.reference? l path = some q) (hq' : env.reference? l' path' = some q') :
    q.storage = q'.storage ↔ SameOrigin bs l path l' path' := by
  constructor
  · exact fun heq => (h.eq_and_traces_of_storage_eq hq hq' heq).2
  · rintro ⟨o, htrace, htrace'⟩
    rw [h.eq_of_traces hq hq' htrace htrace']

/-- The storage of an array is referred to under one kind only. -/
theorem sharesStorageWith_iff (h : Tracked bs env s) {a a' : ArrayRef}
    (ha : env.reference? l path = some (.view a))
    (ha' : env.reference? l' path' = some (.view a')) :
    a.sharesStorageWith a' = true ↔ SameOrigin bs l path l' path' := by
  rw [← h.storage_eq_iff ha ha', ArrayRef.sharesStorageWith, decide_eq_true_iff]
  constructor
  · rintro rfl
    rfl
  · -- two arrays at one place are of one kind, as they come from one allocation
    intro heq
    obtain ⟨hview, -⟩ := h.eq_and_traces_of_storage_eq ha ha' heq
    injection hview

/-- The items of a sequence are kept by an evaluation, or edited by it. -/
theorem itemsOf_eq_or_edits (h : Tracked bs env s) {e : Expr} {v : Value} {s' : Store}
    (heval : e.eval env s = .ok v s') {q : Sequence} (hq : env.reference? l path = some q) :
    s'.itemsOf q = s.itemsOf q ∨
      ∃ edit, e.Edits env s q edit ∧ s'.itemsOf q = edit (s.itemsOf q) := by
  by_cases hkept : s'.itemsOf q = s.itemsOf q
  · exact .inl hkept
  · -- then it is what the expression writes through
    obtain ⟨m, q', hm, hq', heq⟩ : ∃ m q', e.written? = some m ∧ env.reference? m [] = some q' ∧
        q.storage = q'.storage := by
      by_contra hother
      refine hkept (Expr.itemsOf_eq_of_storage_ne heval (h.traced hq).1 fun m q' hm hq' heq => ?_)
      exact hother ⟨m, q', hm, hq', heq⟩
    obtain ⟨written, edit, hwritten, hedits, hitems⟩ := Expr.exists_edit_of_eval heval hm
    obtain rfl := Option.some.inj (hq'.symm.trans hwritten)
    obtain ⟨rfl, -⟩ := h.eq_and_traces_of_storage_eq hq hq' heq
    exact .inr ⟨edit, hedits, hitems⟩

/-- A binding that allocates has an origin of its own, which nothing before it has. -/
theorem not_sameOrigin_of_allocates (h : Tracked bs env s) {b : Binding} (more : List Binding)
    {q : Sequence} (halloc : b.expr.Allocates) (hq : env.reference? l path = some q) :
    ¬ SameOrigin (bs ++ b :: more) bs.length [] l path := by
  rintro ⟨o, htrace, htrace'⟩
  have hb : (bs ++ b :: more)[bs.length]? = some b := by simp
  obtain rfl := htrace.unique (.allocates hb halloc)
  -- the other reference is traced to an earlier binding
  obtain ⟨-, o', hold⟩ := h.traced hq
  obtain rfl := htrace'.unique (hold.append (b :: more))
  exact Nat.lt_irrefl _ hold.self.lt_length

end Tracked

namespace Program

variable {p : Program} {before rest : List Binding} {env : Env} {s : Store}

/-- A copy of a generic sequence that has been bound has another storage and another origin than the
sequence. -/
theorem exists_other_of_copy {l m : Local} {t : Ty} {k : Kind}
    (hcopy : before[l]? = some ⟨t, .copyFromGeneric k m⟩)
    (hreached : evalBindings [] before .empty = .ok env s) :
    ∃ q q', env.reference? l [] = some q ∧ env.reference? m [] = some q' ∧
      q.storage ≠ q'.storage ∧ ¬ SameOrigin before l [] m [] := by
  have htracked := tracked_of_evalBindings hreached
  -- the run up to the copy, and the copy
  obtain ⟨pre, post, rfl, rfl⟩ := exists_append_of_getElem? hcopy
  obtain ⟨env₀, s₀, v, s₁, hpre, heval, hpost⟩ := exists_eval_of_evalBindings hreached
  have hbound : env₀ ++ [v] <+: env := prefix_of_evalBindings hpost
  obtain ⟨q', hq'⟩ := Expr.exists_sequence_of_eval heval
  obtain ⟨q, hq, -⟩ := htracked.same (.allocates hcopy trivial)
  have hother := (tracked_of_evalBindings hpre).not_sameOrigin_of_allocates
    (b := ⟨t, .copyFromGeneric k m⟩) post trivial hq'
  have hsource : env.reference? m [] = some q' := by
    obtain ⟨more, rfl⟩ := hbound
    rw [List.append_assoc]
    exact Env.reference?_append hq' _
  refine ⟨q, q', hq, hsource, fun heq => ?_, hother⟩
  exact hother ((htracked.storage_eq_iff hq hsource).mp heq)

/-- In every state that a program reaches, storage is shared exactly by what is traced through
locals, tuples and adapters to one allocation. -/
theorem sharesByOrigin_of_reached (hp : p.bindings = before ++ rest)
    (hreached : evalBindings [] before .empty = .ok env s) : p.SharesByOrigin env s := by
  have htracked := tracked_of_evalBindings hreached
  constructor
  case origin =>
    intro l path q hq
    obtain ⟨-, origin, htrace⟩ := htracked.traced hq
    rw [hp]
    exact ⟨origin, htrace.append rest, fun _ htrace' => htrace'.unique (htrace.append rest)⟩
  case storage =>
    intro l path q l' path' q' hq hq'
    rw [hp, htracked.sameOrigin_append_iff rest hq hq']
    exact htracked.storage_eq_iff hq hq'
  case arrays =>
    intro l path a l' path' a' ha ha'
    rw [hp, htracked.sameOrigin_append_iff rest ha ha']
    exact htracked.sharesStorageWith_iff ha ha'
  case write =>
    -- the items of one sequence are edited, and with them those of all that share its storage
    intro b _ v s' heval m hm
    obtain ⟨written, edit, hwritten, hedits, hitems⟩ := Expr.exists_edit_of_eval heval hm
    refine ⟨written, edit, hwritten, hedits, fun l path q hq => ?_⟩
    rw [hp, htracked.sameOrigin_append_iff rest hq hwritten]
    constructor
    · rintro ⟨origin, htrace, htrace'⟩
      rw [htracked.eq_of_traces hq hwritten htrace htrace', hitems]
    · intro hother
      refine Expr.itemsOf_eq_of_storage_ne heval (htracked.traced hq).1 fun m' q' hm' hq' heq => ?_
      obtain rfl := Option.some.inj (hm.symm.trans hm')
      exact hother ((htracked.storage_eq_iff hq hq').mp heq)
  case keep =>
    intro b _ v s' heval hnone l path q hq
    refine Expr.itemsOf_eq_of_storage_ne heval (htracked.traced hq).1 fun m q' hm _ => ?_
    rw [hnone] at hm
    cases hm
  case copy =>
    -- a copy is traced to its own binding, where it was allocated
    intro l t k m hl hcopy
    rw [htracked.length] at hl
    rw [hp, List.getElem?_append_left hl] at hcopy
    obtain ⟨q, q', hq, hq', hstorage, hother⟩ := exists_other_of_copy hcopy hreached
    refine ⟨q, q', hq, hq', hstorage, ?_⟩
    rw [hp, htracked.sameOrigin_append_iff rest hq hq']
    exact hother

/-- The view in a tuple has the origin of the array, and a copy that was made of it has not. -/
theorem sharesByOrigin_of_reached_tuple :
    ∃ (p : Program) (before rest : List Binding) (env : Env) (s : Store),
      p.bindings = before ++ rest ∧ evalBindings [] before .empty = .ok env s ∧
        p.SharesByOrigin env s ∧ SameOrigin p.bindings 3 [1] 1 [] ∧
        ¬ SameOrigin p.bindings 4 [] 1 [] := by
  let before : List Binding :=
    [⟨.integer, .intLit 1⟩, ⟨.array .int, .newArray .int 0⟩,
      ⟨.object (.genericView .int), .wrapAdapter .int 1⟩,
      ⟨.tuple [.array .int, .object (.genericView .int)], .tuple [1, 2]⟩,
      ⟨.array .int, .copyFromGeneric .int 2⟩]
  let rest : List Binding := [⟨.integer, .genericSize 2⟩]
  let p : Program := ⟨before ++ rest, 3⟩
  let a : ArrayRef := ⟨.int, 0⟩
  let copied : ArrayRef := ⟨.int, 1⟩
  let env : Env := [.integer 1, .array a, .sequence (.view a),
    .tuple [.array a, .sequence (.view a)], .array copied]
  let s : Store := ⟨#[#[0], #[0]], #[]⟩
  have hreached : evalBindings [] before .empty = .ok env s := by
    with_unfolding_all rfl
  have hshares := sharesByOrigin_of_reached (show p.bindings = before ++ rest from rfl) hreached
  refine ⟨p, before, rest, env, s, rfl, hreached, hshares, ?_, fun hsame => ?_⟩
  · exact (hshares.storage 3 [1] (.view a) 1 [] (.view a) rfl rfl).mp rfl
  · have heq := (hshares.storage 4 [] (.view copied) 1 [] (.view a) rfl rfl).mpr hsame
    cases heq

end Program

end ArrayBridge.Erased
