import ArrayBridge.Proofs.Erased.Renaming
import Mathlib.Data.List.Infix
import Mathlib.Data.List.GetD

/-!
# Erased programs without their adapters

An adapter holds nothing but a view of its array, so erased programs can be compared with their
adapters left out. What stays is numbered anew, as if each binding were followed by one adapter of
it: the `n`-th binding that stays is read as `2 * n`, and every adapter of it as `2 * n + 1`. So an
operand tells whether it is an array or an adapter, and which array, but not where the adapter was
made, nor how many there were.

Main results:

* `Stripped.strip_concat` — what is left of one more binding depends on what is left of those
  before it.
* `Stripped.number_strip_append` — the numbers do not change when more bindings follow.
* `Stripped.number_strip_wrapped` — an adapter is numbered next to its array.
-/

namespace ArrayBridge.Erased

/-! ## Adapters -/

/-- The array that an expression wraps, if it makes an adapter. -/
def Expr.wrapped? : Expr → Option Local
  | wrapAdapter _ array => some array
  | _ => none

/-- An adapter: where it is bound, and the array that it wraps. -/
structure Adapter where
  place : Local
  array : Local
deriving DecidableEq, Repr

/-- The adapters among bindings, in order. -/
def adaptersOf (bs : List Binding) : List Adapter :=
  bs.zipIdx.filterMap fun (b, place) => b.expr.wrapped?.map (⟨place, ·⟩)

/-- The adapters of a program. -/
def Program.adapters (e : Program) : List Adapter := adaptersOf e.bindings

/-- Adapters are found binding by binding. -/
theorem adaptersOf_concat (bs : List Binding) (b : Binding) :
    adaptersOf (bs ++ [b]) =
      adaptersOf bs ++ (b.expr.wrapped?.map (Adapter.mk bs.length)).toList := by
  rw [adaptersOf, List.zipIdx_append, List.filterMap_append, adaptersOf]
  cases h : b.expr.wrapped? <;> simp [h]

/-- A binding that makes no adapter adds none. -/
theorem adaptersOf_concat_of_wrapped?_eq_none (bs : List Binding) {b : Binding}
    (h : b.expr.wrapped? = none) : adaptersOf (bs ++ [b]) = adaptersOf bs := by
  rw [adaptersOf_concat, h, Option.map_none, Option.toList_none, List.append_nil]

theorem Expr.wrapped?_rename (f : Local → Local) (e : Expr) :
    (e.rename f).wrapped? = e.wrapped?.map f := by
  cases e <;> rfl

/-! ## Leaving adapters out -/

/-- What is left of bindings without their adapters. -/
structure Stripped where
  /-- The bindings that stay. -/
  kept : List Binding
  /-- What each binding, kept or not, is read as. -/
  numbers : List Local
deriving DecidableEq

namespace Stripped

/-- What a local is read as. -/
def number (r : Stripped) (l : Local) : Local := r.numbers.getD l 0

/-- One more binding: an adapter is left out and numbered next to its array, and anything else stays
and reads its operands by their numbers. -/
def add (r : Stripped) (b : Binding) : Stripped :=
  match b.expr.wrapped? with
  | some array => ⟨r.kept, r.numbers ++ [r.number array + 1]⟩
  | none => ⟨r.kept ++ [⟨b.type, b.expr.rename r.number⟩], r.numbers ++ [2 * r.kept.length]⟩

/-- Bindings without their adapters. -/
def strip (bs : List Binding) : Stripped := bs.foldl add ⟨[], []⟩

end Stripped

/-- A program without its adapters. -/
def Program.withoutAdapters (e : Program) : Program :=
  let r := Stripped.strip e.bindings
  ⟨r.kept, r.number e.result⟩

namespace Stripped

variable {r : Stripped} {b : Binding} {bs : List Binding} {l : Local}

/-- Stripping goes on with the last binding. -/
theorem strip_concat (bs : List Binding) (b : Binding) :
    strip (bs ++ [b]) = (strip bs).add b := by
  rw [strip, List.foldl_append]
  rfl

/-- Every binding gets a number, an adapter that of its array. -/
theorem exists_numbers_add (r : Stripped) (b : Binding) :
    ∃ n, (r.add b).numbers = r.numbers ++ [n] := by
  rw [add]
  cases b.expr.wrapped? with
  | none => exact ⟨_, rfl⟩
  | some array => exact ⟨_, rfl⟩

@[simp] theorem length_numbers_strip (bs : List Binding) :
    (strip bs).numbers.length = bs.length := by
  induction bs using List.reverseRecOn with
  | nil => rfl
  | append_singleton bs b ih =>
    obtain ⟨n, hn⟩ := exists_numbers_add (strip bs) b
    rw [strip_concat, hn, List.length_append, List.length_append, ih]
    rfl

theorem number_add (hl : l < r.numbers.length) : (r.add b).number l = r.number l := by
  obtain ⟨n, hn⟩ := exists_numbers_add r b
  rw [number, hn, number, List.getD_append _ _ _ _ hl]

theorem number_length (kept : List Binding) (numbers : List Local) (n : Local) :
    Stripped.number ⟨kept, numbers ++ [n]⟩ numbers.length = n := by
  rw [number, List.getD_append_right _ _ _ _ (Nat.le_refl _), Nat.sub_self]
  rfl

/-- A binding that makes no adapter stays. -/
theorem strip_concat_of_wrapped?_eq_none (bs : List Binding) (h : b.expr.wrapped? = none) :
    (strip (bs ++ [b])).kept = (strip bs).kept ++ [⟨b.type, b.expr.rename (strip bs).number⟩] ∧
      (strip (bs ++ [b])).number bs.length = 2 * (strip bs).kept.length := by
  rw [strip_concat, add, h]
  refine ⟨rfl, ?_⟩
  rw [← length_numbers_strip bs]
  exact number_length _ _ _

/-- An adapter is left out, and numbered next to its array. -/
theorem strip_concat_of_wrapped?_eq_some {array : Local} (bs : List Binding)
    (h : b.expr.wrapped? = some array) :
    (strip (bs ++ [b])).kept = (strip bs).kept ∧
      (strip (bs ++ [b])).number bs.length = (strip bs).number array + 1 := by
  rw [strip_concat, add, h]
  refine ⟨rfl, ?_⟩
  rw [← length_numbers_strip bs]
  exact number_length _ _ _

/-- The numbers do not change when more bindings follow. -/
theorem number_strip_append (more : List Binding) (hl : l < bs.length) :
    (strip (bs ++ more)).number l = (strip bs).number l := by
  induction more using List.reverseRecOn with
  | nil => rw [List.append_nil]
  | append_singleton more b ih =>
    -- what is added gets a number behind those that have been given
    have hlt : l < (strip (bs ++ more)).numbers.length := by
      rw [length_numbers_strip, List.length_append]
      exact Nat.lt_add_right _ hl
    rw [← List.append_assoc, strip_concat, number_add hlt, ih]

/-- More bindings do not change the numbers of those before. -/
theorem number_strip_prefix {bs' : List Binding} (h : bs <+: bs') (hl : l < bs.length) :
    (strip bs').number l = (strip bs).number l := by
  obtain ⟨more, rfl⟩ := h
  exact number_strip_append more hl

/-- So an adapter is numbered next to its array wherever it stands. -/
theorem number_strip_wrapped {array : Local} (hb : bs[l]? = some b)
    (hwrapped : b.expr.wrapped? = some array) (hlt : array < l) :
    (strip bs).number l = (strip bs).number array + 1 := by
  obtain ⟨before, after, rfl, rfl⟩ := exists_append_of_getElem? hb
  have harray : array < (before ++ [b]).length := by
    rw [List.length_append]
    exact Nat.lt_add_right _ hlt
  obtain ⟨-, hlast⟩ := strip_concat_of_wrapped?_eq_some before hwrapped
  -- both numbers are settled by the time the adapter is bound
  rw [List.append_cons, number_strip_append after (by simp), hlast,
    number_strip_append after harray, number_strip_append [b] hlt]

end Stripped

end ArrayBridge.Erased
