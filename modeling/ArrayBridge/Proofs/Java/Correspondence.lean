import ArrayBridge.Erased.Value
import ArrayBridge.Java.Method
import ArrayBridge.Proofs.Java.Execution

/-!
# Heaps and stores

How a value of an erased program and its store show in Java. Arrays of a program and arrays of
primitive values are made one for one and are never dropped, so an array keeps its place; a tuple
becomes an array of objects, which nothing writes to. Elements show as they are, bit for bit, or
else with the constant of its class in place of every NaN.

Main results:

* `Prim.scalar?_injective` — a primitive value of Java stands for one element, bit for bit.
* `Stands.extends` — a value stands for the same on every later heap.
* `Agrees.addArray`, `Agrees.setItems` — heap and store stay in agreement when an array is made and
  when its items are replaced.
-/

namespace ArrayBridge

open ArrayBridge.Java (Scalar)

/-! ## Elements -/

/-- The Java value of an element, with the same bits. A character that is more than one UTF-16 unit
has none. -/
def Prim.scalar? : Prim → Option Scalar
  | boolean b => some (.boolean b)
  | short n => some (.short n)
  | int n => some (.int n)
  | long n => some (.long n)
  | float x => some (.float x)
  | double x => some (.double x)
  | char c => if c.toNat < 0x10000 then some (.char (UInt16.ofNat c.toNat)) else none
  | byte n => some (.byte n)

namespace Prim

theorem kind_of_scalar? {p : Prim} {x : Scalar} (h : p.scalar? = some x) : x.kind = p.kind := by
  cases p with
  | char c =>
    -- a character that takes two units is no Java character at all
    simp only [scalar?] at h
    split at h
    · injection h with h
      exact h ▸ rfl
    · cases h
  | _ =>
    injection h with h
    exact h ▸ rfl

/-- A Java value stands for one element at most. -/
theorem scalar?_injective {p q : Prim} {x : Scalar} (hp : p.scalar? = some x)
    (hq : q.scalar? = some x) : p = q := by
  have hkind : p.kind = q.kind := (kind_of_scalar? hp).symm.trans (kind_of_scalar? hq)
  have heq : p.scalar? = q.scalar? := hp.trans hq.symm
  cases p <;> cases q <;> cases hkind
  case char.char.refl c d =>
    have hc : c.toNat < 0x10000 := (Option.ite_none_right_eq_some.mp hp).1
    have hd : d.toNat < 0x10000 := (Option.ite_none_right_eq_some.mp hq).1
    rw [scalar?, scalar?, if_pos hc, if_pos hd, Option.some.injEq, Scalar.char.injEq] at heq
    -- both codes fit in a unit, so equal units are equal codes
    have hcodes := congrArg UInt16.toNat heq
    rw [UInt16.toNat_ofNat', UInt16.toNat_ofNat', Nat.mod_eq_of_lt hc, Nat.mod_eq_of_lt hd]
      at hcodes
    exact congrArg char (Char.toNat_inj.mp hcodes)
  all_goals
    injection heq with heq
    injection heq with heq
    rw [heq]

end Prim

/-- The element with the constant of its class in place of a NaN. -/
def Prim.plain : Prim → Prim
  | float x => .float x.plain
  | double x => .double x.plain
  | p => p

/-- A plain value is of the same kind, -/
theorem Prim.kind_plain (p : Prim) : p.plain.kind = p.kind := by
  cases p <;> rfl

end ArrayBridge

namespace ArrayBridge.Java

/-! ## NaNs -/

/-- How NaNs show in Java: with the bits that they have, or each as the constant of its class. -/
inductive NaNs where
  | kept
  | plain

namespace NaNs

/-- The element that shows where another is meant. -/
def shown : NaNs → Prim → Prim
  | kept, p => p
  | plain, p => p.plain

/-- The Java value that an element shows as, if it has one. -/
def scalar? (nans : NaNs) (p : Prim) : Option Scalar := (nans.shown p).scalar?

variable {nans : NaNs}

/-- so whatever is shown of a NaN, its kind is kept. -/
theorem kind_shown (nans : NaNs) (p : Prim) : (nans.shown p).kind = p.kind := by
  cases nans with
  | kept => rfl
  | plain => exact p.kind_plain

theorem kind_of_scalar? {p : Prim} {x : Scalar} (h : nans.scalar? p = some x) : x.kind = p.kind :=
  (Prim.kind_of_scalar? h).trans (nans.kind_shown p)

/-- The default values are no NaNs. -/
theorem scalar?_zero (nans : NaNs) (k : Kind) : nans.scalar? k.zero = some (.default k) := by
  cases nans <;> cases k <;> rfl

end NaNs

/-! ## Names of variables -/

/-- Numbers are told apart by their digits, so locals are by their names. -/
theorem localName_injective {l l' : Local} (h : localName l = localName l') : l = l' := by
  have hchars := congrArg String.toList h
  simp only [localName, String.toList_append, List.append_cancel_left_eq] at hchars
  -- equal names have equal digits after the letter
  have hdigits : Nat.toDigits 10 l = Nat.toDigits 10 l' := by
    rw [← Nat.toList_repr, ← Nat.toList_repr]
    exact hchars
  calc
    l = Nat.ofDigitChars 10 (Nat.toDigits 10 l) 0 := Nat.ofDigitChars_ten_toDigits.symm
    _ = Nat.ofDigitChars 10 (Nat.toDigits 10 l') 0 := by rw [hdigits]
    _ = l' := Nat.ofDigitChars_ten_toDigits

/-- The name of a variable is that of no class: it starts with another letter. -/
theorem localName_ne {name : String} (h : name.toList.head? ≠ some 'l') (l : Local) :
    name ≠ localName l := by
  intro heq
  refine h ?_
  rw [heq, localName, String.toList_append]
  rfl

/-! ## Values -/

/-- The kind of the array of primitive values at a place. -/
def Heap.kind? (h : Heap) (place : Nat) : Option Kind := h.arrays[place]?.map PrimArray.kind

mutual
/-- Whether a Java value stands for a value of an erased program, the contents of arrays aside. -/
def Stands (nans : NaNs) (h : Heap) : Erased.Value → Value → Prop
  | .unit, .null => True
  | .integer n, .scalar x => x = .long n
  | .prim p, .scalar x => nans.scalar? p = some x
  | .array a, .array i => i = a.place ∧ h.kind? i = some a.kind
  | .tuple vs, .objects i => ∃ ws, h.objects[i]? = some ws ∧ StandAll nans h vs ws
  | _, _ => False

/-- Whether the values of a list stand for those of another, one by one. -/
def StandAll (nans : NaNs) (h : Heap) : List Erased.Value → List Value → Prop
  | [], [] => True
  | v :: vs, w :: ws => Stands nans h v w ∧ StandAll nans h vs ws
  | _, _ => False
end

/-- The array whose items are replaced, and the others. -/
theorem Heap.getElem?_setItems_cases {h : Heap} {place i : Nat} {a b : PrimArray}
    {items : List Scalar} (ha : h.arrays[place]? = some a)
    (hb : (h.setItems place items).arrays[i]? = some b) :
    (i = place ∧ b = { a with items := items }) ∨ (i ≠ place ∧ h.arrays[i]? = some b) := by
  rw [Heap.setItems, List.getElem?_modify] at hb
  by_cases hi : place = i
  · subst hi
    simp only [ha, if_pos, Option.map_eq_map, Option.map_some, Option.some.injEq] at hb
    exact .inl ⟨rfl, hb.symm⟩
  · simp only [if_neg hi, Option.map_eq_map, Option.map_id'] at hb
    exact .inr ⟨Ne.symm hi, hb⟩

/-- Whether a heap has all the arrays of an earlier one. Arrays keep their kind, and those of
objects also keep their items. -/
structure Heap.Extends (h h' : Heap) : Prop where
  kinds : ∀ i k, h.kind? i = some k → h'.kind? i = some k
  objects : ∀ (i : Nat) (ws : List Value), h.objects[i]? = some ws → h'.objects[i]? = some ws

namespace Heap.Extends

theorem refl (h : Heap) : h.Extends h := ⟨fun _ _ => id, fun _ _ => id⟩

theorem addArray (h : Heap) (a : PrimArray) : h.Extends (h.addArray a) := by
  refine ⟨fun i k hk => ?_, fun _ _ => id⟩
  obtain ⟨b, hb, rfl⟩ := Option.map_eq_some_iff.mp hk
  have hi : i < h.arrays.length := (List.getElem?_eq_some_iff.mp hb).1
  rw [Heap.kind?, Heap.addArray, List.getElem?_append_left hi, hb, Option.map_some]

theorem addObjects (h : Heap) (items : List Value) : h.Extends (h.addObjects items) := by
  refine ⟨fun _ _ => id, fun i ws hws => ?_⟩
  have hi : i < h.objects.length := (List.getElem?_eq_some_iff.mp hws).1
  rw [Heap.addObjects, List.getElem?_append_left hi, hws]

/-- Setting items keeps the arrays that there are, and their kinds. -/
theorem setItems (h : Heap) (place : Nat) (items : List Scalar) :
    h.Extends (h.setItems place items) := by
  refine ⟨fun i k hk => ?_, fun _ _ => id⟩
  obtain ⟨b, hb, rfl⟩ := Option.map_eq_some_iff.mp hk
  rw [Heap.kind?, Heap.setItems, List.getElem?_modify, hb]
  by_cases hi : place = i <;> simp [hi]

end Heap.Extends

section

variable {nans : NaNs} {h h' : Heap}

mutual
/-- A value stands for the same on a later heap. -/
theorem Stands.extends (hext : h.Extends h') :
    {v : Erased.Value} → {w : Value} → Stands nans h v w → Stands nans h' v w
  | .unit, .null, _ => trivial
  | .integer _, .scalar _, hv => hv
  | .prim _, .scalar _, hv => hv
  | .array a, .array i, ⟨hplace, hkind⟩ => ⟨hplace, hext.kinds i a.kind hkind⟩
  | .tuple _, .objects i, ⟨ws, hws, hvs⟩ =>
    ⟨ws, hext.objects i ws hws, StandAll.extends hext hvs⟩

theorem StandAll.extends (hext : h.Extends h') :
    {vs : List Erased.Value} → {ws : List Value} → StandAll nans h vs ws → StandAll nans h' vs ws
  | [], [], _ => trivial
  | _ :: _, _ :: _, ⟨hv, hvs⟩ => ⟨hv.extends hext, StandAll.extends hext hvs⟩
end

end

/-! ## Contents -/

/-- Whether a heap holds the arrays of a store, element for element, and no other arrays of
primitive values. The elements are the same bit for bit where NaNs keep their bits. -/
structure Agrees (nans : NaNs) (s : Store) (h : Heap) : Prop where
  size : h.arrays.length = s.arrays.size
  items : ∀ (i : Nat) (a : PrimArray), h.arrays[i]? = some a →
    (s.elements ⟨a.kind, i⟩).map nans.scalar? = a.items.map some
  /-- A length is an `int`. -/
  bounded : ∀ a ∈ h.arrays, a.items.length ≤ maxLength

namespace Agrees

variable {nans : NaNs} {s s' : Store} {h : Heap}

theorem empty : Agrees nans .empty .empty :=
  ⟨rfl, fun i a ha => by simp [Heap.empty] at ha, fun a ha => by simp [Heap.empty] at ha⟩

/-- Arrays of objects are of no account. -/
theorem addObjects (hagree : Agrees nans s h) (items : List Value) :
    Agrees nans s (h.addObjects items) :=
  ⟨hagree.size, hagree.items, hagree.bounded⟩

theorem addArray (hagree : Agrees nans s h) {k : Kind} {n : Nat} {p : Prim} {x : Scalar}
    (hkind : p.kind = k) (hscalar : nans.scalar? p = some x) (hn : n ≤ maxLength) :
    Agrees nans (s.newArray k (.replicate n p)).2 (h.addArray ⟨k, .replicate n x⟩) := by
  have helements := Store.elements_newArray_replicate s n hkind
  refine ⟨by simp [Heap.addArray, Store.newArray, hagree.size], ?_, ?_⟩
  · intro i a ha
    rw [Heap.addArray, List.getElem?_append] at ha
    split at ha
    · rename_i hi
      have hne : i ≠ s.arrays.size := by
        have := hagree.size
        omega
      rw [Store.elements_newArray_of_ne s ⟨a.kind, i⟩ hne]
      exact hagree.items i a ha
    · rename_i hi
      -- the last place is that of the fresh array
      rw [List.getElem?_singleton] at ha
      split at ha
      · rename_i hlast
        injection ha with ha
        have hplace : i = s.arrays.size := by
          have := hagree.size
          omega
        subst ha
        rw [hplace]
        exact (congrArg _ helements).trans (by simp [hscalar])
      · cases ha
  · intro a ha
    rw [Heap.addArray, List.mem_append, List.mem_singleton] at ha
    rcases ha with ha | rfl
    · exact hagree.bounded a ha
    · simpa using hn

/-- The items of one array are replaced, and no other array changes. -/
theorem setItems (hagree : Agrees nans s h) {place : Nat} {a : PrimArray} {items : List Scalar}
    (ha : h.arrays[place]? = some a) (hsize : s'.arrays.size = s.arrays.size)
    (hitems : (s'.elements ⟨a.kind, place⟩).map nans.scalar? = items.map some)
    (hrest : ∀ b : ArrayRef, b.place ≠ place → s'.elements b = s.elements b)
    (hlength : items.length = a.items.length) :
    Agrees nans s' (h.setItems place items) := by
  refine ⟨by simp [Heap.setItems, hagree.size, hsize], ?_, ?_⟩
  · intro i b hb
    rcases Heap.getElem?_setItems_cases ha hb with ⟨rfl, rfl⟩ | ⟨hi, hb⟩
    · exact hitems
    · rw [hrest ⟨b.kind, i⟩ hi]
      exact hagree.items i b hb
  · intro b hb
    obtain ⟨i, hb⟩ := List.mem_iff_getElem?.mp hb
    rcases Heap.getElem?_setItems_cases ha hb with ⟨-, rfl⟩ | ⟨-, hb⟩
    · exact hlength ▸ hagree.bounded a (List.mem_of_getElem? ha)
    · exact hagree.bounded b (List.mem_of_getElem? hb)

end Agrees

end ArrayBridge.Java
