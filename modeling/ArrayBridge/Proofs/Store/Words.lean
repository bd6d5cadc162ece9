import ArrayBridge.Proofs.Store.Unboxing

/-!
# Words of arrays

The store holds raw words, and not every word stores an element of every kind: a character is read
from the code of one, and from any other word the zero character is read instead. References are
handed out by the operations that make arrays, and whoever uses arrays only by their operations and
by such references never meets a word of that sort.

Main results:

* `Store.Encodes.toList_slots` — where every word stores an element, words and elements determine
  each other.
* `Store.Encodes.write`, `Store.Encodes.moveElements` — what is written is the word of an element.
* `Store.Arises.encodes` — every word of an array in use stores an element of the array's kind.
-/

namespace ArrayBridge

/-! ## Words of elements -/

namespace Store

/-- Every word of an array stores an element of the array's kind. -/
def Encodes (s : Store) (a : ArrayRef) : Prop :=
  ∀ w ∈ s.slots a, ∃ p : Prim, p.kind = a.kind ∧ p.toSlot = w

variable {s : Store} {a b d : ArrayRef}

/-- Such a word is found again from the element that is read from it. -/
theorem Encodes.toSlot_ofSlot (h : s.Encodes a) {w : Slot} (hw : w ∈ s.slots a) :
    (a.kind.ofSlot w).toSlot = w := by
  obtain ⟨p, hkind, rfl⟩ := h w hw
  rw [Kind.ofSlot_toSlot hkind]

/-- Where every word stores an element, the words are those of the elements. -/
theorem Encodes.toList_slots (h : s.Encodes a) :
    (s.slots a).toList = (s.elements a).map Prim.toSlot := by
  rw [elements, List.map_map]
  refine (List.map_id _).symm.trans (List.map_congr_left fun w hw => ?_)
  exact (h.toSlot_ofSlot (Array.mem_toList_iff.mp hw)).symm

/-- The codes in an array of characters are codes of characters. -/
theorem Encodes.isValidChar (h : s.Encodes a) (hkind : a.kind = .char) {w : Slot}
    (hw : w ∈ s.slots a) : w.toUInt32.toNat.isValidChar := by
  obtain ⟨p, hp, rfl⟩ := h w hw
  rw [hkind] at hp
  cases p with
  | char c =>
    have hcode : (Prim.char c).toSlot.toUInt32.toNat = c.toNat := by simp [Prim.toSlot]
    rw [hcode]
    exact c.valid
  | _ => cases hp

/-! ## Changes of the store -/

theorem encodes_newArray {k : Kind} {els : Array Prim} (hels : ∀ p ∈ els.toList, p.kind = k) :
    (s.newArray k els).2.Encodes (s.newArray k els).1 := by
  intro w hw
  rw [slots_newArray_self] at hw
  obtain ⟨p, hp, rfl⟩ := Array.mem_map.mp hw
  exact ⟨p, hels p (Array.mem_toList_iff.mpr hp), rfl⟩

theorem Encodes.newArray (h : s.Encodes a) (ha : a.place < s.arrays.size) (k : Kind)
    (els : Array Prim) : (s.newArray k els).2.Encodes a := by
  intro w hw
  rw [slots_newArray, if_neg (Nat.ne_of_lt ha)] at hw
  exact h w hw

/-- What is written into an array has to be the word of an element of the array's kind. -/
theorem Encodes.writeWord (h : s.Encodes a) {w : Slot}
    (hw : a.place = b.place → ∃ p : Prim, p.kind = a.kind ∧ p.toSlot = w) (i : Nat) :
    (s.writeWord b i w).Encodes a := by
  intro w' hw'
  rw [slots_writeWord] at hw'
  split at hw'
  · rename_i hplace
    -- a word of the array is an old one or the one that has been written
    rcases Array.mem_or_eq_of_mem_setIfInBounds hw' with hold | rfl
    · exact h w' hold
    · exact hw hplace
  · exact h w' hw'

theorem Encodes.write (h : s.Encodes a) {p : Prim} (hkind : a.place = b.place → p.kind = a.kind)
    (i : Nat) : (s.write b i p).Encodes a :=
  h.writeWord (fun hplace => ⟨p, hkind hplace, rfl⟩) i

/-- The word of an element, or the word zero past the end. -/
theorem Encodes.exists_word (h : s.Encodes a) (i : Nat) :
    ∃ p : Prim, p.kind = a.kind ∧ p.toSlot = s.word a i := by
  rw [word, Array.getD_eq_getD_getElem?]
  cases hi : (s.slots a)[i]? with
  | none => exact ⟨a.kind.zero, Kind.kind_zero _, by cases a.kind <;> decide⟩
  | some w => exact h w (Array.mem_of_getElem? hi)

/-- To move a word is to load the element and to store it again. -/
theorem Encodes.writeWord_word (h : s.Encodes a) (i j : Nat) :
    s.writeWord b i (s.word a j) = s.write b i (s.element a j) := by
  obtain ⟨p, hkind, hword⟩ := h.exists_word j
  rw [Store.write, element, ← hword, Kind.ofSlot_toSlot hkind]

/-- A bulk copy writes words of its source, which is of the kind of the array that is written. -/
theorem Encodes.moveElements (ha : s.Encodes a) (h : s.Encodes b)
    (hkind : b.place = d.place → a.kind = b.kind) (range : ArrayRef.CopyRange) :
    (a.moveElements d range s).Encodes b := by
  -- the words of the source store elements until the last one has been moved
  have hmoved : (a.moveElements d range s).Encodes a ∧ (a.moveElements d range s).Encodes b := by
    refine ArrayRef.moveElements_induction (P := fun s => s.Encodes a ∧ s.Encodes b) ⟨ha, h⟩ ?_
    rintro s i - ⟨ha, hb⟩
    obtain ⟨p, hp, hword⟩ := ha.exists_word (range.source + i)
    exact ⟨ha.writeWord (fun _ => ⟨p, hp, hword⟩) _,
      hb.writeWord (fun hbd => ⟨p, hp.trans (hkind hbd), hword⟩) _⟩
  exact hmoved.2

/-! ## Arrays in use -/

/-- References to arrays of a store. There is one to each array, and the words of the array store
elements of the kind that the reference names. -/
structure Sound (arrays : List ArrayRef) (s : Store) : Prop where
  lt_size : ∀ a ∈ arrays, a.place < s.arrays.size
  eq_of_place_eq : ∀ a ∈ arrays, ∀ b ∈ arrays, a.place = b.place → a = b
  encodes : ∀ a ∈ arrays, s.Encodes a

/-- The stores that arise from the operations on arrays and sequences, with the references to the
arrays that were made. An operation that fails has not changed the store. -/
inductive Arises : List ArrayRef → Store → Prop
  | empty : Arises [] .empty
  /-- An array of given elements. -/
  | ofElements {arrays : List ArrayRef} {s : Store} {k : Kind} {els : Array Prim}
    (h : Arises arrays s) (hels : ∀ p ∈ els.toList, p.kind = k) :
    Arises (arrays ++ [(s.newArray k els).1]) (s.newArray k els).2
  | new {arrays : List ArrayRef} {s s' : Store} {k : Kind} {size : Int64} {element : Option Prim}
    {a : ArrayRef} (h : Arises arrays s) (hnew : ArrayRef.new k size element s = .ok a s') :
    Arises (arrays ++ [a]) s'
  | ofSequence {arrays : List ArrayRef} {s s' : Store} {k : Kind} {q : Sequence} {a : ArrayRef}
    (h : Arises arrays s) (hof : ArrayRef.ofSequence k q s = .ok a s') : Arises (arrays ++ [a]) s'
  | newSequence {arrays : List ArrayRef} {s : Store} {element : Descriptor} {items : Array Boxed}
    (h : Arises arrays s) : Arises arrays (s.newSequence element items).2
  | set {arrays : List ArrayRef} {s s' : Store} {a : ArrayRef} {index : Int64} {p : Prim}
    (h : Arises arrays s) (ha : a ∈ arrays) (hset : a.set index p s = .ok () s') : Arises arrays s'
  | copyTo {arrays : List ArrayRef} {s s' : Store} {a d : ArrayRef} {m n : Int64}
    {length : Option Int64} (h : Arises arrays s) (ha : a ∈ arrays) (hd : d ∈ arrays)
    (hcopy : a.copyTo d m n length s = .ok () s') : Arises arrays s'
  | setItem {arrays : List ArrayRef} {s s' : Store} {q : Sequence} {index : Nat} {b : Boxed}
    (h : Arises arrays s) (hq : ∀ a, q = .view a → a ∈ arrays)
    (hset : q.setItem index b s = .ok () s') : Arises arrays s'

namespace Sound

variable {arrays : List ArrayRef} {s' : Store}

/-- A further array is told apart from the others by its place. -/
theorem newArray (h : s.Sound arrays) {k : Kind} {els : Array Prim}
    (hels : ∀ p ∈ els.toList, p.kind = k) :
    (s.newArray k els).2.Sound (arrays ++ [(s.newArray k els).1]) := by
  have hplace : (s.newArray k els).1.place = s.arrays.size := rfl
  have hsize : (s.newArray k els).2.arrays.size = s.arrays.size + 1 := by simp [Store.newArray]
  constructor
  case lt_size =>
    intro a ha
    rw [hsize]
    rcases List.mem_append.mp ha with ha | ha
    · exact Nat.lt_succ_of_lt (h.lt_size a ha)
    · rw [List.mem_singleton.mp ha, hplace]
      exact Nat.lt_succ_self _
  case eq_of_place_eq =>
    intro a ha b hb heq
    -- the new place is past all those that are in use
    rcases List.mem_append.mp ha with ha | ha <;> rcases List.mem_append.mp hb with hb | hb
    · exact h.eq_of_place_eq a ha b hb heq
    · rw [List.mem_singleton.mp hb, hplace] at heq
      exact absurd heq (Nat.ne_of_lt (h.lt_size a ha))
    · rw [List.mem_singleton.mp ha, hplace] at heq
      exact absurd heq.symm (Nat.ne_of_lt (h.lt_size b hb))
    · rw [List.mem_singleton.mp ha, List.mem_singleton.mp hb]
  case encodes =>
    intro a ha
    rcases List.mem_append.mp ha with ha | ha
    · exact (h.encodes a ha).newArray (h.lt_size a ha) k els
    · rw [List.mem_singleton.mp ha]
      exact encodes_newArray hels

theorem write (h : s.Sound arrays) (hb : b ∈ arrays) {p : Prim} (hkind : p.kind = b.kind)
    (i : Nat) : (s.write b i p).Sound arrays where
  lt_size a ha := by simpa using h.lt_size a ha
  eq_of_place_eq := h.eq_of_place_eq
  encodes a ha := (h.encodes a ha).write
    (fun hplace => by rw [hkind, h.eq_of_place_eq a ha b hb hplace]) i

theorem moveElements (h : s.Sound arrays) (ha : a ∈ arrays) (hd : d ∈ arrays)
    (hkind : d.kind = a.kind) (range : ArrayRef.CopyRange) :
    (a.moveElements d range s).Sound arrays where
  lt_size b hb := by
    rw [ArrayRef.size_moveElements]
    exact h.lt_size b hb
  eq_of_place_eq := h.eq_of_place_eq
  encodes b hb := (h.encodes a ha).moveElements (h.encodes b hb)
    (fun hplace => by rw [h.eq_of_place_eq b hb d hd hplace, hkind]) range

/-- Boxed sequences have storage of their own. -/
theorem of_arrays_eq (h : s.Sound arrays) (harrays : s'.arrays = s.arrays) : s'.Sound arrays where
  lt_size a ha := by
    rw [harrays]
    exact h.lt_size a ha
  eq_of_place_eq := h.eq_of_place_eq
  encodes a ha := by
    unfold Encodes slots
    rw [harrays]
    exact h.encodes a ha

end Sound

/-- The references in use are sound, after whatever operations. -/
theorem Arises.sound {arrays : List ArrayRef} (h : Arises arrays s) : s.Sound arrays := by
  -- the induction is on the history of operations
  induction h with
  | empty => exact ⟨by simp, by simp, by simp⟩
  | ofElements _ hels ih => exact ih.newArray hels
  | new _ hnew ih =>
    obtain ⟨els, hels, rfl, rfl⟩ := ArrayRef.exists_newArray_of_new hnew
    exact ih.newArray hels
  | ofSequence _ hof ih =>
    obtain ⟨els, hels, rfl, rfl⟩ := ArrayRef.ofSequence_eq_ok.mp hof
    refine ih.newArray fun p hp => ?_
    obtain ⟨b, -, hb⟩ := exists_of_forall₂_right hels hp
    exact Kind.kind_of_unbox hb
  | newSequence _ ih => exact ih.of_arrays_eq rfl
  | set _ ha hset ih =>
    obtain ⟨hkind, -, rfl⟩ := ArrayRef.set_eq_ok.mp hset
    exact ih.write ha hkind _
  | copyTo _ ha hd hcopy ih =>
    obtain ⟨hkind, range, -, rfl⟩ := ArrayRef.copyTo_eq_ok.mp hcopy
    exact ih.moveElements ha hd hkind range
  | @setItem _ _ _ q _ _ _ hq hset ih =>
    cases q with
    | view a =>
      obtain ⟨p, hunbox, -, rfl⟩ := (Sequence.setItem_view_eq_ok _).mp hset
      exact ih.write (hq a rfl) (Kind.kind_of_unbox hunbox) _
    | boxed r =>
      obtain ⟨-, -, rfl⟩ := (Sequence.setItem_boxed_eq_ok _).mp hset
      exact ih.of_arrays_eq rfl

/-- Every word of an array in use stores an element of the array's kind. -/
theorem Arises.encodes {arrays : List ArrayRef} (h : Arises arrays s) (ha : a ∈ arrays) :
    s.Encodes a :=
  h.sound.encodes a ha

end Store

end ArrayBridge
