import ArrayBridge.Proofs.Store.Elements
import ArrayBridge.Proofs.Store.Operations

/-!
# Bulk copies

A bulk copy is a move within bounds. Its range is checked before anything is written: both offsets
and the length have to lie within the two arrays. The words are then moved one at a time, within one
array as well, in an order in which none is overwritten before it is read. What counts in the end is
which words are written and with what; what elements they store is of no account.

Main results:

* `ArrayRef.exists_copyRange?_iff` — which ranges pass the check.
* `ArrayRef.getElem?_slots_moveElements_of_lt`, `ArrayRef.getElem?_slots_moveElements` — the words
  in the range of a copy, and those outside of it.
* `ArrayRef.copyTo_isMove` — a copy succeeds exactly within the bounds, and moves what was there.
-/

namespace ArrayBridge.ArrayRef

/-! ## Ranges -/

/-- A copy stays within arrays of the given lengths: both offsets do, and the length fits past them
if one is given. -/
structure CopyFits (sourceLength destinationLength : Nat) (m n : Int64) (length : Option Int64) :
    Prop where
  source : 0 ≤ m.toInt ∧ m.toInt ≤ sourceLength
  destination : 0 ≤ n.toInt ∧ n.toInt ≤ destinationLength
  length : ∀ count ∈ length,
    0 ≤ count.toInt ∧ count.toInt ≤ min (sourceLength - m.toInt) (destinationLength - n.toInt)

section

variable {sourceLength destinationLength : Nat} {m n : Int64} {length : Option Int64}

/-- A copy that fits moves no more than there is past either offset. -/
theorem CopyFits.copyCount_bounds (h : CopyFits sourceLength destinationLength m n length) :
    0 ≤ copyCount sourceLength destinationLength m n length ∧
      copyCount sourceLength destinationLength m n length ≤
        min (sourceLength - m.toInt) (destinationLength - n.toInt) := by
  obtain ⟨hsource, hdestination, hlength⟩ := h
  cases length with
  | none =>
    simp only [copyCount, Option.elim_none]
    omega
  | some count => exact hlength count rfl

/-- The range of a copy that fits is the one that is asked for. -/
theorem CopyFits.copyRange?_eq (h : CopyFits sourceLength destinationLength m n length) :
    copyRange? sourceLength destinationLength m n length = some
      ⟨m.toInt.toNat, n.toInt.toNat,
        (copyCount sourceLength destinationLength m n length).toNat⟩ := by
  obtain ⟨hsource, hdestination, hlength⟩ := h
  rw [copyRange?_eq_some]
  refine ⟨?_, ?_, ?_⟩
  · dsimp only
    omega
  · dsimp only
    omega
  · cases length with
    | none =>
      simp only [copyCount, Option.elim_none]
      omega
    | some count =>
      have hcount := hlength count rfl
      simp only [copyCount, Option.elim_some]
      omega

/-- The check of a range passes exactly if the copy fits. -/
theorem exists_copyRange?_iff :
    (∃ range, copyRange? sourceLength destinationLength m n length = some range) ↔
      CopyFits sourceLength destinationLength m n length := by
  refine ⟨fun ⟨range, hrange⟩ => ?_, fun h => ⟨_, h.copyRange?_eq⟩⟩
  -- the offsets of a range are the given ones, and its bounds are natural numbers
  obtain ⟨hsource, hdestination, hcount⟩ := copyRange?_eq_some.mp hrange
  refine ⟨by omega, by omega, fun count hmem => ?_⟩
  obtain rfl := Option.mem_def.mp hmem
  dsimp only at hcount
  omega

end

/-! ## Words -/

variable {a d b : ArrayRef} {range : CopyRange} {s s' : Store}

/-- The words in the range of a copy are those that were in the range of its source. -/
theorem getElem?_slots_moveElements_of_lt {i : Nat} (hkind : d.kind = a.kind)
    (hsource : range.source + range.count ≤ s.length a)
    (hdestination : range.destination + range.count ≤ s.length d) (hi : i < range.count) :
    ((a.moveElements d range s).slots d)[range.destination + i]? =
      (s.slots a)[range.source + i]? := by
  have htaken :
      (((s.slots a).toList.drop range.source).take range.count).length = range.count := by
    rw [List.length_take, List.length_drop, Array.length_toList, ← Store.length]
    omega
  have hbound : range.destination + range.count ≤ (s.slots d).toList.length := hdestination
  rw [← Array.getElem?_toList, slots_moveElements hkind hsource hdestination,
    getElem?_splice (by rw [htaken]; exact hbound), htaken, if_pos (by omega),
    Nat.add_sub_cancel_left, List.getElem?_take_of_lt hi, List.getElem?_drop, Array.getElem?_toList]

/-- A copy leaves alone the words outside of its range, and all words of other storage. -/
theorem getElem?_slots_moveElements {j : Nat}
    (h : b.place = d.place → ¬ (range.destination ≤ j ∧ j < range.destination + range.count)) :
    ((a.moveElements d range s).slots b)[j]? = (s.slots b)[j]? := by
  refine moveElements_induction (P := fun s' => (s'.slots b)[j]? = (s.slots b)[j]?) rfl ?_
  intro s' i hi hkept
  rw [Store.slots_writeWord]
  split
  · rename_i hplace
    -- the move goes to the range, and that is elsewhere
    have hne : range.destination + i ≠ j := by
      rintro rfl
      exact h hplace ⟨Nat.le_add_right .., Nat.add_lt_add_left hi _⟩
    exact (Array.getElem?_setIfInBounds_ne hne).trans hkept
  · exact hkept

theorem sequences_moveElements : (a.moveElements d range s).sequences = s.sequences :=
  moveElements_induction (P := fun s' => s'.sequences = s.sequences) rfl fun _ _ _ hkept => hkept

/-! ## Moves -/

/-- From one store to another, elements of an array have been moved to an array, as many as `count`
from offset `m` to offset `n`. -/
structure Moves (a d : ArrayRef) (m n : Int64) (count : Int) (s s' : Store) : Prop where
  /-- What stood in the range of the source before stands in the range of the destination. -/
  moved (i : Nat) (hi : i < count) : ∃ p, (s.elements a)[m.toInt.toNat + i]? = some p ∧
    (s'.elements d)[n.toInt.toNat + i]? = some p
  /-- It is there bit for bit: the words that were read are the words that are there now. -/
  word (i : Nat) (hi : i < count) : ∃ w, (s.slots a)[m.toInt.toNat + i]? = some w ∧
    (s'.slots d)[n.toInt.toNat + i]? = some w
  /-- The other words of the destination are unchanged. -/
  kept (j : Nat) (hj : ¬ (n.toInt ≤ j ∧ j < n.toInt + count)) :
    (s'.slots d)[j]? = (s.slots d)[j]?
  /-- So is all of the source, unless it shares its storage with the destination. -/
  source (h : a.sharesStorageWith d = false) : s'.slots a = s.slots a
  /-- And everything else. -/
  others (b : ArrayRef) (hb : b.place ≠ d.place) : s'.slots b = s.slots b
  sequences : s'.sequences = s.sequences

/-- What a copy that succeeds does. Words are moved as they are, so nothing is asked of the arrays.
-/
theorem moves_of_copyTo {m n : Int64} {length : Option Int64}
    (h : a.copyTo d m n length s = .ok () s') :
    Moves a d m n (copyCount (s.length a) (s.length d) m n length) s s' := by
  obtain ⟨hkind, range, hrange, rfl⟩ := copyTo_eq_ok.mp h
  -- the range that has passed the check is the one that is asked for
  have hfits := exists_copyRange?_iff.mp ⟨range, hrange⟩
  obtain rfl := Option.some.inj (hrange.symm.trans hfits.copyRange?_eq)
  have hcount := hfits.copyCount_bounds
  obtain ⟨hsource, hdestination, -⟩ := hfits
  generalize copyCount (s.length a) (s.length d) m n length = count at *
  -- so it lies within both arrays, in natural numbers as in integers
  have hm : m.toInt.toNat + count.toNat ≤ s.length a := by omega
  have hn : n.toInt.toNat + count.toNat ≤ s.length d := by omega
  have hword : ∀ i : Nat, (i : Int) < count → ∃ w, (s.slots a)[m.toInt.toNat + i]? = some w ∧
      ((a.moveElements d ⟨m.toInt.toNat, n.toInt.toNat, count.toNat⟩ s).slots d)[
        n.toInt.toNat + i]? = some w := by
    intro i hi
    have hat : (s.slots a)[m.toInt.toNat + i]? = some (s.word a (m.toInt.toNat + i)) := by
      rw [Store.getElem?_slots, if_pos (by omega)]
    refine ⟨_, hat, Eq.trans ?_ hat⟩
    exact getElem?_slots_moveElements_of_lt hkind hm hn (i := i) (show i < count.toNat by omega)
  constructor
  case moved =>
    -- both arrays read a word alike, as they are of one kind
    intro i hi
    obtain ⟨w, hw, hw'⟩ := hword i hi
    refine ⟨a.kind.ofSlot w, ?_, ?_⟩
    · rw [Store.elements, List.getElem?_map, Array.getElem?_toList, hw, Option.map_some]
    · rw [Store.elements, List.getElem?_map, Array.getElem?_toList, hw', Option.map_some, hkind]
  case word => exact hword
  case kept =>
    intro j hj
    refine getElem?_slots_moveElements fun _ hrange => hj ?_
    dsimp only at hrange
    omega
  case source =>
    intro hshares
    refine slots_moveElements_of_ne fun hplace => ?_
    rw [(sharesStorageWith_iff_place_eq hkind).mpr hplace] at hshares
    cases hshares
  case others => exact fun b hb => slots_moveElements_of_ne hb
  case sequences => exact sequences_moveElements

/-- A copy between two arrays of a store is a move within bounds. -/
structure CopyIsMove (a d : ArrayRef) (m n : Int64) (length : Option Int64) (s : Store) : Prop where
  /-- It succeeds exactly within the bounds. -/
  ok_iff : (∃ s', a.copyTo d m n length s = .ok () s') ↔
    CopyFits (s.length a) (s.length d) m n length
  moves (s' : Store) (h : a.copyTo d m n length s = .ok () s') :
    Moves a d m n (copyCount (s.length a) (s.length d) m n length) s s'
  /-- A copy that fails has changed nothing. -/
  fails (h : ¬ CopyFits (s.length a) (s.length d) m n length) :
    a.copyTo d m n length s =
      .error (.invalidCopyRange a.kind m n length (s.length a) (s.length d)) s

/-- A bulk copy between arrays of one kind is a move within bounds, in one array as in two. -/
theorem copyTo_isMove (hkind : d.kind = a.kind) (m n : Int64) (length : Option Int64) (s : Store) :
    CopyIsMove a d m n length s := by
  constructor
  case ok_iff =>
    rw [← exists_copyRange?_iff]
    constructor
    · rintro ⟨s', h⟩
      obtain ⟨-, range, hrange, -⟩ := copyTo_eq_ok.mp h
      exact ⟨range, hrange⟩
    · rintro ⟨range, hrange⟩
      exact ⟨_, copyTo_eq_ok.mpr ⟨hkind, range, hrange, rfl⟩⟩
  case moves => exact fun s' h => moves_of_copyTo h
  case fails =>
    intro hfits
    rw [copyTo_apply s a d m n length hkind]
    cases hrange : copyRange? (s.length a) (s.length d) m n length with
    | some range => exact absurd (exists_copyRange?_iff.mp ⟨range, hrange⟩) hfits
    | none => rfl

/-- A copy within one array, onto a range that overlaps the one it reads. -/
theorem copyTo_isMove_overlap :
    (⟨.short, 0⟩ : ArrayRef).kind = (⟨.short, 0⟩ : ArrayRef).kind ∧
      CopyIsMove ⟨.short, 0⟩ ⟨.short, 0⟩ 0 1 (some 3) ⟨#[#[1, 2, 3, 4, 5]], #[]⟩ :=
  ⟨rfl, copyTo_isMove rfl 0 1 (some 3) _⟩

-- each element moves on by one, as the last is moved first
example : (moveElements ⟨.short, 0⟩ ⟨.short, 0⟩ ⟨0, 1, 3⟩ ⟨#[#[1, 2, 3, 4, 5]], #[]⟩).arrays =
    #[#[1, 1, 2, 3, 5]] := by decide

end ArrayBridge.ArrayRef
