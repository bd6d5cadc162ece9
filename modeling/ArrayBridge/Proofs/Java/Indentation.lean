import ArrayBridge.Proofs.Java.OneLine

/-!
# Indentation of statements

A block is written between two changes of the level, to a deeper one and back, so it leaves the
level as it was. Nothing but the ends of its lines depends on the level it starts from: the same
block further to the right is the same text with more spaces in front of each line but the first.

The level is a word, so this holds as long as the levels of all blocks inside fit one.

Main results:

* `Writer.Moves.block`, `Writer.Moves.lines` — how parts that move with the indentation are put
  together.
* `Stmt.moves_write` — statements, by induction on the statement.
* `indents_of_fits` — statements and blocks at any level, next to those at level zero.
-/

namespace ArrayBridge.Java

/-! ## Moving a text to the right -/

/-- A text further to the right: spaces follow every line feed. -/
def movedRight (n : Nat) (text : List Char) : List Char :=
  text.flatMap fun c => if c = '\n' then '\n' :: List.replicate n ' ' else [c]

section

variable {n : Nat} {c : Char} {text : List Char}

/-- Texts are moved line by line, so one after the other. -/
theorem movedRight_append (text₁ text₂ : List Char) :
    movedRight n (text₁ ++ text₂) = movedRight n text₁ ++ movedRight n text₂ :=
  List.flatMap_append

/-- Only lines that begin in a text are moved, so one without line feeds stays as it is. -/
theorem movedRight_of_onOneLine (h : OnOneLine text) : movedRight n text = text := by
  induction text with
  | nil => rfl
  | cons c text ih =>
    have ⟨hc, htext⟩ := onOneLine_cons.mp h
    rw [movedRight, List.flatMap_cons, if_neg hc.symm]
    exact congrArg (c :: ·) (ih htext)

theorem onOneLine_replicate (n : Nat) : OnOneLine (List.replicate n ' ') :=
  fun hmem => absurd (List.eq_of_mem_replicate hmem) (by decide)

/-- A new line goes as many spaces further as its level does. -/
theorem movedRight_newlineAt (m : Nat) : movedRight n (newlineAt m) = newlineAt (m + n) := by
  have hfeed : movedRight n ['\n'] = newlineAt n := List.append_nil _
  calc movedRight n (newlineAt m)
      = movedRight n ['\n'] ++ movedRight n (List.replicate m ' ') := movedRight_append ['\n'] _
    _ = newlineAt n ++ List.replicate m ' ' := by
        rw [hfeed, movedRight_of_onOneLine (onOneLine_replicate m)]
    _ = newlineAt (m + n) := by
        rw [newlineAt, List.cons_append, List.replicate_append_replicate, Nat.add_comm n m,
          newlineAt]

theorem movedRight_separated (separator : List Char) (ts : List (List Char)) :
    movedRight n (separated separator ts) =
      separated (movedRight n separator) (ts.map (movedRight n)) := by
  induction ts with
  | nil => rfl
  | cons t ts ih =>
    cases ts with
    | nil => rfl
    | cons t' ts =>
      rw [separated, movedRight_append, movedRight_append, ih]
      · rfl
      · nofun

/-- Moving a block moves both of its line feeds and what is between them. -/
theorem movedRight_braces (a b : Nat) (text : List Char) :
    movedRight n ('\x7b' :: newlineAt a ++ text ++ newlineAt b ++ ['\x7d']) =
      '\x7b' :: newlineAt (a + n) ++ movedRight n text ++ newlineAt (b + n) ++ ['\x7d'] := by
  have hopen : movedRight n ('\x7b' :: newlineAt a) = '\x7b' :: newlineAt (a + n) :=
    congrArg ('\x7b' :: ·) (movedRight_newlineAt a)
  have hclose : movedRight n ['\x7d'] = ['\x7d'] := rfl
  rw [movedRight_append, movedRight_append, movedRight_append, hopen, hclose, movedRight_newlineAt]

end

/-! ## Levels -/

namespace Indentation

variable {i : Indentation} {n depth : Nat}

/-- The same indentation, with the level some spaces further to the right. -/
def right (i : Indentation) (n : Nat) : Indentation := { i with level := i.level + .ofNat n }

/-- Whether the levels of blocks in each other, as many as given, fit a word. -/
def Fits (i : Indentation) (depth : Nat) : Prop := i.level.toNat + depth * i.width.toNat < 2 ^ 32

instance (i : Indentation) (depth : Nat) : Decidable (i.Fits depth) := Nat.decLt _ _

/-- As long as no level overflows, moving right adds to it, -/
theorem toNat_level_right (h : i.level.toNat + n < 2 ^ 32) :
    (i.right n).level.toNat = i.level.toNat + n := by
  rw [right, UInt32.toNat_add, UInt32.toNat_ofNat', Nat.add_mod_mod, Nat.mod_eq_of_lt h]

/-- and so does going one level deeper. -/
theorem toNat_level_deeper (h : i.level.toNat + i.width.toNat < 2 ^ 32) :
    i.deeper.level.toNat = i.level.toNat + i.width.toNat := by
  rw [deeper, UInt32.toNat_add, Nat.mod_eq_of_lt h]

/-- The inside of a block goes to the right with the block. -/
theorem deeper_right : (i.right n).deeper = i.deeper.right n := by
  have hlevel : i.level + .ofNat n + i.width = i.level + i.width + .ofNat n := by
    rw [UInt32.add_assoc, UInt32.add_assoc, UInt32.add_comm i.width]
  exact congrArg (Indentation.mk i.width) hlevel

end Indentation

/-! ## Writers -/

namespace Writer

/-- Writing gives a text, and leaves the indentation as it was. -/
def Writes (w : Writer) (i : Indentation) (text : List Char) : Prop := w.run i = (text, i)

/-- A writer moves with the indentation, as far as the levels of the blocks inside fit. -/
def Moves (w : Writer) (depth : Nat) : Prop :=
  ∀ (i : Indentation) (n : Nat), i.level.toNat + n + depth * i.width.toNat < 2 ^ 32 →
    ∃ text, w.Writes i text ∧ w.Writes (i.right n) (movedRight n text)

section

variable {w : Writer} {ws : List Writer} {i : Indentation} {text separator : List Char}
  {ts : List (List Char)}

/-- After the contents of a block the level is that from before, wherever they have left it. -/
theorem run_block (w : Writer) (i : Indentation) :
    (block w).run i =
      ('\x7b' :: newlineAt i.deeper.level.toNat ++ (w.run i.deeper).1 ++
        newlineAt i.level.toNat ++ ['\x7d'], { (w.run i.deeper).2 with level := i.level }) :=
  rfl

/-- A block is written between braces, one level deeper. -/
theorem Writes.block (h : w.Writes i.deeper text) :
    (block w).Writes i ('\x7b' :: newlineAt i.deeper.level.toNat ++ text ++
      newlineAt i.level.toNat ++ ['\x7d']) := by
  rw [Writes, run_block, h]
  rfl

theorem Writes.after (h : w.Writes i text) (front : List Char) :
    Writes (do return front ++ (← w)) i (front ++ text) := by
  rw [Writes] at h
  show (front ++ (w.run i).1, (w.run i).2) = _
  rw [h]

/-- Writers run one after the other, each from where the one before has left the indentation. -/
theorem run_separated_cons (separator : List Char) (w w' : Writer) (ws : List Writer)
    (i : Indentation) :
    (Writer.separated separator (w :: w' :: ws)).run i =
      let rest := (Writer.separated separator (w' :: ws)).run (w.run i).2
      ((w.run i).1 ++ separator ++ rest.1, rest.2) :=
  rfl

theorem Writes.separated (h : List.Forall₂ (fun w t => w.Writes i t) ws ts) :
    (separated separator ws).Writes i (Java.separated separator ts) := by
  induction h with
  | nil => rfl
  | cons h hs ih =>
    cases hs with
    | nil => exact h
    | cons h' hs' =>
      -- what follows is written at the same indentation, since the first text has left it
      rw [Writes] at h ih
      rw [Writes, run_separated_cons, h]
      dsimp only
      rw [ih]
      rfl

theorem Writes.lines (h : List.Forall₂ (fun w t => w.Writes i t) ws ts) :
    (lines ws).Writes i (Java.separated (newlineAt i.level.toNat) ts) :=
  Writes.separated h

/-! ### Writers that move -/

variable {depth depth' : Nat}

/-- What is moved within some depth is moved within a greater one. -/
theorem Moves.mono (h : w.Moves depth) (hle : depth ≤ depth') : w.Moves depth' := by
  intro i n hfits
  have hwidth : depth * i.width.toNat ≤ depth' * i.width.toNat := Nat.mul_le_mul_right _ hle
  exact h i n (by omega)

/-- A text without line feeds is the same at every level. -/
theorem moves_return (h : OnOneLine text) : Moves (do return text) depth := by
  intro i n _
  refine ⟨text, rfl, ?_⟩
  rw [movedRight_of_onOneLine h]
  rfl

/-- What stands in front on the first line stays as it is. -/
theorem Moves.after {front : List Char} (h : w.Moves depth) (hfront : OnOneLine front) :
    Moves (do return front ++ (← w)) depth := by
  intro i n hfits
  obtain ⟨text, hleft, hright⟩ := h i n hfits
  refine ⟨front ++ text, hleft.after front, ?_⟩
  rw [movedRight_append, movedRight_of_onOneLine hfront]
  exact hright.after front

/-- A block needs one level more than what is in it. -/
theorem Moves.block (h : w.Moves depth) : (block w).Moves (depth + 1) := by
  intro i n hfits
  rw [Nat.succ_mul] at hfits
  have hdeeper : i.deeper.level.toNat = i.level.toNat + i.width.toNat :=
    Indentation.toNat_level_deeper (by omega)
  have hwidth : i.deeper.width = i.width := rfl
  obtain ⟨text, hleft, hright⟩ := h i.deeper n (by rw [hdeeper, hwidth]; omega)
  refine ⟨_, hleft.block, ?_⟩
  -- the inside of the block that is moved is the inside of the block, moved
  rw [← Indentation.deeper_right] at hright
  have hmoved := hright.block
  rw [Indentation.deeper_right, Indentation.toNat_level_right (by omega),
    Indentation.toNat_level_right (by omega)] at hmoved
  rw [movedRight_braces]
  exact hmoved

/-- The texts of writers that move, at a level and further to the right. -/
theorem exists_texts (h : ∀ w ∈ ws, w.Moves depth) {n : Nat}
    (hfits : i.level.toNat + n + depth * i.width.toNat < 2 ^ 32) :
    ∃ ts, List.Forall₂ (fun w t => w.Writes i t) ws ts ∧
      List.Forall₂ (fun w t => w.Writes (i.right n) t) ws (ts.map (movedRight n)) := by
  induction ws with
  | nil => exact ⟨[], .nil, .nil⟩
  | cons w ws ih =>
    have ⟨hw, hws⟩ := List.forall_mem_cons.mp h
    obtain ⟨t, hleft, hright⟩ := hw i n hfits
    obtain ⟨ts, hlefts, hrights⟩ := ih hws
    exact ⟨t :: ts, .cons hleft hlefts, .cons hright hrights⟩

/-- Lines need as much as the one that needs most. -/
theorem Moves.lines (h : ∀ w ∈ ws, w.Moves depth) : (lines ws).Moves depth := by
  intro i n hfits
  obtain ⟨ts, hleft, hright⟩ := exists_texts h hfits
  refine ⟨_, Writes.lines hleft, ?_⟩
  have hmoved := Writes.lines hright
  rw [Indentation.toNat_level_right (by omega)] at hmoved
  rw [movedRight_separated, movedRight_newlineAt]
  exact hmoved

end

/-- Writing leaves the indentation as it was, and the text is that of level zero with the spaces of
the level behind every line feed. -/
structure Indents (w : Writer) (i : Indentation) : Prop where
  indentation_eq : (w.run i).2 = i
  text_eq : (w.run i).1 = movedRight i.level.toNat (w.run { i with level := 0 }).1

/-- A writer that moves writes at any level what it writes at the first, moved to the right. -/
theorem Moves.indents {w : Writer} {depth : Nat} (h : w.Moves depth) {i : Indentation}
    (hfits : i.Fits depth) : w.Indents i := by
  -- What is written at a level is what is written at level zero, moved right by the level.
  have hlevel : ({ i with level := 0 } : Indentation).right i.level.toNat = i := by
    rw [Indentation.right, UInt32.ofNat_toNat, UInt32.zero_add]
  obtain ⟨text, hleft, hright⟩ := h { i with level := 0 } i.level.toNat (by
    have hzero : (0 : UInt32).toNat = 0 := rfl
    rw [hzero, Nat.zero_add]
    exact hfits)
  rw [hlevel] at hright
  rw [Writes] at hleft hright
  exact ⟨by rw [hright], by rw [hleft, hright]⟩

end Writer

/-! ## Statements -/

/-- All names in a declaration. -/
def VarDecl.allNames (d : VarDecl) : List String := d.name :: d.type.allNames ++ d.init.allNames

mutual
/-- All names in a statement. -/
def Stmt.allNames : Stmt → List String
  | .declare d => d.allNames
  | .forLoop init condition update body =>
    init.allNames ++ condition.allNames ++ update.allNames ++ allNamesEach body
  | .eval e | .ret (some e) | .raise e => e.allNames
  | .ret none => []

/-- All names in some statements. -/
def Stmt.allNamesEach : List Stmt → List String
  | [] => []
  | s :: ss => s.allNames ++ allNamesEach ss
end

mutual
/-- How many blocks of a statement stand in each other. -/
def Stmt.depth : Stmt → Nat
  | .forLoop _ _ _ body => depthEach body + 1
  | _ => 0

/-- The greatest depth of some statements. -/
def Stmt.depthEach : List Stmt → Nat
  | [] => 0
  | s :: ss => max s.depth (depthEach ss)
end

theorem VarDecl.onOneLine_print (d : VarDecl) (h : OnOneLineEach d.allNames) :
    OnOneLine d.print := by
  have ⟨hhead, hinit⟩ := onOneLineEach_append.mp h
  have ⟨hname, htype⟩ := onOneLineEach_cons.mp hhead
  cases hfinal : d.isFinal
  all_goals
    simp [print, hfinal, d.type.onOneLine_print htype, hname, d.init.onOneLine_print hinit]

namespace Stmt

open Writer (Moves moves_return)

mutual
/-- A statement moves with the indentation. -/
theorem moves_write : (s : Stmt) → OnOneLineEach s.allNames → s.write.Moves s.depth
  | declare d, h => by
    have hd := d.onOneLine_print h
    exact moves_return (by simp [hd])
  | forLoop init condition update body, h => by
    have ⟨hhead, hbody⟩ := onOneLineEach_append.mp h
    have ⟨hhead, hupdate⟩ := onOneLineEach_append.mp hhead
    have ⟨hinit, hcondition⟩ := onOneLineEach_append.mp hhead
    have hlines := Moves.lines (moves_writeEach body hbody)
    -- the head of the loop stands on the line of the opening brace
    refine hlines.block.after ?_
    simp [init.onOneLine_print hinit, condition.onOneLine_print hcondition,
      update.onOneLine_print hupdate]
  | eval e, h => by
    have he := e.onOneLine_print h
    exact moves_return (by simp [he])
  | ret none, _ => moves_return (by decide)
  | ret (some e), h => by
    have he := e.onOneLine_print h
    exact moves_return (by simp [he])
  | raise e, h => by
    have he := e.onOneLine_print h
    exact moves_return (by simp [he])

/-- Each of some statements moves with the indentation, as far as the deepest of them. -/
theorem moves_writeEach : (ss : List Stmt) → OnOneLineEach (allNamesEach ss) →
    ∀ w ∈ writeEach ss, w.Moves (depthEach ss)
  | [], _ => nofun
  | s :: ss, h => by
    have ⟨hs, hss⟩ := onOneLineEach_append.mp h
    refine List.forall_mem_cons.mpr ⟨?_, fun w hw => ?_⟩
    · exact (moves_write s hs).mono (Nat.le_max_left _ _)
    · exact (moves_writeEach ss hss w hw).mono (Nat.le_max_right _ _)
end

end Stmt

/-- A block of statements moves with the indentation. -/
theorem moves_writeBlock {body : List Stmt} (h : OnOneLineEach (Stmt.allNamesEach body)) :
    (writeBlock body).Moves (Stmt.depthEach body + 1) :=
  (Writer.Moves.lines (Stmt.moves_writeEach body h)).block

/-- A loop that counts up to three. -/
def countingLoop (counter : String) (body : List Stmt) : Stmt :=
  .forLoop ⟨false, counter, .prim .int, .intLit 0⟩ (.binary .less (.name counter) (.intLit 3))
    (.postIncrement (.name counter)) body

/-- Statements and blocks whose names stand on one line are written at every level as at level zero,
with the spaces of the level behind every line feed, and leave the level as it was. -/
theorem indents_of_fits :
    (∀ (s : Stmt) (i : Indentation), OnOneLineEach s.allNames → i.Fits s.depth →
      s.write.Indents i) ∧
    ∀ (body : List Stmt) (i : Indentation), OnOneLineEach (Stmt.allNamesEach body) →
      i.Fits (Stmt.depthEach body + 1) → (writeBlock body).Indents i :=
  ⟨fun s _ hnames hfits => (s.moves_write hnames).indents hfits,
    fun _ _ hnames hfits => (moves_writeBlock hnames).indents hfits⟩

/-- A loop in a loop, three levels in with a width of two, and an empty block. -/
theorem indents_of_fits_nested :
    OnOneLineEach (countingLoop "i" [countingLoop "j" [], .ret none]).allNames ∧
      Indentation.Fits ⟨2, 3⟩ (countingLoop "i" [countingLoop "j" [], .ret none]).depth ∧
      (countingLoop "i" [countingLoop "j" [], .ret none]).write.Indents ⟨2, 3⟩ ∧
      OnOneLineEach (Stmt.allNamesEach []) ∧ Indentation.Fits ⟨4, 1⟩ (Stmt.depthEach [] + 1) ∧
      (writeBlock []).Indents ⟨4, 1⟩ := by
  have hnames : OnOneLineEach (countingLoop "i" [countingLoop "j" [], .ret none]).allNames := by
    decide
  have hfits :
      Indentation.Fits ⟨2, 3⟩ (countingLoop "i" [countingLoop "j" [], .ret none]).depth := by decide
  have hempty : Indentation.Fits ⟨4, 1⟩ (Stmt.depthEach [] + 1) := by decide
  exact ⟨hnames, hfits, indents_of_fits.1 _ _ hnames hfits, onOneLineEach_nil, hempty,
    indents_of_fits.2 _ _ onOneLineEach_nil hempty⟩

-- the contents of a loop without a body are an empty line at the deeper level
example : (countingLoop "i" []).print 2 1 =
    "for (int i = 0; i < 3; i++) \x7b\n   \n \x7d".toList := by decide

end ArrayBridge.Java
