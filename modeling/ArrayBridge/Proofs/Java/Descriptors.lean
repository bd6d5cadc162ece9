import ArrayBridge.Java.Imports

/-!
# Descriptors by their text

Emitted code looks a descriptor up by its text. The text of a descriptor is read from the left: a
name ends at the first of a few marks, what follows it tells arrays and type arguments apart, and an
argument ends where the marks of an argument list go on. Brackets of arrays stand behind all else,
so they are counted apart from what they are put behind.

Main results:

* `Descriptor.chars_append_inj` — where the text of a descriptor ends, and which descriptor it is.
* `Descriptor.text_eq_iff` — two descriptors have one text only if they are the same.
* `Descriptor.identified_of_wellNamed` — so do the expressions by which emitted code refers to them.
-/

namespace ArrayBridge

namespace Descriptor

/-! ## Names -/

/-- The characters that stand between the names in the text of a descriptor. -/
def marks : List Char := ['<', '>', ',', '[', ']', ' ']

/-- A name that can be told from what stands around it, and from the kinds. -/
structure IsPlainName (name : String) : Prop where
  not_mark : ∀ c ∈ name.toList, c ∉ marks
  ne_nativeName : ∀ k : Kind, name ≠ k.nativeName

mutual
/-- The nominal names in a descriptor. -/
def names : Descriptor → List String
  | primitiveArray _ => []
  | referenceArray d => names d
  | nominal n ds => n :: namesAll ds

/-- The nominal names in descriptors. -/
def namesAll : List Descriptor → List String
  | [] => []
  | d :: ds => names d ++ namesAll ds
end

/-- All nominal names in a descriptor are plain. -/
def WellNamed (d : Descriptor) : Prop := ∀ n ∈ d.names, IsPlainName n

section

variable {n : String} {d : Descriptor} {ds : List Descriptor}

theorem WellNamed.isPlainName (h : (nominal n ds).WellNamed) : IsPlainName n :=
  h n List.mem_cons_self

theorem WellNamed.head (h : (nominal n (d :: ds)).WellNamed) : d.WellNamed := fun m hm =>
  h m (List.mem_cons_of_mem n (List.mem_append_left _ hm))

theorem WellNamed.tail (h : (nominal n (d :: ds)).WellNamed) :
    ∀ m ∈ namesAll ds, IsPlainName m := fun m hm =>
  h m (List.mem_cons_of_mem n (List.mem_append_right _ hm))

end

/-- Whether a text is at its end or goes on with a mark. -/
def StartsWithMark (text : List Char) : Prop := ∀ c ∈ text.head?, c ∈ marks

/-- A name ends at the first mark. -/
theorem name_append_inj {n m r s : List Char} (hn : ∀ c ∈ n, c ∉ marks) (hm : ∀ c ∈ m, c ∉ marks)
    (hr : StartsWithMark r) (hs : StartsWithMark s) (h : n ++ r = m ++ s) : n = m ∧ r = s := by
  -- A name ends at the first mark, so neither can be the longer of the two.
  induction n generalizing m with
  | nil =>
    cases m with
    | nil => exact ⟨rfl, h⟩
    | cons c m =>
      obtain rfl : r = c :: (m ++ s) := h
      exact absurd (hr c rfl) (hm c List.mem_cons_self)
  | cons c n ih =>
    cases m with
    | nil =>
      obtain rfl : c :: (n ++ r) = s := h
      exact absurd (hs c rfl) (hn c List.mem_cons_self)
    | cons c' m =>
      obtain ⟨rfl, htail⟩ := List.cons.inj h
      obtain ⟨rfl, hrest⟩ := ih (fun a ha => hn a (List.mem_cons_of_mem c ha))
        (fun a ha => hm a (List.mem_cons_of_mem c ha)) htail
      exact ⟨rfl, hrest⟩

/-! ## Arrays -/

/-- The descriptor of arrays of arrays and so on, of the given depth. -/
def arrays : Nat → Descriptor → Descriptor
  | 0, d => d
  | n + 1, d => referenceArray (arrays n d)

/-- The marks of arrays. -/
def brackets : Nat → List Char
  | 0 => []
  | n + 1 => '[' :: ']' :: brackets n

theorem brackets_append (n m : Nat) : brackets n ++ brackets m = brackets (n + m) := by
  induction n with
  | zero => rw [Nat.zero_add, brackets, List.nil_append]
  | succ n ih => rw [Nat.succ_add, brackets, brackets, ← ih, List.cons_append, List.cons_append]

/-- Arrays of arrays are written with one pair of brackets for each dimension. -/
theorem chars_arrays (n : Nat) (d : Descriptor) : (arrays n d).chars = d.chars ++ brackets n := by
  induction n with
  | zero => rw [arrays, brackets, List.append_nil]
  | succ n ih =>
    rw [arrays, chars, ih, List.append_assoc]
    exact congrArg (d.chars ++ ·) (brackets_append n 1)

theorem arrays_arrays (n m : Nat) (d : Descriptor) : arrays n (arrays m d) = arrays (n + m) d := by
  induction n with
  | zero => rw [Nat.zero_add, arrays]
  | succ n ih => rw [Nat.succ_add, arrays, arrays, ih]

theorem names_arrays (n : Nat) (d : Descriptor) : (arrays n d).names = d.names := by
  induction n with
  | zero => rfl
  | succ n ih => exact ih

/-- A descriptor is an array of some depth, of what is no array of references. -/
theorem exists_arrays (d : Descriptor) :
    ∃ n core, d = arrays n core ∧ ∀ e, core ≠ referenceArray e := by
  match d with
  | primitiveArray k => exact ⟨0, _, rfl, fun e h => by cases h⟩
  | nominal n ds => exact ⟨0, _, rfl, fun e h => by cases h⟩
  | referenceArray d =>
    obtain ⟨n, core, rfl, hcore⟩ := exists_arrays d
    exact ⟨n + 1, core, rfl, hcore⟩

/-- Whether a text is at its end or goes on with the marks of an argument list. -/
def EndsArgument (text : List Char) : Prop := ∀ c ∈ text.head?, c = ',' ∨ c = '>'

section

variable {i j : Nat} {r s : List Char}

/-- Behind an argument stands a mark: a bracket, a comma or the end of the arguments. -/
theorem EndsArgument.startsWithMark (hr : EndsArgument r) : StartsWithMark (brackets i ++ r) := by
  intro c hc
  cases i with
  | zero => rcases hr c hc with rfl | rfl <;> decide
  | succ i =>
    obtain rfl := Option.some.inj hc
    decide

/-- The marks of arrays end where no bracket follows. -/
theorem brackets_append_inj (hr : EndsArgument r) (hs : EndsArgument s)
    (h : brackets i ++ r = brackets j ++ s) : i = j ∧ r = s := by
  -- No argument ends with a bracket that opens, so neither side has more brackets than the other.
  induction i generalizing j with
  | zero =>
    cases j with
    | zero => exact ⟨rfl, h⟩
    | succ j =>
      obtain rfl : r = '[' :: ']' :: (brackets j ++ s) := h
      rcases hr '[' rfl with h | h <;> cases h
  | succ i ih =>
    cases j with
    | zero =>
      obtain rfl : '[' :: ']' :: (brackets i ++ r) = s := h
      rcases hs '[' rfl with h | h <;> cases h
    | succ j =>
      obtain ⟨rfl, hrest⟩ := ih (List.cons.inj (List.cons.inj h).2).2
      exact ⟨rfl, hrest⟩

/-- Brackets or the end do not go on with type arguments. -/
theorem brackets_append_ne (hr : EndsArgument r) (text : List Char) :
    brackets i ++ r ≠ '<' :: text := by
  intro h
  cases i with
  | zero => rcases hr '<' (by rw [show r = '<' :: text from h]; rfl) with h | h <;> cases h
  | succ i => cases h

theorem endsArgument_charsRest (ds : List Descriptor) : EndsArgument (charsRest ds ++ r) := by
  intro c hc
  cases ds <;> simp only [charsRest, List.cons_append, List.head?_cons, Option.mem_some_iff] at hc
  · exact .inr hc.symm
  · exact .inl hc.symm

end

/-! ## Descriptors -/

/-- What stands behind the name that the text of a descriptor begins with. -/
def afterName : Descriptor → List Char
  | primitiveArray _ => brackets 1
  | referenceArray d => afterName d ++ brackets 1
  | nominal _ [] => []
  | nominal _ (d :: ds) => '<' :: (d.chars ++ charsRest ds)

/-- The name that the text of a descriptor begins with. -/
def firstName : Descriptor → String
  | primitiveArray k => k.nativeName
  | referenceArray d => firstName d
  | nominal n _ => n

/-- A text begins with the first name in it. -/
theorem chars_eq (d : Descriptor) : d.chars = d.firstName.toList ++ d.afterName := by
  match d with
  | primitiveArray k => rw [chars, firstName, afterName, brackets, brackets]
  | referenceArray d => rw [chars, chars_eq d, firstName, afterName, List.append_assoc]; rfl
  | nominal n [] => rw [chars, firstName, afterName, List.append_nil]
  | nominal n (e :: es) => rw [chars, firstName, afterName, List.append_assoc]; rfl

theorem not_mark_of_all {cs : List Char} (h : cs.all fun c => !marks.contains c) :
    ∀ c ∈ cs, c ∉ marks := fun c hc => by simpa using List.all_eq_true.mp h c hc

/-- Names contain no marks. -/
theorem not_mark_of_firstName {d : Descriptor} (hd : d.WellNamed) :
    ∀ c ∈ d.firstName.toList, c ∉ marks := by
  match d with
  | primitiveArray k =>
    exact not_mark_of_all (by cases k <;> decide)
  | referenceArray d => exact not_mark_of_firstName (d := d) hd
  | nominal n ds => exact hd.isPlainName.not_mark

/-- So the first name ends at the first mark, and can be told from what follows. -/
theorem afterName_startsWithMark {d : Descriptor} (hcore : ∀ e, d ≠ referenceArray e) {i : Nat}
    {r : List Char} (hr : EndsArgument r) : StartsWithMark (d.afterName ++ (brackets i ++ r)) := by
  match d with
  | primitiveArray k =>
    rw [afterName, ← List.append_assoc, brackets_append]
    exact hr.startsWithMark
  | referenceArray d => exact absurd rfl (hcore d)
  | nominal n [] => exact hr.startsWithMark
  | nominal n (e :: es) =>
    intro c hc
    obtain rfl := Option.some.inj hc
    decide

/-- Two texts that agree begin with one name, and what stands behind it agrees as well. -/
theorem exists_core {d e : Descriptor} {i j : Nat} {r s : List Char} (hd : d.WellNamed)
    (he : e.WellNamed) (hcore : ∀ c, d ≠ referenceArray c) (hr : EndsArgument r)
    (hs : EndsArgument s) (h : d.chars ++ (brackets i ++ r) = e.chars ++ (brackets j ++ s)) :
    ∃ n core, e = arrays n core ∧ (∀ c, core ≠ referenceArray c) ∧ d.firstName = core.firstName ∧
      d.afterName ++ (brackets i ++ r) = core.afterName ++ (brackets (n + j) ++ s) := by
  -- The second descriptor is taken apart into its brackets and what they stand behind.
  obtain ⟨n, core, rfl, hcore'⟩ := exists_arrays e
  have he : core.WellNamed := fun m hm => he m ((names_arrays n core).symm ▸ hm)
  rw [chars_arrays, chars_eq d, chars_eq core, List.append_assoc, List.append_assoc,
    List.append_assoc, ← List.append_assoc (brackets n), brackets_append] at h
  obtain ⟨hname, hafter⟩ := name_append_inj (not_mark_of_firstName hd) (not_mark_of_firstName he)
    (afterName_startsWithMark hcore hr) (afterName_startsWithMark hcore' hs) h
  exact ⟨n, core, rfl, hcore', String.toList_inj.mp hname, hafter⟩

mutual
/-- The text of a descriptor ends where its brackets do, and belongs to no other one. -/
theorem chars_append_inj : (d : Descriptor) → ∀ {e : Descriptor} {i j : Nat} {r s : List Char},
    d.WellNamed → e.WellNamed → EndsArgument r → EndsArgument s →
    d.chars ++ (brackets i ++ r) = e.chars ++ (brackets j ++ s) →
    arrays i d = arrays j e ∧ r = s
  | referenceArray d, e, i, j, r, s, hd, he, hr, hs, h => by
    -- the brackets of the outer array are counted with those that follow
    have hinner : d.chars ++ (brackets (i + 1) ++ r) = e.chars ++ (brackets j ++ s) := by
      rw [← h, chars, brackets]
      simp
    obtain ⟨harrays, hrest⟩ := chars_append_inj d hd he hr hs hinner
    exact ⟨(arrays_arrays i 1 d).trans harrays, hrest⟩
  | primitiveArray k, e, i, j, r, s, hd, he, hr, hs, h => by
    obtain ⟨n, core, rfl, hcore, hname, hafter⟩ := exists_core hd he (fun e h => by cases h) hr hs h
    match core, hcore with
    | referenceArray c, hcore => exact absurd rfl (hcore c)
    | nominal m es, _ =>
      have hm : (nominal m es).WellNamed := fun a ha => he a ((names_arrays n _).symm ▸ ha)
      exact absurd hname.symm (hm.isPlainName.ne_nativeName k)
    | primitiveArray l, _ =>
      obtain rfl : k = l := Kind.nativeName_injective hname
      obtain ⟨hij, rfl⟩ := brackets_append_inj hr hs (List.append_cancel_left hafter)
      rw [hij, Nat.add_comm, arrays_arrays]
      exact ⟨rfl, rfl⟩
  | nominal m [], e, i, j, r, s, hd, he, hr, hs, h => by
    obtain ⟨n, core, rfl, hcore, hname, hafter⟩ := exists_core hd he (fun e h => by cases h) hr hs h
    match core, hcore with
    | referenceArray c, hcore => exact absurd rfl (hcore c)
    | primitiveArray l, _ => exact absurd hname (hd.isPlainName.ne_nativeName l)
    | nominal m' [], _ =>
      obtain rfl : m = m' := hname
      obtain ⟨hij, rfl⟩ := brackets_append_inj hr hs hafter
      rw [hij, Nat.add_comm, arrays_arrays]
      exact ⟨rfl, rfl⟩
    | nominal m' (e :: es), _ => exact absurd hafter (brackets_append_ne hr _)
  | nominal m (d :: ds), e, i, j, r, s, hd, he, hr, hs, h => by
    obtain ⟨n, core, rfl, hcore, hname, hafter⟩ := exists_core hd he (fun e h => by cases h) hr hs h
    match core, hcore with
    | referenceArray c, hcore => exact absurd rfl (hcore c)
    | primitiveArray l, _ => exact absurd hname (hd.isPlainName.ne_nativeName l)
    | nominal m' [], _ => exact absurd hafter.symm (brackets_append_ne hs _)
    | nominal m' (e :: es), _ =>
      obtain rfl : m = m' := hname
      have he : (nominal m (e :: es)).WellNamed := fun a ha => he a ((names_arrays n _).symm ▸ ha)
      have hargument : d.chars ++ (brackets 0 ++ (charsRest ds ++ (brackets i ++ r))) =
          e.chars ++ (brackets 0 ++ (charsRest es ++ (brackets (n + j) ++ s))) := by
        simpa [afterName, brackets] using hafter
      obtain ⟨rfl, hrest⟩ : d = e ∧ _ := chars_append_inj d hd.head he.head
        (endsArgument_charsRest ds) (endsArgument_charsRest es) hargument
      obtain ⟨rfl, hend⟩ := charsRest_append_inj ds hd.tail he.tail hrest
      obtain ⟨hij, rfl⟩ := brackets_append_inj hr hs hend
      rw [hij, Nat.add_comm, arrays_arrays]
      exact ⟨rfl, rfl⟩

/-- The arguments after the first end at the closing bracket. -/
theorem charsRest_append_inj : (ds : List Descriptor) → ∀ {es : List Descriptor} {r s : List Char},
    (∀ n ∈ namesAll ds, IsPlainName n) → (∀ n ∈ namesAll es, IsPlainName n) →
    charsRest ds ++ r = charsRest es ++ s → ds = es ∧ r = s
  | [], [], r, s, _, _, h => ⟨rfl, List.append_cancel_left h⟩
  | [], e :: es, r, s, _, _, h => by cases h
  | d :: ds, [], r, s, _, _, h => by cases h
  | d :: ds, e :: es, r, s, hds, hes, h => by
    have hargument : d.chars ++ (brackets 0 ++ (charsRest ds ++ r)) =
        e.chars ++ (brackets 0 ++ (charsRest es ++ s)) := by
      simpa [charsRest, brackets] using h
    -- the first arguments agree, and then what follows them
    obtain ⟨rfl, hrest⟩ : d = e ∧ _ := chars_append_inj d
      (fun n hn => hds n (List.mem_append_left _ hn))
      (fun n hn => hes n (List.mem_append_left _ hn))
      (endsArgument_charsRest ds) (endsArgument_charsRest es) hargument
    obtain ⟨rfl, hend⟩ := charsRest_append_inj ds
      (fun n hn => hds n (List.mem_append_right _ hn))
      (fun n hn => hes n (List.mem_append_right _ hn)) hrest
    exact ⟨rfl, hend⟩
end

/-- Two descriptors have one text only if they are the same. -/
theorem text_eq_iff {d e : Descriptor} (hd : d.WellNamed) (he : e.WellNamed) :
    d.text = e.text ↔ d = e := by
  refine ⟨fun h => ?_, fun h => h ▸ rfl⟩
  have hchars : d.chars ++ (brackets 0 ++ []) = e.chars ++ (brackets 0 ++ []) := by
    simpa [brackets] using String.ofList_injective h
  have hend : EndsArgument [] := fun c hc => by cases hc
  exact (chars_append_inj d hd he hend hend hchars).1

/-! ## Expressions -/

theorem wrapperName_injective {k l : Kind} (h : k.wrapperName = l.wrapperName) : k = l := by
  cases k <;> cases l <;> first | rfl | exact absurd h (by decide)

/-- Only arrays of primitive elements have an element kind. -/
theorem eq_of_elementKind? {d : Descriptor} {k : Kind} (h : d.elementKind? = some k) :
    d = primitiveArray k := by
  cases d with
  | primitiveArray l => exact congrArg primitiveArray (Option.some.inj h)
  | _ => cases h

/-- The expression for a descriptor holds its text, unless it stands for the array of a kind. -/
theorem descriptorExpr_eq_iff {d e : Descriptor} (hd : d.WellNamed) (he : e.WellNamed) :
    Java.descriptorExpr d = Java.descriptorExpr e ↔ d = e := by
  refine ⟨fun h => ?_, fun h => h ▸ rfl⟩
  unfold Java.descriptorExpr Java.Expr.callOn at h
  -- Either may be the constant of a wrapper class; a constant and a call are different expressions.
  cases hk : d.elementKind? with
  | some k =>
    cases hl : e.elementKind? with
    | some l =>
      simp only [hk, hl, Java.Expr.field.injEq, Java.Expr.name.injEq, and_true] at h
      rw [eq_of_elementKind? hk, eq_of_elementKind? hl, wrapperName_injective h]
    | none => simp [hk, hl] at h
  | none =>
    cases hl : e.elementKind? with
    | some l => simp [hk, hl] at h
    | none =>
      simp only [hk, hl, Java.Expr.methodCall.injEq, List.cons.injEq, Java.Expr.stringLit.injEq,
        and_true, true_and] at h
      exact (text_eq_iff hd he).mp h

/-- Descriptors with plain names are told apart by their texts, and by the expressions by which
emitted code refers to them. -/
theorem identified_of_wellNamed {d e : Descriptor} (hd : d.WellNamed) (he : e.WellNamed) :
    (d.text = e.text ↔ d = e) ∧ (Java.descriptorExpr d = Java.descriptorExpr e ↔ d = e) :=
  ⟨text_eq_iff hd he, descriptorExpr_eq_iff hd he⟩

/-- Arguments that are arrays, one of a kind and one of references, and a list in a list. -/
theorem identified_of_wellNamed_nested :
    ∃ d e : Descriptor, d = nominal "Map" [referenceArray (primitiveArray .int), nominal "K" []] ∧
      e = nominal "Map" [referenceArray (nominal "ints" []), nominal "K" [nominal "V" []]] ∧
      d.WellNamed ∧ e.WellNamed ∧ (d.text = e.text ↔ d = e) ∧
      (Java.descriptorExpr d = Java.descriptorExpr e ↔ d = e) := by
  have plain : ∀ n ∈ ["Map", "ints", "K", "V"], IsPlainName n := by
    intro n hn
    simp only [List.mem_cons, List.not_mem_nil, or_false] at hn
    rcases hn with rfl | rfl | rfl | rfl
    all_goals exact ⟨not_mark_of_all (by decide), fun k => by cases k <;> decide⟩
  have hd : (nominal "Map" [referenceArray (primitiveArray .int), nominal "K" []]).names ⊆
      ["Map", "ints", "K", "V"] := by decide
  have he : (nominal "Map"
      [referenceArray (nominal "ints" []), nominal "K" [nominal "V" []]]).names ⊆
      ["Map", "ints", "K", "V"] := by decide
  have hd := fun n hn => plain n (hd hn)
  have he := fun n hn => plain n (he hn)
  exact ⟨_, _, rfl, rfl, hd, he, identified_of_wellNamed hd he⟩

-- a name of a kind could be told from the kind by nothing
example : (referenceArray (nominal "int" [])).text = (primitiveArray .int).text := by decide

end Descriptor

end ArrayBridge
