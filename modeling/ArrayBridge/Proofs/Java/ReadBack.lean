import ArrayBridge.Proofs.Java.Reading
import ArrayBridge.Proofs.Java.Scanned

/-!
# Reading back the text of a tree

The text of a tree is read back as the tree under conditions on its forms that are exact: a tree
with any other form in it is refused, or is read as another tree. What has no bracket although it
needs one is the making of an array whose items are accessed, and a negative number that is cast.

Main results:

* `reading_eq_some_self_iff` — the trees that the grammar gives back.
* `readText_print` — the trees that are read back from their texts.
* `readText_access_newArray`, `readText_cast_negated` — what is made of missing brackets.
-/

namespace ArrayBridge.Java

/-! ## Forms that are read back -/

namespace Ty

/-- Whether a type is a class. -/
def isNamed : Ty → Bool
  | named _ => true
  | _ => false

/-- Whether a type is one of arrays. -/
def isArray : Ty → Bool
  | array _ => true
  | _ => false

/-- Whether a type is primitive. -/
def isPrim : Ty → Bool
  | prim _ => true
  | _ => false

end Ty

namespace Expr

/-- Whether the grammar has the form that an expression adds to its parts: objects are made of
classes only, the sizes of arrays stand before further dimensions, a sign behind a type in brackets
belongs to a number if the type is primitive, and brackets behind a new array belong to its type. -/
def IsGrammatical : Expr → Prop
  | new t _ => t.isNamed = true
  | newArray t _ => t.isArray = false
  | cast t operand => t.isPrim = true ∨ operand.negated? = none
  | access array _ => array.isNewArray = false
  | _ => True

/-- Whether the grammar gives back an expression if it gives back its parts. Numbers that are not
finite have no literals, but only constants. -/
def IsGivenBack (e : Expr) : Prop := e.IsGrammatical ∧ e.constant? = none

/-- Whether an expression is read back from its text if its parts are. -/
def IsReadBack (e : Expr) : Prop := e.IsLexical ∧ e.IsGivenBack

mutual
/-- The tree with constants for the numbers that have no literals. -/
def spelled : Expr → Expr
  | assign target value => assign (spelled target) (spelled value)
  | null => null
  | name n => name n
  | new type args => new type (spelledAll args)
  | newArray element size => newArray element (spelled size)
  | arrayInit element items => arrayInit element (spelledAll items)
  | cast type operand => cast type (spelled operand)
  | classLit type => classLit type
  | access array index => access (spelled array) (spelled index)
  | field object n => field (spelled object) n
  | call n args => call n (spelledAll args)
  | methodCall object n args => methodCall (spelled object) n (spelledAll args)
  | binary op left right => binary op (spelled left) (spelled right)
  | postIncrement operand => postIncrement (spelled operand)
  | booleanLit b => booleanLit b
  | intLit n => intLit n
  | longLit n => longLit n
  | floatLit x => spelledNumber (floatLit x)
  | doubleLit x => spelledNumber (doubleLit x)
  | charLit unit => charLit unit
  | stringLit s => stringLit s

/-- The trees with constants for the numbers that have no literals. -/
def spelledAll : List Expr → List Expr
  | [] => []
  | e :: es => spelled e :: spelledAll es
end

/-! ## What the grammar gives back -/

/-- A number is spelled as itself unless a constant stands for it. -/
theorem spelledNumber_eq_self_iff {e : Expr} (h : e.isNumeric = true) :
    spelledNumber e = e ↔ e.constant? = none := by
  rw [spelledNumber]
  cases hconstant : e.constant? with
  | none => simp
  | some constant =>
    -- a constant of a class is no literal
    refine iff_of_false (fun heq => ?_) (Option.some_ne_none _)
    rw [← heq] at h
    cases h

/-- Instances are read of classes only, -/
theorem reading_new (t : Ty) (args : List Expr) :
    (new t args).reading = if t.isNamed then (readingAll args).map (new t) else none := by
  cases t with
  | named n =>
    rw [reading]
    cases readingAll args <;> rfl
  | _ => rfl

/-- and arrays of anything but arrays. -/
theorem reading_newArray (t : Ty) (size : Expr) :
    (newArray t size).reading = if t.isArray then none else size.reading.map (newArray t) := by
  by_cases harray : t.isArray = true
  · cases t with
    | array t => rfl
    | _ => cases harray
  · rw [if_neg harray, reading]
    · cases size.reading <;> rfl
    · rintro element rfl
      exact harray rfl

mutual
/-- The grammar reads a tree of its forms back, up to constants. -/
theorem reading_of_grammatical : (e : Expr) → e.Every IsGrammatical → e.reading = some e.spelled
  | assign target value, h => by
    rw [reading, reading_of_grammatical target h.2.1, reading_of_grammatical value h.2.2]
    rfl
  | null, _ => rfl
  | name _, _ => rfl
  | new t args, h => by
    have hnamed : t.isNamed = true := h.1
    rw [reading_new, if_pos hnamed, readingAll_of_grammatical args h.2]
    rfl
  | newArray _ size, h => by
    have harray := Bool.eq_false_iff.mp h.1
    rw [reading_newArray, if_neg harray, reading_of_grammatical size h.2]
    rfl
  | arrayInit _ items, h => by
    rw [reading, readingAll_of_grammatical items h.2]
    rfl
  | cast type operand, h => by
    -- of the casts that are refused, each has a signed number behind another type
    have hread : (cast type operand).reading = operand.reading.map (cast type) := by
      rcases h.1 with hprim | hnegated
      · cases type with
        | prim k => exact reading_cast_prim k operand
        | _ => cases hprim
      · exact reading_cast_unsigned hnegated
    rw [hread, reading_of_grammatical operand h.2]
    rfl
  | classLit _, _ => rfl
  | access array index, h => by
    have hnew := Bool.eq_false_iff.mp h.1
    rw [reading, if_neg hnew, reading_of_grammatical array h.2.1,
      reading_of_grammatical index h.2.2]
    rfl
  | field object n, h => by
    rw [reading, reading_of_grammatical object h.2]
    rfl
  | call n args, h => by
    rw [reading, readingAll_of_grammatical args h.2]
    rfl
  | methodCall object n args, h => by
    rw [reading, reading_of_grammatical object h.2.1, readingAll_of_grammatical args h.2.2]
    rfl
  | binary _ left right, h => by
    rw [reading, reading_of_grammatical left h.2.1, reading_of_grammatical right h.2.2]
    rfl
  | postIncrement operand, h => by
    rw [reading, reading_of_grammatical operand h.2]
    rfl
  | booleanLit _, _ => rfl
  | intLit _, _ => rfl
  | longLit _, _ => rfl
  | floatLit _, _ => rfl
  | doubleLit _, _ => rfl
  | charLit _, _ => rfl
  | stringLit _, _ => rfl

theorem readingAll_of_grammatical : (es : List Expr) → EveryAll IsGrammatical es →
    readingAll es = some (spelledAll es)
  | [], _ => rfl
  | e :: es, h => by
    rw [readingAll, reading_of_grammatical e h.1, readingAll_of_grammatical es h.2]
    rfl
end

/-- A cast that is read as a cast has a sign behind it only if its type is primitive. -/
theorem grammatical_of_reading_cast {type : Ty} {operand e : Expr}
    (h : (cast type operand).reading = some (cast type e)) :
    (cast type operand).IsGrammatical ∧ operand.reading = some e := by
  -- A cast of a negative number reads back as a cast to a primitive type only: to a class it reads
  -- as a difference, and to an array as nothing.
  cases hnegated : operand.negated? with
  | none =>
    rw [reading_cast_unsigned hnegated] at h
    obtain ⟨e', he, heq⟩ := Option.map_eq_some_iff.mp h
    injection heq with _ heq
    exact ⟨.inr hnegated, heq ▸ he⟩
  | some m =>
    cases type with
    | prim k =>
      rw [reading_cast_prim] at h
      obtain ⟨e', he, heq⟩ := Option.map_eq_some_iff.mp h
      injection heq with _ heq
      exact ⟨.inl rfl, heq ▸ he⟩
    | array t =>
      rw [reading_cast_array hnegated] at h
      cases h
    | named n =>
      rw [reading_cast_named hnegated] at h
      obtain ⟨_, _, heq⟩ := Option.map_eq_some_iff.mp h
      cases heq

/-- A number that is given back is no constant. -/
theorem isGivenBack_numeric {e : Expr} (hnumeric : e.isNumeric = true)
    (hgrammatical : e.IsGrammatical) (h : some (spelledNumber e) = some e) : e.IsGivenBack :=
  ⟨hgrammatical, (spelledNumber_eq_self_iff hnumeric).mp (Option.some.inj h)⟩

mutual
/-- A tree that the grammar gives back has its forms only, and no constants for numbers. -/
theorem every_of_reading : (e : Expr) → e.reading = some e → e.Every IsGivenBack
  | assign target value, h => by
    rw [reading] at h
    obtain ⟨t, ht, h⟩ := Option.bind_eq_some_iff.mp h
    obtain ⟨v, hv, h⟩ := Option.bind_eq_some_iff.mp h
    cases h
    exact ⟨⟨trivial, rfl⟩, every_of_reading target ht, every_of_reading value hv⟩
  | null, _ => ⟨trivial, rfl⟩
  | name _, _ => ⟨trivial, rfl⟩
  | new t args, h => by
    -- only of a class instances are read
    rw [reading_new] at h
    split at h
    · rename_i hnamed
      obtain ⟨args', hargs, heq⟩ := Option.map_eq_some_iff.mp h
      cases heq
      exact ⟨⟨hnamed, rfl⟩, every_of_readingAll args hargs⟩
    · cases h
  | newArray t size, h => by
    -- an array of arrays has another form, which trees do not have
    rw [reading_newArray] at h
    split at h
    · cases h
    · rename_i harray
      obtain ⟨size', hsize, heq⟩ := Option.map_eq_some_iff.mp h
      cases heq
      exact ⟨⟨Bool.eq_false_iff.mpr harray, rfl⟩, every_of_reading size hsize⟩
  | arrayInit t items, h => by
    rw [reading] at h
    obtain ⟨items', hitems, h⟩ := Option.bind_eq_some_iff.mp h
    cases h
    exact ⟨⟨trivial, rfl⟩, every_of_readingAll items hitems⟩
  | cast _ operand, h =>
    have hcast := grammatical_of_reading_cast h
    ⟨⟨hcast.1, rfl⟩, every_of_reading operand hcast.2⟩
  | classLit _, _ => ⟨trivial, rfl⟩
  | access array index, h => by
    -- the index of a new array is taken for a dimension
    rw [reading] at h
    split at h
    · cases h
    · rename_i hnew
      obtain ⟨x, hx, h⟩ := Option.bind_eq_some_iff.mp h
      obtain ⟨i, hi, h⟩ := Option.bind_eq_some_iff.mp h
      cases h
      exact ⟨⟨Bool.eq_false_iff.mpr hnew, rfl⟩, every_of_reading array hx,
        every_of_reading index hi⟩
  | field object n, h => by
    rw [reading] at h
    obtain ⟨x, hx, h⟩ := Option.bind_eq_some_iff.mp h
    cases h
    exact ⟨⟨trivial, rfl⟩, every_of_reading object hx⟩
  | call n args, h => by
    rw [reading] at h
    obtain ⟨args', hargs, h⟩ := Option.bind_eq_some_iff.mp h
    cases h
    exact ⟨⟨trivial, rfl⟩, every_of_readingAll args hargs⟩
  | methodCall object n args, h => by
    rw [reading] at h
    obtain ⟨x, hx, h⟩ := Option.bind_eq_some_iff.mp h
    obtain ⟨args', hargs, h⟩ := Option.bind_eq_some_iff.mp h
    cases h
    exact ⟨⟨trivial, rfl⟩, every_of_reading object hx, every_of_readingAll args hargs⟩
  | binary op left right, h => by
    rw [reading] at h
    obtain ⟨x, hx, h⟩ := Option.bind_eq_some_iff.mp h
    obtain ⟨y, hy, h⟩ := Option.bind_eq_some_iff.mp h
    cases h
    exact ⟨⟨trivial, rfl⟩, every_of_reading left hx, every_of_reading right hy⟩
  | postIncrement operand, h => by
    rw [reading] at h
    obtain ⟨x, hx, h⟩ := Option.bind_eq_some_iff.mp h
    cases h
    exact ⟨⟨trivial, rfl⟩, every_of_reading operand hx⟩
  | booleanLit _, _ => ⟨trivial, rfl⟩
  | intLit _, _ => ⟨trivial, rfl⟩
  | longLit _, _ => ⟨trivial, rfl⟩
  | floatLit _, h => isGivenBack_numeric rfl trivial h
  | doubleLit _, h => isGivenBack_numeric rfl trivial h
  | charLit _, _ => ⟨trivial, rfl⟩
  | stringLit _, _ => ⟨trivial, rfl⟩

theorem every_of_readingAll : (es : List Expr) → readingAll es = some es → EveryAll IsGivenBack es
  | [], _ => trivial
  | e :: es, h => by
    rw [readingAll] at h
    obtain ⟨x, hx, h⟩ := Option.bind_eq_some_iff.mp h
    obtain ⟨xs, hxs, h⟩ := Option.bind_eq_some_iff.mp h
    cases h
    exact ⟨every_of_reading e hx, every_of_readingAll es hxs⟩
end

mutual
/-- A tree without constants for numbers is spelled as itself. -/
theorem spelled_eq_self : (e : Expr) → e.Every IsGivenBack → e.spelled = e
  | assign target value, h => by
    rw [spelled, spelled_eq_self target h.2.1, spelled_eq_self value h.2.2]
  | null, _ => rfl
  | name _, _ => rfl
  | new _ args, h => by rw [spelled, spelledAll_eq_self args h.2]
  | newArray _ size, h => by rw [spelled, spelled_eq_self size h.2]
  | arrayInit _ items, h => by rw [spelled, spelledAll_eq_self items h.2]
  | cast _ operand, h => by rw [spelled, spelled_eq_self operand h.2]
  | classLit _, _ => rfl
  | access array index, h => by
    rw [spelled, spelled_eq_self array h.2.1, spelled_eq_self index h.2.2]
  | field object _, h => by rw [spelled, spelled_eq_self object h.2]
  | call _ args, h => by rw [spelled, spelledAll_eq_self args h.2]
  | methodCall object _ args, h => by
    rw [spelled, spelled_eq_self object h.2.1, spelledAll_eq_self args h.2.2]
  | binary _ left right, h => by
    rw [spelled, spelled_eq_self left h.2.1, spelled_eq_self right h.2.2]
  | postIncrement operand, h => by rw [spelled, spelled_eq_self operand h.2]
  | booleanLit _, _ => rfl
  | intLit _, _ => rfl
  | longLit _, _ => rfl
  | floatLit _, h => (spelledNumber_eq_self_iff rfl).mpr h.2
  | doubleLit _, h => (spelledNumber_eq_self_iff rfl).mpr h.2
  | charLit _, _ => rfl
  | stringLit _, _ => rfl

theorem spelledAll_eq_self : (es : List Expr) → EveryAll IsGivenBack es → spelledAll es = es
  | [], _ => rfl
  | e :: es, h => by rw [spelledAll, spelled_eq_self e h.1, spelledAll_eq_self es h.2]
end

/-- The grammar gives back a tree exactly if it does so with each of its forms. -/
theorem reading_eq_some_self_iff {e : Expr} : e.reading = some e ↔ e.Every IsGivenBack := by
  refine ⟨every_of_reading e, fun h => ?_⟩
  rw [reading_of_grammatical e (h.imp fun _ => And.left), spelled_eq_self e h]

end Expr

/-! ## Texts of trees -/

section

variable (a : Alphabet) {e : Expr}

/-- The tree that is read from a text of a tree that is scanned. -/
theorem readText_print_of_lexical (hn : e.Every (Expr.HasIdentifiers a))
    (hs : e.Every Expr.IsShaped) (h : e.Every Expr.IsLexical) : readText a e.print = e.reading := by
  rw [readText, (scan_print hn hs).1 h, Option.bind_some, readTokens_tokens hs]

/-- The text of a tree is read back as the tree exactly if no literal in it runs past its line, the
grammar has all its forms, and all its numbers have literals. A number without a literal is read
back as a constant. -/
theorem readText_print (hn : e.Every (Expr.HasIdentifiers a)) (hs : e.Every Expr.IsShaped) :
    (readText a e.print = some e ↔ e.Every Expr.IsReadBack) ∧
      (e.Every Expr.IsLexical → e.Every Expr.IsGrammatical →
        readText a e.print = some e.spelled) := by
  refine ⟨?_, fun hlexical hgrammatical => ?_⟩
  · by_cases hlexical : e.Every Expr.IsLexical
    · rw [readText_print_of_lexical a hn hs hlexical, Expr.reading_eq_some_self_iff]
      exact ⟨fun h => Expr.every_imp₂ (fun _ => And.intro) e hlexical h,
        fun h => h.imp fun _ => And.right⟩
    · -- what the scanner refuses is read as nothing at all
      have hscan := (scan_print hn hs).2 hlexical
      rw [readText, hscan]
      exact iff_of_false nofun fun h => hlexical (h.imp fun _ => And.left)
  · rw [readText_print_of_lexical a hn hs hlexical, Expr.reading_of_grammatical e hgrammatical]

/-- The last item of an array becomes a negative number. -/
theorem readText_print_item :
    readText ⟨fun _ => false, fun _ => false⟩ (Expr.print
      (.assign (.access (.name "a") (.binary .minus (.name "n") (.intLit 1)))
        (.cast (.prim .int) (.intLit (-1))))) =
      some (.assign (.access (.name "a") (.binary .minus (.name "n") (.intLit 1)))
        (.cast (.prim .int) (.intLit (-1)))) := by
  refine (readText_print _ ?_ ?_).1.mpr ?_
  · exact ⟨trivial, ⟨trivial, ⟨rfl, by decide⟩, trivial, ⟨rfl, by decide⟩, trivial⟩, trivial,
      trivial⟩
  · exact ⟨rfl, ⟨rfl, trivial, trivial, trivial, trivial⟩, trivial, trivial⟩
  · exact ⟨⟨trivial, trivial, rfl⟩, ⟨⟨trivial, rfl, rfl⟩, ⟨trivial, trivial, rfl⟩,
      ⟨trivial, trivial, rfl⟩, ⟨trivial, trivial, rfl⟩, trivial, trivial, rfl⟩,
      ⟨trivial, .inl rfl, rfl⟩, trivial, trivial, rfl⟩

/-- A text is refused if the tokens of its tree are. -/
theorem readText_print_of_reading_none (hn : e.Every (Expr.HasIdentifiers a))
    (hs : e.Every Expr.IsShaped) (h : e.reading = none) : readText a e.print = none := by
  by_cases hlexical : e.Every Expr.IsLexical
  · rw [readText_print_of_lexical a hn hs hlexical, h]
  · rw [readText, (scan_print hn hs).2 hlexical]
    rfl

/-- No item of a new array is read: the brackets behind it are those of a further dimension. -/
theorem readText_access_newArray {t : Ty} {size index : Expr}
    (hn : (Expr.access (.newArray t size) index).Every (Expr.HasIdentifiers a))
    (hs : (Expr.access (.newArray t size) index).Every Expr.IsShaped) :
    readText a (Expr.access (.newArray t size) index).print = none := by
  refine readText_print_of_reading_none a hn hs ?_
  rw [Expr.reading]
  exact if_pos rfl

example : (Expr.access (.newArray (.prim .int) (.intLit 3)) (.intLit 0)).print =
    "new int[3][0]".toList := by decide

/-- A negative number that is cast to a class is taken away from what has the name of the class. -/
theorem readText_cast_negated {n : String} (hn : a.IsIdentifier n) {operand : Expr} {m : Numeral}
    (hm : operand.negated? = some m) :
    readText a (Expr.cast (.named n) operand).print =
      (m.literal? false).map (.binary .minus (.name n)) := by
  -- only numbers have signs
  have hnames : operand.Every (Expr.HasIdentifiers a) := by cases operand <;> trivial
  have hshaped : operand.Every Expr.IsShaped := by cases operand <;> trivial
  have hlexical : operand.Every Expr.IsLexical := by cases operand <;> trivial
  have hread : readText a (Expr.cast (.named n) operand).print =
      (Expr.cast (.named n) operand).reading :=
    readText_print_of_lexical a ⟨hn, hnames⟩ ⟨trivial, hshaped⟩ ⟨trivial, hlexical⟩
  rw [hread, Expr.reading_cast_named hm]

end

end ArrayBridge.Java
