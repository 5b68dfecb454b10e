import Mathlib.Data.List.Basic
import Mathlib.Data.List.TakeWhile
import NixKeeper.Text.Search

/-! Laws of searching, and when a word found in a joined text stands in one of its parts. -/

namespace NixKeeper.Text

/-- Nothing is left of a text behind a needle exactly if the text does not begin with the needle. -/
theorem isPrefixOf?_eq_none_iff {needle text : List Char} :
    needle.isPrefixOf? text = none ↔ ¬ needle <+: text := by
  rw [← List.isPrefixOf_iff_prefix, ← List.isSome_isPrefixOf?_eq_isPrefixOf]
  -- The Boolean test says the same as the one with a rest.
  cases needle.isPrefixOf? text <;> simp

/-- A needle at the head of a text does not reach a character that it lacks. -/
theorem isPrefixOf?_append_cons {needle : List Char} {seam : Char} (free : seam ∉ needle) (front rest : List Char) :
    needle.isPrefixOf? (front ++ seam :: rest) =
      (needle.isPrefixOf? front).map (· ++ seam :: rest) := by
  induction needle generalizing front with
  | nil => rfl
  | cons d needle ih =>
    obtain ⟨other, later⟩ := not_or.1 (mt List.mem_cons.2 free)
    cases front with
    | nil => simp [List.isPrefixOf?, Ne.symm other]
    | cons c front =>
      -- The needle goes on in the front only if the first characters agree.
      rw [List.cons_append, List.isPrefixOf?, List.isPrefixOf?]
      split
      · exact ih later front
      · rfl

/-- A beginning of a text without some character stands before the first one. -/
theorem prefix_of_not_mem {c : Char} {before front after rest : List Char} (free : c ∉ before)
    (whole : front ++ c :: rest = before ++ after) : before <+: front := by
  rcases List.append_eq_append_iff.1 whole with ⟨more, rfl, behind⟩ | ⟨more, rfl, -⟩
  · -- What the beginning has behind the front would start with the character.
    cases more with
    | nil => exact ⟨[], by simp⟩
    | cons d more =>
      obtain ⟨rfl, -⟩ := List.cons.inj behind
      simp at free
  · exact List.prefix_append _ _

/-- The first of a character's places divides a text in one way only. -/
theorem eq_of_append_cons_eq {c : Char} {front other rest more : List Char} (free : c ∉ front)
    (otherFree : c ∉ other) (same : front ++ c :: rest = other ++ c :: more) :
    front = other ∧ rest = more := by
  -- Each of the two beginnings is a beginning of the other one.
  have shorter : other <+: front := prefix_of_not_mem otherFree same
  have longer : front <+: other := prefix_of_not_mem free same.symm
  obtain rfl := shorter.eq_of_length_le longer.length_le
  exact ⟨rfl, (List.cons.inj (List.append_cancel_left same)).2⟩

/-- What is put between a beginning and an ending is found there. -/
theorem between?_append (beginning inside ending : List Char) :
    between? beginning ending (beginning ++ inside ++ ending) = some inside := by
  -- The beginning is cut off at the front, and the ending at the back.
  have front : beginning.isPrefixOf? (beginning ++ inside ++ ending) = some (inside ++ ending) :=
    List.isPrefixOf?_eq_some_iff_append_eq.2 (List.append_assoc _ _ _).symm
  have back : ending.reverse.isPrefixOf? (inside ++ ending).reverse = some inside.reverse :=
    List.isPrefixOf?_eq_some_iff_append_eq.2 List.reverse_append.symm
  rw [between?, front, Option.bind_some, back, Option.map_some, List.reverse_reverse]

/-- A text that is cut out between a beginning and an ending has both of them around it. -/
theorem eq_of_between? {beginning ending text inside : List Char}
    (between : between? beginning ending text = some inside) :
    text = beginning ++ inside ++ ending := by
  obtain ⟨rest, begins, ends⟩ := Option.bind_eq_some_iff.1 between
  obtain ⟨reversed, back, rfl⟩ := Option.map_eq_some_iff.1 ends
  -- The ending was looked for in the reversed text.
  have shape := congrArg List.reverse (List.append_eq_of_isPrefixOf?_eq_some back)
  rw [List.reverse_append, List.reverse_reverse, List.reverse_reverse] at shape
  rw [← List.append_eq_of_isPrefixOf?_eq_some begins, ← shape, List.append_assoc]

/-- Read from its end, a text without separators meets none. -/
theorem forall_mem_reverse_of_not_mem {separator : Char} {text : List Char}
    (free : separator ∉ text) : ∀ c ∈ text.reverse, (c != separator) = true := by
  intro c within
  rw [bne_iff_ne]
  -- Reversing the text leaves its characters.
  rintro rfl
  exact free (List.mem_reverse.1 within)

/-- A text without separators is its own last part. -/
theorem afterLast_of_not_mem {separator : Char} {text : List Char} (free : separator ∉ text) :
    afterLast separator text = text := by
  -- Looking from the end, no separator stops the search.
  rw [afterLast, List.takeWhile_eq_self_iff.2 (forall_mem_reverse_of_not_mem free),
    List.reverse_reverse]

/-- What stands behind a separator is the last part if no separator stands in it. -/
theorem afterLast_append_cons {separator : Char} {last : List Char} (before : List Char)
    (free : separator ∉ last) : afterLast separator (before ++ separator :: last) = last := by
  -- Looking from the end, the separator in front of the last part stops the search.
  rw [afterLast, List.reverse_append, List.reverse_cons, List.append_assoc,
    List.takeWhile_append_of_pos (forall_mem_reverse_of_not_mem free)]
  simp

/-- What stands behind the last separator is an ending of the text. -/
theorem afterLast_suffix (separator : Char) (text : List Char) : afterLast separator text <:+ text := by
  -- What is taken is a front of the reversed text.
  rw [afterLast, ← List.reverse_prefix, List.reverse_reverse]
  exact List.takeWhile_prefix _

/-- No separator stands behind the last one. -/
theorem not_mem_afterLast (separator : Char) (text : List Char) :
    separator ∉ afterLast separator text := by
  intro within
  -- Taking stops at the separator.
  have different := List.mem_takeWhile_imp (List.mem_reverse.1 within)
  simp at different

/-- Dropping the last character of a needle in a text leaves a beginning of the text. -/
theorem append_dropLast_prefix_append (before needle after : List Char) :
    before ++ needle.dropLast <+: before ++ needle ++ after := by
  rw [List.append_assoc]
  -- Both texts have the same beginning.
  refine List.prefix_append_right_inj before |>.2 ?_
  exact (List.dropLast_prefix needle).trans (List.prefix_append needle after)

/-- A needle does not occur in what is left of it without its last character. -/
theorem not_infix_dropLast {needle : List Char} (nonempty : needle ≠ []) :
    ¬ needle <:+: needle.dropLast := by
  intro within
  -- What is left is shorter by one.
  have positive := List.length_pos_iff.2 nonempty
  have bounded := within.length_le
  rw [List.length_dropLast] at bounded
  omega

/-- A text that begins with the needle is cut right there. -/
theorem splitFirst_of_begins {needle text after : List Char} (nonempty : needle ≠ [])
    (begins : text = needle ++ after) : splitFirst needle text = some ([], after) := by
  subst begins
  have found : needle.isPrefixOf? (needle ++ after) = some after :=
    List.isPrefixOf?_eq_some_iff_append_eq.2 rfl
  -- The search looks at the head of a text that is not empty, so the needle is taken apart.
  cases needle with
  | nil => contradiction
  | cons c needle =>
    rw [List.cons_append] at found ⊢
    rw [splitFirst, found]

/-- A text that does not begin with the needle is cut behind its first character. -/
theorem splitFirst_cons_of_not_begins {needle rest : List Char} {c : Char}
    (absent : ¬ needle <+: c :: rest) :
    splitFirst needle (c :: rest) =
      (splitFirst needle rest).map fun (before, after) => (c :: before, after) := by
  -- The search goes on behind the first character.
  rw [splitFirst, isPrefixOf?_eq_none_iff.2 absent]

/-- The first occurrence is the one before whose last character the needle does not occur. -/
theorem splitFirst_eq_some_iff {needle : List Char} (nonempty : needle ≠ [])
    {text before after : List Char} :
    splitFirst needle text = some (before, after) ↔
      text = before ++ needle ++ after ∧ ¬ needle <:+: before ++ needle.dropLast := by
  -- By the recursion of the search; the text before the occurrence shrinks with the text that is searched.
  induction text generalizing before with
  | nil => simp [splitFirst, nonempty]
  | cons c rest ih =>
    by_cases begins : needle <+: c :: rest
    · -- The occurrence at the head of the text is the first one.
      obtain ⟨found, shape⟩ := begins
      rw [splitFirst_of_begins nonempty shape.symm, Option.some.injEq, Prod.mk.injEq]
      constructor
      · rintro ⟨rfl, rfl⟩
        exact ⟨by simp [shape], not_infix_dropLast nonempty⟩
      · rintro ⟨whole, absent⟩
        cases before with
        | nil => exact ⟨rfl, List.append_cancel_left (shape.trans whole)⟩
        | cons d before =>
          -- A later occurrence would have the one at the head before it.
          have inText : needle <+: d :: before ++ needle ++ after := whole ▸ ⟨found, shape⟩
          refine absurd (List.prefix_of_prefix_length_le inText
            (append_dropLast_prefix_append (d :: before) needle after) ?_).isInfix absent
          simp only [List.length_append, List.length_cons, List.length_dropLast]
          omega
    · rw [splitFirst_cons_of_not_begins begins]
      constructor
      · intro found
        obtain ⟨⟨front, behind⟩, inRest, same⟩ := Option.map_eq_some_iff.1 found
        cases same
        obtain ⟨whole, absent⟩ := ih.1 inRest
        refine ⟨by simp [whole], fun within => ?_⟩
        rcases List.infix_cons_iff.1 within with atStart | later
        · -- What begins before the occurrence is a beginning of the whole text.
          refine begins (atStart.trans ?_)
          rw [whole]
          exact append_dropLast_prefix_append (c :: front) needle after
        · exact absent later
      · rintro ⟨whole, absent⟩
        cases before with
        | nil => exact absurd ⟨after, whole.symm⟩ begins
        | cons d front =>
          obtain ⟨rfl, inRest⟩ := List.cons.inj whole
          rw [ih.2 ⟨inRest, fun within => absent (List.infix_cons within)⟩]
          rfl

/-- The search fails exactly in the texts where the needle does not occur. -/
theorem splitFirst_eq_none_iff {needle text : List Char} (nonempty : needle ≠ []) :
    splitFirst needle text = none ↔ ¬ needle <:+: text := by
  -- Either the text begins with the needle, or an occurrence stands behind its first character.
  induction text with
  | nil => simp [splitFirst, nonempty]
  | cons c rest ih =>
    by_cases begins : needle <+: c :: rest
    · obtain ⟨after, shape⟩ := begins
      rw [splitFirst_of_begins nonempty shape.symm, ← shape]
      simpa using List.infix_append_left
    · rw [splitFirst_cons_of_not_begins begins, Option.map_eq_none_iff, ih, List.infix_cons_iff,
        or_iff_right begins]

/-- The first occurrence stands no further than any other. -/
theorem splitFirst_of_occurrence {needle : List Char} (nonempty : needle ≠ [])
    (before rest : List Char) :
    ∃ front behind, splitFirst needle (before ++ needle ++ rest) = some (front, behind) ∧
      front <+: before ∧ rest <:+ behind := by
  -- An occurrence is there, so the search succeeds, and what it finds is compared with the given one.
  cases found : splitFirst needle (before ++ needle ++ rest) with
  | none =>
    rw [splitFirst_eq_none_iff nonempty] at found
    exact absurd (List.infix_append before needle rest) found
  | some cut =>
    obtain ⟨front, behind⟩ := cut
    obtain ⟨whole, first⟩ := (splitFirst_eq_some_iff nonempty).1 found
    have positive := List.length_pos_iff.2 nonempty
    have lengths := congrArg List.length whole
    simp only [List.length_append] at lengths
    have bounded : front.length ≤ before.length := by
      -- Otherwise the given occurrence would end before the first one does.
      refine Decidable.byContradiction fun further => first ?_
      have ahead : before ++ needle <+: front ++ needle.dropLast := by
        refine List.prefix_of_prefix_length_le (List.prefix_append _ rest)
          (whole ▸ append_dropLast_prefix_append front needle behind) ?_
        simp only [List.length_append, List.length_dropLast]
        omega
      exact (List.suffix_append before needle).isInfix.trans ahead.isInfix
    refine ⟨front, behind, rfl, ?_, ?_⟩
    · -- Both are beginnings of the whole text, and the shorter one begins the other.
      have atFront : front <+: before ++ needle ++ rest := by
        rw [whole, List.append_assoc]
        exact List.prefix_append front _
      refine List.prefix_of_prefix_length_le atFront ?_ bounded
      rw [List.append_assoc]
      exact List.prefix_append before _
    · have atBack : behind <:+ before ++ needle ++ rest := by
        rw [whole]
        exact List.suffix_append _ behind
      exact List.suffix_of_suffix_length_le (List.suffix_append _ rest) atBack (by omega)

/-- A needle is contained in the texts of which it is a stretch. -/
theorem contains_iff {needle text : List Char} (nonempty : needle ≠ []) :
    contains needle text = true ↔ needle <:+: text := by
  -- The search fails exactly where the word is not to be found.
  rw [contains, Option.isSome_iff_ne_none, ne_eq, splitFirst_eq_none_iff nonempty, not_not]

/--
A place of a word in two joined texts ends in the first text or begins behind it.

A word across the seam would need the first character behind the seam, and not as its own first one.
-/
theorem prefix_or_prefix_of_head {word first second front behind : List Char}
    (apart : ∀ c ∈ second.head?, c ∉ word.tail)
    (whole : first ++ second = front ++ (word ++ behind)) :
    front ++ word <+: first ∨ first <+: front := by
  -- The front reaches to the seam, or else the word begins before it.
  rcases List.append_eq_append_iff.1 whole with ⟨more, rfl, -⟩ | ⟨more, rfl, rest⟩
  · exact .inr (List.prefix_append _ _)
  · rcases List.append_eq_append_iff.1 rest with ⟨later, rfl, -⟩ | ⟨across, rfl, rfl⟩
    · exact .inl (by simp)
    · cases across with
      | nil => exact .inl (by simp)
      | cons c across =>
        cases more with
        | nil => exact .inr (by simp)
        -- A word that begins before the seam has the forbidden character behind its head.
        | cons d more => simp at apart

/--
A word across the seam of two texts needs the first character behind the seam.

A text that begins with a character which the word has only at its head is such a second text.
-/
theorem infix_append_of_head {word first second : List Char}
    (apart : ∀ c ∈ second.head?, c ∉ word.tail) :
    word <:+: first ++ second ↔ word <:+: first ∨ word <:+: second := by
  constructor
  · -- A place of the word is on one side of the seam.
    rintro ⟨front, behind, whole⟩
    rw [List.append_assoc] at whole
    rcases prefix_or_prefix_of_head apart whole.symm with inFirst | ⟨more, rfl⟩
    · exact .inl ((List.suffix_append front word).isInfix.trans inFirst.isInfix)
    · rw [List.append_assoc, List.append_right_inj] at whole
      exact .inr ⟨more, behind, by rw [List.append_assoc, whole]⟩
  · rintro (inFirst | inSecond)
    · exact List.infix_append_of_infix_left inFirst
    · exact List.infix_append_of_infix_right inSecond

/-- A word does not begin with a character that it lacks. -/
theorem infix_cons_iff_of_not_mem {word rest : List Char} {separator : Char}
    (free : separator ∉ word) : word <:+: separator :: rest ↔ word <:+: rest := by
  refine ⟨fun within => ?_, List.infix_cons⟩
  rcases List.infix_cons_iff.1 within with begins | later
  · -- Only the empty word begins like a text whose first character it lacks.
    rcases List.prefix_cons_iff.1 begins with rfl | ⟨rest, rfl, -⟩
    · exact List.nil_infix
    · simp at free
  · exact later

/-- A word without a separator stands on one side of it. -/
theorem infix_append_cons_iff {word first second : List Char} {separator : Char}
    (free : separator ∉ word) :
    word <:+: first ++ separator :: second ↔ word <:+: first ∨ word <:+: second := by
  -- The separator is neither in the word nor at its end, so it cuts the text for it.
  rw [infix_append_of_head (by simpa using fun within => free (List.mem_of_mem_tail within)),
    infix_cons_iff_of_not_mem free]

/-- A word whose first character is missing in a text begins behind it. -/
theorem infix_append_iff_of_head_not_mem {word first second : List Char}
    (absent : ∀ c ∈ word.head?, c ∉ first) (nonempty : word ≠ []) :
    word <:+: first ++ second ↔ word <:+: second := by
  obtain ⟨c, tail, rfl⟩ := List.exists_cons_of_ne_nil nonempty
  refine ⟨fun within => ?_, List.infix_append_of_infix_right⟩
  rcases List.infix_append_iff_ne_nil.1 within with inFirst | inSecond | across
  · exact absurd (inFirst.subset List.mem_cons_self) (absent c rfl)
  · exact inSecond
  · -- A word across the seam would begin in the first text.
    obtain ⟨front, back, front_ne, -, whole, ending, -⟩ := across
    obtain ⟨d, front, rfl⟩ := List.exists_cons_of_ne_nil front_ne
    obtain ⟨rfl, -⟩ := List.cons.inj whole
    exact absurd (ending.subset List.mem_cons_self) (absent c rfl)

/-- A word whose last character is missing behind a text ends in the text. -/
theorem infix_append_iff_of_last_not_mem {word first second : List Char}
    (absent : ∀ c ∈ word.getLast?, c ∉ second) (nonempty : word ≠ []) :
    word <:+: first ++ second ↔ word <:+: first := by
  -- Read backwards the last character is the first.
  rw [← List.reverse_infix, List.reverse_append, infix_append_iff_of_head_not_mem (by simpa using absent)
    (by simpa using nonempty), List.reverse_infix]

/-- Nothing is found in a text if nothing is recognised from any character on. -/
theorem findFirst_eq_none {α : Type} {recognise : List Char → Option α} {text : List Char}
    (unknown : ∀ rest, rest <:+ text → recognise rest = none) : findFirst recognise text = none := by
  induction text with
  | nil => exact unknown [] (List.suffix_refl [])
  | cons c rest ih =>
    -- Nothing is recognised at the head, and every ending of the rest is one of the text.
    rw [findFirst, unknown _ (List.suffix_refl _)]
    exact ih fun later ending => unknown later (ending.trans (List.suffix_cons c rest))

/-- What is found in a text is recognised somewhere in it. -/
theorem exists_of_findFirst {α : Type} {recognise : List Char → Option α} {text : List Char} {value : α}
    (found : findFirst recognise text = some value) :
    ∃ rest, rest <:+ text ∧ recognise rest = some value := by
  induction text with
  | nil => exact ⟨[], List.suffix_refl [], found⟩
  | cons c rest ih =>
    rw [findFirst] at found
    -- The first place that is recognised ends the search; another one is found further on.
    cases here : recognise (c :: rest) with
    | some other =>
      rw [here] at found
      exact ⟨c :: rest, List.suffix_refl _, here.trans found⟩
    | none =>
      rw [here] at found
      obtain ⟨later, ending, known⟩ := ih found
      exact ⟨later, ending.trans (List.suffix_cons c rest), known⟩

/-- What is recognised at the head of a text is found first. -/
theorem findFirst_of_some {α : Type} {recognise : List Char → Option α} {text : List Char} {value : α}
    (known : recognise text = some value) : findFirst recognise text = some value := by
  -- The search asks at the beginning first.
  cases text with
  | nil => exact known
  | cons c rest =>
    rw [findFirst, known]
    rfl

/-- The characters of a replaced stretch leave no trace. -/
theorem substituteFrom_append (recognise : List Char → Option (List Char × List Char))
    (passed rest : List Char) :
    substituteFrom recognise passed.length (passed ++ rest) = substituteFrom recognise 0 rest := by
  -- The counter runs down along with the stretch.
  induction passed with
  | nil => rfl
  | cons c passed ih => rw [List.length_cons, List.cons_append, substituteFrom, ih]

/-- A character at which nothing is recognised stays. -/
theorem substituteAll_cons_of_none {recognise : List Char → Option (List Char × List Char)}
    {c : Char} {rest : List Char} (unknown : recognise (c :: rest) = none) :
    substituteAll recognise (c :: rest) = c :: substituteAll recognise rest := by
  -- Nothing begins here, so the character is kept.
  rw [substituteAll, substituteFrom, unknown]
  rfl

/-- A stretch that is recognised gives way to its replacement. -/
theorem substituteAll_append_of_some {recognise : List Char → Option (List Char × List Char)}
    {stretch rest replacement : List Char} (nonempty : stretch ≠ [])
    (known : recognise (stretch ++ rest) = some (replacement, rest)) :
    substituteAll recognise (stretch ++ rest) = replacement ++ substituteAll recognise rest := by
  cases stretch with
  | nil => contradiction
  | cons c passed =>
    rw [List.cons_append] at known ⊢
    -- The first character is counted already, the others are passed over.
    have count : (passed ++ rest).length - rest.length = passed.length := by simp
    simp only [substituteAll, substituteFrom, known, count, substituteFrom_append]

/-- The characters of a recognised stretch are passed over. -/
theorem findAllFrom_append {α : Type} (recognise : List Char → Option (α × List Char))
    (passed rest : List Char) :
    findAllFrom recognise passed.length (passed ++ rest) = findAllFrom recognise 0 rest := by
  -- The counter runs down along with the stretch.
  induction passed with
  | nil => rfl
  | cons c passed ih => rw [List.length_cons, List.cons_append, findAllFrom, ih]

/-- A character at which nothing is recognised adds nothing. -/
theorem findAll_cons_of_none {α : Type} {recognise : List Char → Option (α × List Char)} {c : Char}
    {rest : List Char} (unknown : recognise (c :: rest) = none) :
    findAll recognise (c :: rest) = findAll recognise rest := by
  -- Nothing begins here, so the search goes on.
  rw [findAll, findAllFrom, unknown]
  rfl

/-- A stretch that is recognised adds its value. -/
theorem findAll_append_of_some {α : Type} {recognise : List Char → Option (α × List Char)}
    {stretch rest : List Char} {value : α} (nonempty : stretch ≠ [])
    (known : recognise (stretch ++ rest) = some (value, rest)) :
    findAll recognise (stretch ++ rest) = value :: findAll recognise rest := by
  cases stretch with
  | nil => contradiction
  | cons c passed =>
    rw [List.cons_append] at known ⊢
    -- The first character is counted already, the others are passed over.
    have count : (passed ++ rest).length - rest.length = passed.length := by simp
    simp only [findAll, findAllFrom, known, count, findAllFrom_append]

/-- What is found in a text is recognised somewhere in it. -/
theorem exists_of_mem_findAllFrom {α : Type} {recognise : List Char → Option (α × List Char)}
    {skip : Nat} {text : List Char} {value : α} (found : value ∈ findAllFrom recognise skip text) :
    ∃ rest after, recognise rest = some (value, after) := by
  -- What is skipped recognises nothing, so the skip may be any number.
  induction text generalizing skip with
  | nil => simp [findAllFrom] at found
  | cons c rest ih =>
    cases skip with
    | succ skip => exact ih found
    | zero =>
      rw [findAllFrom] at found
      cases known : recognise (c :: rest) with
      | none =>
        rw [known] at found
        exact ih found
      | some pair =>
        obtain ⟨first, after⟩ := pair
        rw [known] at found
        rcases List.mem_cons.1 found with rfl | later
        · exact ⟨_, _, known⟩
        · exact ih later

end NixKeeper.Text
