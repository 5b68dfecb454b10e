import NixKeeper.Proofs.Managed.Merge

/-!
Texts that a merge brings to rest, and what follows their first closing marker.

A merge reaches before the region only to remove users and blank lines. A text that begins with neither
keeps its beginning, so a second merge finds everything as the first one has put it.
-/

namespace NixKeeper.Managed

/-- The head of a definition names the path of user accounts. -/
theorem userPath_infix_of_userHead? {username : String} {text body : List Char}
    (found : userHead? username text = some body) : userPath <:+: text := by
  simp only [userHead?, Option.bind_eq_bind, Option.bind_eq_some_iff] at found
  obtain ⟨named, atPath, -⟩ := found
  -- The path stands behind the indentation.
  have path := List.append_eq_of_isPrefixOf?_eq_some atPath
  have begins : userPath <+: text.dropWhile Text.isSpace :=
    ⟨username.toList ++ named, by rw [← path, List.append_assoc]⟩
  exact begins.isInfix.trans (List.dropWhile_suffix _).isInfix

/-- A text with a definition of a user names the path of user accounts. -/
theorem userPath_infix_of_firstBody? {username : String} {lineStart : Bool} {text body : List Char}
    (found : firstBody? username lineStart text = some body) : userPath <:+: text := by
  induction text generalizing lineStart with
  | nil => cases found
  | cons c rest ih =>
    rw [firstBody?] at found
    -- The first definition stands right here, or further on.
    cases here : (if lineStart then userHead? username (c :: rest) else none) with
    | none =>
      rw [here] at found
      exact List.infix_cons (ih found)
    | some _ =>
      cases lineStart with
      | false => cases here
      | true => exact userPath_infix_of_userHead? here

/-- Scrubbing leaves a text alone that names no user and has no run of blank lines. -/
theorem scrub_eq_self {before : List Char} (noUser : ¬ userPath <:+: before)
    (noRun : ¬ HasBlankRun before) (fresh : Region) : scrub fresh before = before := by
  refine scrub_eq_self_iff.2 ⟨fun username _ => ?_, noRun⟩
  rintro ⟨body, found, -⟩
  -- A block to be removed would bring the path of a user with it.
  exact noUser (userPath_infix_of_firstBody? found)

/-- A text has a region before which there is nothing to scrub, whatever region takes its place. -/
def Steady (text : List Char) : Prop :=
  ∃ region, locate text = some region ∧ ∀ fresh, scrub fresh region.before = region.before

/-- A steady text is not changed by a merge with itself. -/
theorem Steady.merge_self {text : List Char} (steady : Steady text) : merge text text = text := by
  obtain ⟨region, present, kept⟩ := steady
  rw [merge_of_locate present present, kept]
  -- Scrubbing leaves the beginning, so the region is replaced by itself.
  have whole := (locate_eq_some_iff.1 present).1
  conv => rhs; rw [whole]
  simp [Region.managed]

/-- A steady text stays steady when a new region takes the place of its own. -/
theorem Steady.merge {existing generated : List Char} (steady : Steady existing)
    (made : (locate generated).isSome) : Steady (merge existing generated) := by
  obtain ⟨current, present, kept⟩ := steady
  obtain ⟨fresh, made⟩ := Option.isSome_iff_exists.1 made
  refine ⟨_, locate_merge present made, fun later => ?_⟩
  -- The first scrubbing has left the beginning as it was.
  dsimp only
  rw [kept, kept]

/-- A second merge of the same text into a steady one changes nothing. -/
theorem Steady.merge_merge {existing generated : List Char} (steady : Steady existing)
    (made : (locate generated).isSome) :
    Managed.merge (Managed.merge existing generated) generated =
      Managed.merge existing generated := by
  obtain ⟨current, present, kept⟩ := steady
  obtain ⟨fresh, made⟩ := Option.isSome_iff_exists.1 made
  -- The beginning is left by both scrubbings.
  rw [merge_of_locate (locate_merge present made) made, merge_of_locate present made]
  dsimp only
  rw [kept, kept]

/-- What follows the first closing marker of a text. -/
def ending? (text : List Char) : Option (List Char) :=
  (Text.splitFirst endMarker text).map Prod.snd

/-- The text with something else behind its first closing marker, if it has one. -/
def withEnding (ending text : List Char) : List Char :=
  -- Everything behind the first end marker is replaced.
  match Text.splitFirst endMarker text with
  | some (before, _) => before ++ endMarker ++ ending
  | none => text

/-- A closing marker behind an opening one does not begin in it. -/
theorem endMarker_infix_beginMarker_append {body : List Char} :
    endMarker <:+: beginMarker ++ body ↔ endMarker <:+: body := by
  refine ⟨fun within => ?_, List.infix_append_of_infix_right⟩
  have cut : beginMarker = '#' :: beginMarker.tail := by decide
  rw [cut, List.cons_append] at within
  rcases List.infix_cons_iff.1 within with atHead | later
  · -- The two markers begin with different words.
    rw [← List.cons_append, ← cut] at atHead
    have differ : ¬ endMarker.take 7 <+: beginMarker.take 7 := by decide
    refine absurd ?_ differ
    exact List.prefix_of_prefix_length_le ((List.take_prefix 7 endMarker).trans atHead)
      ((List.take_prefix 7 beginMarker).trans (List.prefix_append _ _)) (by decide)
  · -- The rest of the opening marker has no hash sign.
    have head : endMarker.head? = some '#' := by decide
    refine (Text.infix_append_iff_of_head_not_mem ?_ endMarker_ne_nil).1 later
    rw [head]
    simpa using hash_not_mem_tail_beginMarker

/-- The first closing marker of a text with a region is that of the region. -/
theorem splitFirst_endMarker {text : List Char} {region : Region}
    (present : locate text = some region) :
    Text.splitFirst endMarker text =
      some (region.before ++ beginMarker ++ region.body, region.after) := by
  obtain ⟨whole, -, noEnd, noEndInside⟩ := locate_eq_some_iff.1 present
  refine (Text.splitFirst_eq_some_iff endMarker_ne_nil).2 ⟨whole, fun within => ?_⟩
  rw [endMarker_infix_append_dropLast] at within
  -- The opening marker begins with a hash sign, so no closing marker reaches into it.
  have apart : ∀ c ∈ (beginMarker ++ region.body).head?, c ∉ endMarker.tail := by
    rw [List.head?_append, (hash_of_marker List.mem_cons_self).1, Option.some_or]
    simpa using hash_not_mem_tail_endMarker
  rw [List.append_assoc, Text.infix_append_of_head apart, endMarker_infix_beginMarker_append] at within
  exact within.elim noEnd noEndInside

/-- What follows the first closing marker of a text with a region is what follows the region. -/
theorem ending?_of_locate {text : List Char} {region : Region}
    (present : locate text = some region) : ending? text = some region.after := by
  -- The region ends with the first end marker.
  rw [ending?, splitFirst_endMarker present]
  rfl

/-- A merge keeps what follows the first closing marker. -/
theorem ending?_merge {existing generated : List Char} (present : (locate existing).isSome)
    (made : (locate generated).isSome) : ending? (merge existing generated) = ending? existing := by
  -- Merging keeps what stands behind the region.
  obtain ⟨current, present⟩ := Option.isSome_iff_exists.1 present
  obtain ⟨fresh, made⟩ := Option.isSome_iff_exists.1 made
  rw [ending?_of_locate (locate_merge present made), ending?_of_locate present]

/-- With another ending a text has the same region. -/
theorem locate_withEnding {text : List Char} {region : Region}
    (present : locate text = some region) (ending : List Char) :
    locate (withEnding ending text) = some { region with after := ending } := by
  rw [withEnding, splitFirst_endMarker present]
  -- Both markers and what stands before them are as they were.
  exact locate_eq_some_iff.2 ⟨rfl, (locate_eq_some_iff.1 present).2⟩

/-- With another ending a steady text stays steady. -/
theorem Steady.withEnding {text : List Char} (steady : Steady text) (ending : List Char) :
    Steady (withEnding ending text) := by
  -- Nothing in front of the ending is touched.
  obtain ⟨region, present, kept⟩ := steady
  exact ⟨_, locate_withEnding present ending, kept⟩

end NixKeeper.Managed
