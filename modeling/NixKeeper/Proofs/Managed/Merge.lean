import NixKeeper.Managed.Merge
import NixKeeper.Proofs.Managed.BlankRun
import NixKeeper.Proofs.Managed.Region
import NixKeeper.Proofs.Managed.UserBlock

/-! What a merge keeps of the existing text, and when a second merge changes nothing. -/

namespace NixKeeper.Managed

/-- The text before a region without the blocks of several users, one user after the other. -/
def withoutUsers (usernames : List String) (before : List Char) : List Char :=
  usernames.foldl (fun text username => removeUserBlock username text) before

/-- Scrubbing removes the users of the new region and then joins blank lines. -/
theorem scrub_eq (fresh : Region) (before : List Char) :
    scrub fresh before = collapseBlankLines (withoutUsers (definedUsers fresh.managed) before) :=
  -- Blocks are removed first, and blank lines joined then.
  rfl

/-- Users are removed in the order in which they are listed. -/
@[simp] theorem withoutUsers_cons (username : String) (usernames : List String)
    (before : List Char) :
    withoutUsers (username :: usernames) before =
      withoutUsers usernames (removeUserBlock username before) :=
  -- The users are removed one after another.
  rfl

/-- A word on one line that stands in a text without some users stood there before. -/
theorem infix_of_infix_withoutUsers {usernames : List String} {word before : List Char}
    (oneLine : '\n' ∉ word) (within : word <:+: withoutUsers usernames before) :
    word <:+: before := by
  -- Each removal brings in no word that fits on a line.
  induction usernames generalizing before with
  | nil => exact within
  | cons username usernames ih => exact infix_of_infix_removeUserBlock oneLine (ih within)

/-- A word on one line that stands in a scrubbed text stood there before. -/
theorem infix_of_infix_scrub {fresh : Region} {word before : List Char} (oneLine : '\n' ∉ word)
    (within : word <:+: scrub fresh before) : word <:+: before :=
  -- Neither step brings in a word that fits on a line.
  infix_of_infix_withoutUsers oneLine (infix_of_infix_collapseBlankLines oneLine within)

/-- The removal of users never makes a text longer. -/
theorem length_withoutUsers_le (usernames : List String) (before : List Char) :
    (withoutUsers usernames before).length ≤ before.length := by
  induction usernames generalizing before with
  | nil => exact Nat.le_refl _
  | cons username usernames ih =>
    have later := ih (removeUserBlock username before)
    rw [withoutUsers_cons]
    -- Each removal can only take away.
    rcases removeUserBlock_eq_or_shorter username before with same | shorter
    · rwa [same] at later ⊢
    · exact Nat.le_trans later (Nat.le_of_lt shorter)

/-- The removal of users changes exactly the texts with a closed block of one of them. -/
theorem withoutUsers_eq_self_iff {usernames : List String} {before : List Char} :
    withoutUsers usernames before = before ↔
      ∀ username ∈ usernames, ¬ HasOwnBlock username before := by
  induction usernames with
  | nil => simp [withoutUsers]
  | cons username usernames ih =>
    rw [withoutUsers_cons, List.forall_mem_cons, ← ih, ← removeUserBlock_eq_self_iff]
    rcases removeUserBlock_eq_or_shorter username before with same | shorter
    · -- The first user has no block, and the others are left to the induction.
      rw [same, and_iff_right rfl]
    · -- What one removal has made shorter stays shorter.
      have bounded := length_withoutUsers_le usernames (removeUserBlock username before)
      refine iff_of_false (fun same => ?_) (fun both => ?_)
      · rw [same] at bounded
        omega
      · rw [both.1] at shorter
        omega

/-- Scrubbing changes exactly the texts with a block of a new user or with a run of blank lines. -/
theorem scrub_eq_self_iff {fresh : Region} {before : List Char} :
    scrub fresh before = before ↔
      (∀ username ∈ definedUsers fresh.managed, ¬ HasOwnBlock username before) ∧
        ¬ HasBlankRun before := by
  rw [scrub_eq, ← withoutUsers_eq_self_iff, ← collapseBlankLines_eq_self_iff]
  constructor
  · intro same
    -- Neither step can make up for what the other one took away.
    have atMost := length_withoutUsers_le (definedUsers fresh.managed) before
    rcases collapseBlankLines_eq_or_shorter (withoutUsers (definedUsers fresh.managed) before) with
      kept | shorter
    · have removed := kept.symm.trans same
      exact ⟨removed, by rwa [removed] at kept⟩
    · rw [same] at shorter
      omega
  · rintro ⟨removed, kept⟩
    rw [removed, kept]

/-- A scrubbed text has no run of blank lines. -/
theorem not_hasBlankRun_scrub (fresh : Region) (before : List Char) :
    ¬ HasBlankRun (scrub fresh before) :=
  -- Blank lines are joined last.
  not_hasBlankRun_collapseBlankLines _

/-- Where both texts have a region, the new one stands between what is kept of the existing text. -/
theorem merge_of_locate {existing generated : List Char} {current fresh : Region}
    (present : locate existing = some current) (made : locate generated = some fresh) :
    merge existing generated = scrub fresh current.before ++ fresh.managed ++ current.after := by
  -- Both texts have a region.
  rw [merge, made, present]

/-- The generated text is taken as a whole where it has no region. -/
theorem merge_of_locate_generated_eq_none {generated : List Char} (made : locate generated = none)
    (existing : List Char) : merge existing generated = generated := by
  -- There is no region to be put in.
  rw [merge, made]

/-- The generated text is taken as a whole where the existing one has no region. -/
theorem merge_of_locate_existing_eq_none {existing : List Char} (absent : locate existing = none)
    (generated : List Char) : merge existing generated = generated := by
  rw [merge, absent]
  -- There is no region to be replaced, whether or not there is one to be put in.
  cases locate generated <;> rfl

/-- The region of a merged text is found again where the merge has put it. -/
theorem locate_merge {existing generated : List Char} {current fresh : Region}
    (present : locate existing = some current) (made : locate generated = some fresh) :
    locate (merge existing generated) =
      some ⟨scrub fresh current.before, fresh.body, current.after⟩ := by
  -- No marker was before the old region, and scrubbing cannot put one together.
  obtain ⟨-, noBegin, noEnd, -⟩ := locate_eq_some_iff.1 present
  obtain ⟨-, -, -, noEndInside⟩ := locate_eq_some_iff.1 made
  refine locate_eq_some_iff.2 ⟨?_, fun within => noBegin ?_, fun within => noEnd ?_, noEndInside⟩
  · rw [merge_of_locate present made]
    simp [Region.managed]
  · exact infix_of_infix_scrub lineFeed_not_mem_beginMarker within
  · exact infix_of_infix_scrub lineFeed_not_mem_endMarker within

/-- However many texts with a region are merged, what follows the region stays. -/
theorem locate_foldl_merge {existing : List Char} {current : Region} {texts : List (List Char)}
    (present : locate existing = some current) (made : ∀ text ∈ texts, (locate text).isSome) :
    ∃ region, locate (texts.foldl merge existing) = some region ∧
      region.after = current.after := by
  -- After each merge the text has a region again, so the next one applies.
  induction texts generalizing existing current with
  | nil => exact ⟨current, present, rfl⟩
  | cons text texts ih =>
    obtain ⟨madeFirst, madeLater⟩ := List.forall_mem_cons.1 made
    obtain ⟨fresh, found⟩ := Option.isSome_iff_exists.1 madeFirst
    obtain ⟨region, reached, kept⟩ := ih (locate_merge present found) madeLater
    exact ⟨region, reached, kept⟩

/-- The two markers have their only hash sign at their head. -/
theorem hash_of_marker {marker : List Char} (isMarker : marker ∈ [beginMarker, endMarker]) :
    marker.head? = some '#' ∧ '#' ∉ marker.tail := by
  simp only [List.mem_cons, List.not_mem_nil, or_false] at isMarker
  -- The two markers are closed texts.
  rcases isMarker with rfl | rfl <;> decide

/-- A region begins with the hash sign of its marker. -/
theorem head?_managed (region : Region) : region.managed.head? = some '#' := by
  rw [Region.managed, List.append_assoc, List.head?_append]
  -- The region begins with its marker.
  have head : beginMarker.head? = some '#' := by decide
  rw [head, Option.some_or]

/-- A place of a marker in a text that begins with a managed region is in the region or behind it. -/
theorem prefix_or_prefix_managed {region : Region} {marker after front behind : List Char}
    (isMarker : marker ∈ [beginMarker, endMarker])
    (whole : region.managed ++ after = front ++ (marker ++ behind)) :
    front ++ marker <+: region.managed ∨ region.managed <+: front := by
  obtain ⟨head, single⟩ := hash_of_marker isMarker
  have closing : endMarker.head? = some '#' := by decide
  have apart : ∀ c ∈ (endMarker ++ after).head?, c ∉ marker.tail := by
    rw [List.head?_append, closing]
    simpa using single
  rw [Region.managed, List.append_assoc] at whole
  -- Whatever stands before the closing marker is cut first, and then the marker itself.
  rcases Text.prefix_or_prefix_of_head apart whole with inside | ⟨more, rfl⟩
  · exact .inl (inside.trans (List.prefix_append _ _))
  · -- A marker behind the body is the closing one, or it stands behind that.
    have rest := List.append_cancel_left (whole.trans (List.append_assoc _ more _))
    have free : ∀ c ∈ (marker ++ behind).head?, c ∉ endMarker.tail := by
      rw [List.head?_append, head]
      simpa using hash_not_mem_tail_endMarker
    rcases @Text.prefix_or_prefix_of_head endMarker more (marker ++ behind) [] after free rest.symm with
      passed | reached
    · exact .inr ((List.prefix_append_right_inj _).2 passed)
    · obtain rfl := List.prefix_nil.1 reached
      have same : marker = endMarker := by
        simp only [List.mem_cons, List.not_mem_nil, or_false] at isMarker
        refine isMarker.resolve_left ?_
        rintro rfl
        -- The two markers do not begin alike.
        have ends : endMarker <+: endMarker ++ after := List.prefix_append _ _
        have begins : beginMarker <+: endMarker ++ after := rest ▸ List.prefix_append _ _
        rcases List.prefix_or_prefix_of_prefix ends begins with other | other <;>
          exact absurd other (by decide)
      rw [List.append_nil, same]
      exact .inl (List.prefix_refl _)

/--
A merge splits the result where the existing text is split, and keeps what is outside the region.

Before the region stands the old beginning without the users of the new region and with its blank
lines joined; the region is the new one, and what follows it is the old ending. No marker stands in
the beginning, and none across its end or across that of the region. So it remains over any number of
merges, the last of which decides the region.
-/
theorem merge_keeps_outside {existing generated : List Char} {current fresh : Region}
    (present : locate existing = some current) (made : locate generated = some fresh) :
    let before := collapseBlankLines ((definedUsers fresh.managed).foldl
      (fun text username => removeUserBlock username text) current.before)
    merge existing generated = before ++ fresh.managed ++ current.after ∧
      locate (merge existing generated) = some ⟨before, fresh.body, current.after⟩ ∧
      (∀ marker ∈ [beginMarker, endMarker], ¬ marker <:+: before ∧
        ∀ front behind, merge existing generated = front ++ (marker ++ behind) →
          (∃ inside, front = before ++ inside ∧ inside ++ marker <+: fresh.managed) ∨
            before ++ fresh.managed <+: front) ∧
      ∀ (texts : List (List Char)) (last : List Char) (final : Region),
        (∀ text ∈ texts, (locate text).isSome) → locate last = some final →
        ∃ region, locate ((texts ++ [last]).foldl merge existing) = some region ∧
          region.managed = final.managed ∧ region.after = current.after := by
  intro before
  refine ⟨merge_of_locate present made, locate_merge present made, ?_, ?_⟩
  · intro marker isMarker
    obtain ⟨-, noBegin, noEnd, -⟩ := locate_eq_some_iff.1 (locate_merge present made)
    have absent : ¬ marker <:+: before := by
      simp only [List.mem_cons, List.not_mem_nil, or_false] at isMarker
      rcases isMarker with rfl | rfl
      · exact noBegin
      · exact noEnd
    refine ⟨absent, fun front behind place => ?_⟩
    -- The region begins with a hash sign, which a marker has nowhere but at its head.
    have apart : ∀ c ∈ (fresh.managed ++ current.after).head?, c ∉ marker.tail := by
      rw [List.head?_append, head?_managed, Option.some_or]
      simpa using (hash_of_marker isMarker).2
    rw [merge_of_locate present made, List.append_assoc] at place
    rcases Text.prefix_or_prefix_of_head apart place with ahead | ⟨inside, rfl⟩
    · exact absurd ((List.suffix_append front marker).isInfix.trans ahead.isInfix) absent
    · have rest := List.append_cancel_left (place.trans (List.append_assoc _ inside _))
      rcases prefix_or_prefix_managed isMarker rest with within | passed
      · exact .inl ⟨inside, rfl, within⟩
      · exact .inr ((List.prefix_append_right_inj _).2 passed)
  · intro texts last final madeAll madeLast
    -- All merges but the last one leave a text with a region, which the last one replaces.
    obtain ⟨region, reached, kept⟩ := locate_foldl_merge present madeAll
    rw [List.foldl_append, List.foldl_cons, List.foldl_nil]
    exact ⟨_, locate_merge reached madeLast, rfl, kept⟩

/-- A definition written by hand gives way to the one of the new region, and the ending stays. -/
theorem merge_keeps_outside_of_one_user :
    let existing := "users.users.a = \x7b\x7d;\nx\n".toList ++ beginMarker ++ endMarker ++ "y".toList
    let generated := beginMarker ++ "users.users.a = \x7b\x7d;".toList ++ endMarker
    locate existing = some ⟨"users.users.a = \x7b\x7d;\nx\n".toList, [], "y".toList⟩ ∧
      locate generated = some ⟨[], "users.users.a = \x7b\x7d;".toList, []⟩ ∧
      merge existing generated = "x\n".toList ++ generated ++ "y".toList := by
  intro existing generated
  have present : locate existing =
      some ⟨"users.users.a = \x7b\x7d;\nx\n".toList, [], "y".toList⟩ := by decide
  have made : locate generated = some ⟨[], "users.users.a = \x7b\x7d;".toList, []⟩ := by decide
  -- The general theorem gives the shape, and evaluation its parts.
  refine ⟨present, made, (merge_keeps_outside present made).1.trans ?_⟩
  decide

/--
A second merge of the same text changes nothing exactly if scrubbing has nothing left to do.

Blank lines are joined by the first merge already, unless that merge took the generated text as a
whole.
-/
theorem merge_merge_eq_iff (existing generated : List Char) :
    merge (merge existing generated) generated = merge existing generated ↔
      ∀ fresh merged, locate generated = some fresh →
        locate (merge existing generated) = some merged →
        (∀ username ∈ definedUsers fresh.managed, ¬ HasOwnBlock username merged.before) ∧
          (locate existing = none → ¬ HasBlankRun merged.before) := by
  cases made : locate generated with
  | none => simp [merge_of_locate_generated_eq_none made]
  | some fresh =>
    -- A second merge scrubs what the first one left before the region, and puts the same region back.
    have settled (merged : Region) (reached : locate (merge existing generated) = some merged)
        (shape : merge existing generated = merged.before ++ fresh.managed ++ merged.after) :
        merge (merge existing generated) generated = merge existing generated ↔
          (∀ username ∈ definedUsers fresh.managed, ¬ HasOwnBlock username merged.before) ∧
            ¬ HasBlankRun merged.before := by
      rw [merge_of_locate reached made, ← scrub_eq_self_iff]
      conv => lhs; rhs; rw [shape]
      rw [List.append_assoc, List.append_assoc, List.append_left_inj]
    cases present : locate existing with
    | none =>
      -- The generated text was taken as a whole, with the blank lines it came with.
      have whole := merge_of_locate_existing_eq_none present generated
      have shape := (locate_eq_some_iff.1 made).1
      rw [settled fresh (by rw [whole, made]) (by rw [whole]; simpa [Region.managed] using shape),
        whole, made]
      simp
    | some current =>
      -- The first merge has scrubbed the text already, so no run of blank lines is left.
      have reached := locate_merge present made
      rw [settled _ reached (merge_of_locate present made), reached]
      simp [not_hasBlankRun_scrub]

/-- Of two definitions on one line a merge removes the first, and a second merge the other. -/
theorem merge_merge_ne_of_shared_line :
    let existing := "users.users.a = \x7b\x7d; users.users.a = \x7b\x7d;\n".toList ++ beginMarker ++ endMarker
    let generated := beginMarker ++ "\nusers.users.a = \x7b\n\x7d;\n".toList ++ endMarker ++ ['\n']
    merge (merge existing generated) generated ≠ merge existing generated := by
  -- The two blocks share a line, so the first merge removes only one of them.
  decide

end NixKeeper.Managed
