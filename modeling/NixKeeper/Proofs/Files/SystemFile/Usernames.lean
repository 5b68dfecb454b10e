import Mathlib.Data.List.Nodup
import NixKeeper.Proofs.Files.SystemFile.Repetition

/-!
Whom the system file leaves among the users.

The usernames in the end follow from those before and from the blocks that are opened, in their order.
One is lost only if the placeholder's own block is opened first: then the next block takes the name away
from the placeholder, although it is none any more.
-/

namespace NixKeeper.Files.SystemFile

variable {renames : Renames} {placeholder name : String}

/-- The usernames with that of a user who is claimed: a placeholder that stands alone gives way. -/
def claimName (placeholder : String) (names : List String) (name : String) : List String :=
  if names = [placeholder] then [name] else withName names name

/-- Of the users only the names matter for the names after a claim. -/
theorem map_username_claimUser (users : List User) (name placeholder : String) :
    (claimUser users name placeholder).2.map (·.username) =
      claimName placeholder (users.map (·.username)) name := by
  -- Whether the name is taken decides, and that can be seen from the names alone.
  cases found : users.findIdx? (·.username == name) with
  | some index =>
    have known : name ∈ users.map (·.username) := mem_map_of_findIdx? found
    rw [claimUser_of_found found, claimName]
    split
    · -- The placeholder is claimed under its own name.
      rename_i alone
      rw [alone] at known
      rw [List.mem_singleton.1 known]
      exact alone
    · rw [withName_of_mem known]
  | none =>
    have new : name ∉ users.map (·.username) := not_mem_map_of_findIdx? found
    unfold claimUser
    rw [found, claimName, withName_of_not_mem new]
    dsimp only
    split
    · -- A user who stands alone is renamed under the placeholder name only.
      rename_i only
      by_cases same : only.username = placeholder <;> simp [same, User.named]
    · rename_i several
      have notAlone : users.map (·.username) ≠ [placeholder] := by
        intro alone
        obtain ⟨only, single, -⟩ := List.map_eq_singleton_iff.1 alone
        exact several only single
      rw [if_neg notAlone, List.map_append, List.map_singleton, User.named]

/-- Different usernames stay different when a user is claimed. -/
theorem nodup_claimName {names : List String} (distinct : names.Nodup) (name : String) :
    (claimName placeholder names name).Nodup := by
  rw [claimName]
  -- The sole placeholder is replaced, or the name is entered unless it is known.
  split
  · exact List.nodup_singleton name
  · exact nodup_withName distinct name

/-- Different usernames stay different when several users are claimed. -/
theorem nodup_foldl_claimName {names : List String} (distinct : names.Nodup) (opened : List String) :
    (opened.foldl (claimName placeholder) names).Nodup := by
  induction opened generalizing names with
  | nil => exact distinct
  -- Each name keeps them distinct.
  | cons name rest ih => exact ih (nodup_claimName distinct name)

/-- Where the placeholder does not stand alone, users are claimed behind those that are there. -/
theorem foldl_claimName_of_settled {names opened : List String} (distinct : opened.Nodup)
    (nonempty : names ≠ []) (settled : names ≠ [placeholder]) :
    opened.foldl (claimName placeholder) names = names ++ opened.filter (· ∉ names) := by
  -- Then claiming is entering, at every step.
  rw [← foldl_withName distinct]
  clear distinct
  induction opened generalizing names with
  | nil => rfl
  | cons name rest ih =>
    -- The users stay settled: a second one joins them, or nobody.
    have still : withName names name ≠ [] ∧ withName names name ≠ [placeholder] := by
      by_cases known : name ∈ names
      · rw [withName_of_mem known]
        exact ⟨nonempty, settled⟩
      · obtain ⟨first, others, rfl⟩ := List.exists_cons_of_ne_nil nonempty
        simp [withName_of_not_mem known]
    rw [List.foldl_cons, List.foldl_cons, claimName, if_neg settled]
    exact ih still.1 still.2

/-- Behind a user with a name of its own, users are claimed in their order. -/
theorem foldl_claimName_singleton {first : String} {rest : List String}
    (distinct : (first :: rest).Nodup) (named : first ≠ placeholder) :
    rest.foldl (claimName placeholder) [first] = first :: rest := by
  obtain ⟨apart, laterDistinct⟩ := List.nodup_cons.1 distinct
  -- None of the others is the first user.
  have others : rest.filter (· ∉ [first]) = rest := by
    refine List.filter_eq_self.2 fun other among => ?_
    have different : other ≠ first := fun same => apart (same ▸ among)
    simpa using different
  rw [foldl_claimName_of_settled laterDistinct (List.cons_ne_nil _ _) (by simpa using named), others,
    List.singleton_append]

/-- Where nobody or only the placeholder is there, the first user who is claimed stands alone. -/
theorem claimName_of_open {names : List String} (isOpen : names = [] ∨ names = [placeholder])
    (name : String) : claimName placeholder names name = [name] := by
  -- The first name of all is entered, and the sole placeholder is replaced.
  rcases isOpen with rfl | rfl
  · simp [claimName, withName]
  · rw [claimName, if_pos rfl]

/-- A placeholder that is claimed under its own name gives way to the next user all the same. -/
theorem foldl_claimName_placeholder {names rest : List String} {other : String}
    (isOpen : names = [] ∨ names = [placeholder]) (distinct : (placeholder :: other :: rest).Nodup) :
    (placeholder :: other :: rest).foldl (claimName placeholder) names = other :: rest := by
  -- The block of the placeholder is taken over by the next one.
  obtain ⟨apart, laterDistinct⟩ := List.nodup_cons.1 distinct
  have named : other ≠ placeholder := fun same => apart (same ▸ List.mem_cons_self)
  rw [List.foldl_cons, List.foldl_cons, claimName_of_open isOpen, claimName_of_open (.inr rfl),
    foldl_claimName_singleton laterDistinct named]

/-- Without that, the users who are claimed are those who are there. -/
theorem foldl_claimName_of_open {names opened : List String}
    (isOpen : names = [] ∨ names = [placeholder]) (distinct : opened.Nodup) (nonempty : opened ≠ [])
    (whole : ¬ ∃ other rest, opened = placeholder :: other :: rest) :
    opened.foldl (claimName placeholder) names = opened := by
  obtain ⟨first, rest, rfl⟩ := List.exists_cons_of_ne_nil nonempty
  rw [List.foldl_cons, claimName_of_open isOpen]
  -- The first name takes the place of the placeholder, and with that the names are settled.
  cases rest with
  | nil => rfl
  | cons other others =>
    have named : first ≠ placeholder := fun same => whole ⟨other, others, same ▸ rfl⟩
    exact foldl_claimName_singleton distinct named

/-- Different names of which none is another than the placeholder are none or the placeholder alone. -/
theorem isOpen_of_forall {names : List String} (distinct : names.Nodup)
    (placeholders : ∀ name ∈ names, name = placeholder) : names = [] ∨ names = [placeholder] := by
  cases names with
  | nil => exact .inl rfl
  | cons first rest =>
    -- A second placeholder would repeat the first one.
    obtain ⟨apart, -⟩ := List.nodup_cons.1 distinct
    obtain ⟨rfl, others⟩ := List.forall_mem_cons.1 placeholders
    have alone : rest = [] := List.eq_nil_iff_forall_not_mem.2 fun other among =>
      apart (others other among ▸ among)
    exact .inr (alone ▸ rfl)

/--
Everybody who is claimed is there once, and nobody is lost but a placeholder who is not claimed, unless
the placeholder is claimed first of several where there is nobody or only the placeholder.
-/
theorem foldl_claimName_keeps_iff {names opened : List String} (distinct : names.Nodup)
    (once : opened.Nodup) :
    ((∀ name ∈ opened, (opened.foldl (claimName placeholder) names).count name = 1) ∧
      ∀ name ∈ names, name ∈ opened.foldl (claimName placeholder) names ∨
        name = placeholder ∧ placeholder ∉ opened) ↔
      ¬ ((∀ name ∈ names, name = placeholder) ∧
        ∃ other rest, opened = placeholder :: other :: rest) := by
  have stillDistinct := @nodup_foldl_claimName placeholder _ distinct opened
  constructor
  · rintro ⟨there, -⟩ ⟨placeholders, other, rest, rfl⟩
    -- The placeholder has given way to the second user.
    have here := there placeholder List.mem_cons_self
    rw [foldl_claimName_placeholder (isOpen_of_forall distinct placeholders) once,
      List.count_eq_zero_of_not_mem (List.nodup_cons.1 once).1] at here
    exact absurd here Nat.zero_ne_one
  · intro whole
    -- No name is there twice, so it is enough that each is there.
    suffices kept : (∀ name ∈ opened, name ∈ opened.foldl (claimName placeholder) names) ∧
        ∀ name ∈ names, name ∈ opened.foldl (claimName placeholder) names ∨
          name = placeholder ∧ placeholder ∉ opened from
      ⟨fun name among => List.count_eq_one_of_mem stillDistinct (kept.1 name among), kept.2⟩
    by_cases placeholders : ∀ name ∈ names, name = placeholder
    · -- Nobody but the placeholder is there: in the end there are those who are claimed.
      have isOpen := isOpen_of_forall distinct placeholders
      by_cases empty : opened = []
      · rw [empty]
        exact ⟨fun _ none => absurd none List.not_mem_nil, fun _ among => .inl among⟩
      · rw [foldl_claimName_of_open isOpen once empty fun first => whole ⟨placeholders, first⟩]
        refine ⟨fun _ among => among, fun name among => ?_⟩
        rw [placeholders name among]
        by_cases claimed : placeholder ∈ opened
        · exact .inl claimed
        · exact .inr ⟨rfl, claimed⟩
    · -- Somebody else is there: nobody gives way, and new users follow.
      have nonempty : names ≠ [] := by
        rintro rfl
        exact placeholders (List.forall_mem_nil _)
      have settled : names ≠ [placeholder] := by
        rintro rfl
        exact placeholders (List.forall_mem_singleton.2 rfl)
      rw [foldl_claimName_of_settled once nonempty settled]
      refine ⟨fun name among => ?_, fun name among => .inl (List.mem_append_left _ among)⟩
      by_cases known : name ∈ names
      · exact List.mem_append_left _ known
      · exact List.mem_append_right _ (List.mem_filter.2 ⟨among, by simpa using known⟩)

/-- The usernames are told by the blocks that have been opened, of which none is told twice. -/
structure Claimed (placeholder : String) (names : List String) (now : Progress) : Prop where
  usernames : now.model.users.map (·.username) = now.seen.foldl (claimName placeholder) names
  once : now.seen.Nodup

/-- Every statement keeps to this. -/
theorem Claimed.of_change {names : List String} {now next : Progress} {statement : Statement}
    (claimed : Claimed placeholder names now)
    (change : Change renames placeholder now statement next.model next.seen) :
    Claimed placeholder names next := by
  -- Only the first block of a user changes the usernames or the list.
  obtain ⟨model, context, seen⟩ := next
  cases change with
  | user name opens new =>
    refine ⟨?_, ?_⟩
    · refine (map_username_claimUser _ _ _).trans ?_
      change _ = (now.seen ++ [name]).foldl (claimName placeholder) names
      rw [claimed.usernames, List.foldl_append, List.foldl_cons, List.foldl_nil]
    · have once := nodup_withName claimed.once name
      rw [withName_of_not_mem new] at once
      exact once
  | userLine index =>
    refine ⟨?_, claimed.once⟩
    exact (map_modify_of_keeps _ (username_readUserLine _)).trans claimed.usernames
  | settings | packages | service | serviceSwitch | serviceLine =>
    exact ⟨claimed.usernames, claimed.once⟩

/-- All statements keep to this. -/
theorem Claimed.foldl {names : List String} {now : Progress} (claimed : Claimed placeholder names now)
    (found : List Statement) :
    Claimed placeholder names (found.foldl (readStatement renames placeholder) now) := by
  induction found generalizing now with
  | nil => exact claimed
  | cons statement rest ih =>
    -- Each statement makes one change, and the claim is kept by it.
    exact ih (claimed.of_change (change_readStatement renames placeholder now statement))

/-- The blocks of different users are opened, and these are claimed one after another. -/
theorem claimed_read (renames : Renames) (placeholder : String) (text : List Char) (base : Model) :
    (openedUsers renames placeholder text).Nodup ∧
      (read renames placeholder text base).users.map (·.username) =
        (openedUsers renames placeholder text).foldl (claimName placeholder)
          (base.users.map (·.username)) := by
  -- Nobody has been claimed at the beginning.
  have begins : Claimed placeholder (base.users.map (·.username)) ⟨base, .top, []⟩ :=
    ⟨rfl, List.nodup_nil⟩
  have ends : Claimed placeholder (base.users.map (·.username))
      (finalProgress renames placeholder text base) := begins.foldl (statements text)
  rw [openedUsers, seen_finalProgress text _ base]
  exact ⟨ends.once, ends.usernames⟩

/-- Among statements there is one that opens the block of a user. -/
def OpensAmong (renames : Renames) (placeholder : String) (now : Progress) (found : List Statement)
    (name : String) : Prop :=
  -- The statement opens the block in the progress that the ones before it have left.
  ∃ before statement after, found = before ++ statement :: after ∧
    OpensUser (before.foldl (readStatement renames placeholder) now) statement name

/-- The managed region of a text opens the block of a user outside of lists and other blocks. -/
def Opens (renames : Renames) (placeholder : String) (text : List Char) (base : Model)
    (name : String) : Prop :=
  -- The text is read from its beginning, outside of blocks.
  OpensAmong renames placeholder ⟨base, .top, []⟩ (statements text) name

/-- A statement that opens the block of a user puts the user on the list. -/
theorem mem_seen_readStatement (now : Progress) (statement : Statement) (name : String) :
    name ∈ (readStatement renames placeholder now statement).seen ↔
      name ∈ now.seen ∨ OpensUser now statement name := by
  constructor
  · intro within
    have change := change_readStatement renames placeholder now statement
    generalize readStatement renames placeholder now statement = next at within change
    obtain ⟨model, context, seen⟩ := next
    -- Only a change that opens a block of a user adds to the list.
    cases change with
    | user opened opens new =>
      rcases List.mem_append.1 within with before | here
      · exact .inl before
      · exact .inr (List.mem_singleton.1 here ▸ opens)
    | settings | packages | userLine | service | serviceSwitch | serviceLine => exact .inl within
  · rintro (before | ⟨top, meaning⟩)
    · exact (grows_readStatement now statement).seen.subset before
    · rw [readStatement, top]
      dsimp only
      rw [readTop, meaning]
      dsimp only
      -- A name that is on the list already stays there, and any other one is put behind.
      by_cases again : name ∈ now.seen
      · rw [openUser_of_mem again]
        exact again
      · rw [openUser_of_not_mem again]
        exact List.mem_append_right _ (List.mem_singleton.2 rfl)

/-- The list names those who were on it before, and those whose blocks are opened. -/
theorem mem_seen_foldl (found : List Statement) (now : Progress) (name : String) :
    name ∈ (found.foldl (readStatement renames placeholder) now).seen ↔
      name ∈ now.seen ∨ OpensAmong renames placeholder now found name := by
  -- The statement that opens the block is the first one or one of the rest.
  induction found generalizing now with
  | nil => simp [OpensAmong]
  | cons statement rest ih =>
    rw [List.foldl_cons, ih, mem_seen_readStatement, or_assoc]
    refine or_congr_right ⟨?_, ?_⟩
    · rintro (opens | ⟨before, later, after, rfl, opens⟩)
      · exact ⟨[], statement, rest, rfl, opens⟩
      · exact ⟨statement :: before, later, after, rfl, opens⟩
    · rintro ⟨before, later, after, same, opens⟩
      cases before with
      | nil =>
        obtain ⟨rfl, rfl⟩ := List.cons.inj same
        exact .inl opens
      | cons first others =>
        obtain ⟨rfl, rfl⟩ := List.cons.inj same
        exact .inr ⟨others, later, after, rfl, opens⟩

/-- The users whose blocks a text opens are the same for all models. -/
theorem mem_openedUsers_iff {text : List Char} {base : Model} :
    name ∈ openedUsers renames placeholder text ↔ Opens renames placeholder text base name := by
  -- Which blocks are opened does not depend on the model.
  rw [openedUsers, seen_finalProgress text _ base, finalProgress, mem_seen_foldl]
  simp [Opens]

/--
Every user whose block is opened is there once in the end, and nobody is lost but a placeholder without
a block, exactly if the placeholder's block is not the first of several that are opened where there is
nobody or only the placeholder.
-/
theorem keeps_users_iff {text : List Char} {base : Model}
    (distinct : (base.users.map (·.username)).Nodup) :
    ((∀ name, Opens renames placeholder text base name →
        ((read renames placeholder text base).users.map (·.username)).count name = 1) ∧
      ∀ user ∈ base.users,
        user.username ∈ (read renames placeholder text base).users.map (·.username) ∨
          user.username = placeholder ∧ ¬ Opens renames placeholder text base placeholder) ↔
      ¬ ((∀ user ∈ base.users, user.username = placeholder) ∧
        ∃ other rest, openedUsers renames placeholder text = placeholder :: other :: rest) := by
  -- Both sides speak of names alone, those before and those whose blocks are opened.
  obtain ⟨once, usernames⟩ := claimed_read renames placeholder text base
  simp only [← mem_openedUsers_iff, usernames]
  simpa only [List.forall_mem_map] using foldl_claimName_keeps_iff distinct once

/-- A file that opens the blocks of several users. -/
def usersText (usernames : List String) : List Char :=
  -- Each user has a block of its own, with nothing in it.
  Managed.beginMarker ++
    usernames.flatMap (fun username => "\nusers.users.".toList ++ username.toList ++
      " = \x7b\n\x7d;".toList) ++ '\n' :: Managed.endMarker

/-- The placeholder of the initial model gives way to the first of two users, and nobody is lost. -/
theorem keeps_users_of_named :
    (Model.initial.users.map (·.username)).Nodup ∧
      (∀ name, Opens .builtin placeholderName (usersText ["ada", "bob"]) .initial name →
        ((read .builtin placeholderName (usersText ["ada", "bob"]) .initial).users.map
          (·.username)).count name = 1) ∧
      ∀ user ∈ Model.initial.users,
        user.username ∈ (read .builtin placeholderName (usersText ["ada", "bob"]) .initial).users.map
            (·.username) ∨
          user.username = placeholderName ∧
            ¬ Opens .builtin placeholderName (usersText ["ada", "bob"]) .initial placeholderName := by
  have distinct : (Model.initial.users.map (·.username)).Nodup := by decide
  have opened : openedUsers .builtin placeholderName (usersText ["ada", "bob"]) = ["ada", "bob"] := by
    decide
  refine ⟨distinct, (keeps_users_iff distinct).2 ?_⟩
  -- The first user who is claimed is not the placeholder.
  rintro ⟨-, other, rest, claimed⟩
  rw [opened] at claimed
  exact absurd (List.cons.inj claimed).1 (by decide)

/-- A placeholder whose block is opened is lost to the next user all the same. -/
theorem placeholder_lost_behind_its_block :
    (Model.initial.users.map (·.username)).Nodup ∧
      Opens .builtin placeholderName (usersText [placeholderName, "ada"]) .initial placeholderName ∧
      (read .builtin placeholderName (usersText [placeholderName, "ada"]) .initial).users.map
        (·.username) = ["ada"] := by
  -- The three facts are about closed texts.
  refine ⟨by decide, mem_openedUsers_iff.1 ?_, ?_⟩ <;> decide

end NixKeeper.Files.SystemFile
