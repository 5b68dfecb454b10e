import NixKeeper.Proofs.Model.Renames
import NixKeeper.Proofs.Text.Search

/-!
Which current names of packages have a current name that differs.

A name is looked up once, without a single package set before it. So a current name is final exactly if it
is looked up without a change, which a table need not grant: its names may have further names, and a package
set may stand before what is left.
-/

namespace NixKeeper.Renames

variable {renames : Renames} {name : String}

/-- A name without the package set before it. -/
def bareName (name : String) : String :=
  String.ofList (Text.dropBeginning "pkgs.".toList name.toList)

/-- A package is looked up by its bare name. -/
theorem package_eq (renames : Renames) (name : String) :
    renames.package name = (renames.packages.get? (bareName name)).getD (bareName name) :=
  -- The two steps are the definition's.
  rfl

/-- The bare name of a name in a package set. -/
theorem bareName_append (rest : String) : bareName ("pkgs." ++ rest) = rest := by
  -- The prefix is found and dropped.
  have begins : "pkgs.".toList.isPrefixOf? ("pkgs.".toList ++ rest.toList) = some rest.toList :=
    List.isPrefixOf?_eq_some_iff_append_eq.2 rfl
  rw [bareName, String.toList_append, Text.dropBeginning, begins, Option.getD_some,
    String.ofList_toList]

/-- A name without a package set before it is bare. -/
theorem bareName_of_not_begins (bare : ¬ "pkgs.".toList <+: name.toList) : bareName name = name := by
  -- There is no prefix to be dropped.
  rw [bareName, Text.dropBeginning, Text.isPrefixOf?_eq_none_iff.2 bare, Option.getD_none,
    String.ofList_toList]

/-- What begins a name can be split off. -/
theorem exists_eq_append_of_begins {front : String} (begins : front.toList <+: name.toList) :
    ∃ rest, name = front ++ rest := by
  obtain ⟨rest, whole⟩ := begins
  -- The rest of the characters is a text again.
  refine ⟨String.ofList rest, String.toList_inj.1 ?_⟩
  rw [String.toList_append, String.toList_ofList, whole]

/-- A name with two package sets before it is one with a package set before another one. -/
theorem begins_twice_iff {rest : String} :
    "pkgs.pkgs.".toList <+: ("pkgs." ++ rest).toList ↔ "pkgs.".toList <+: rest.toList := by
  -- The doubled prefix is the prefix twice.
  have twice : "pkgs.pkgs.".toList = "pkgs.".toList ++ "pkgs.".toList := by decide
  rw [twice, String.toList_append, List.prefix_append_right_inj]

/-- A name is its own bare name only if it is bare. -/
theorem bareName_eq_self_iff : bareName name = name ↔ ¬ "pkgs.".toList <+: name.toList := by
  refine ⟨fun same begins => ?_, bareName_of_not_begins⟩
  obtain ⟨rest, rfl⟩ := exists_eq_append_of_begins begins
  rw [bareName_append] at same
  -- The name would be as long as what follows the package set in it.
  have lengths := congrArg String.length same
  rw [String.length_append] at lengths
  have positive : 0 < "pkgs.".length := by decide
  omega

/--
A name is current already if the table has it for its bare name, or does not know its bare name and no package
set stands before it.
-/
theorem package_eq_self_iff : renames.package name = name ↔
    renames.packages.get? (bareName name) = some name ∨
      renames.packages.get? (bareName name) = none ∧ ¬ "pkgs.".toList <+: name.toList := by
  rw [package_eq, ← bareName_eq_self_iff]
  -- The table has an entry for the bare name or it has none.
  cases renames.packages.get? (bareName name) <;> simp

/-- A name without a package set before it that is no former one stays. -/
theorem package_of_unmoved (bare : ¬ "pkgs.".toList <+: name.toList)
    (unmoved : ∀ entry ∈ renames.packages.entries, entry.1 ≠ name) : renames.package name = name := by
  refine package_eq_self_iff.2 (.inr ⟨?_, bare⟩)
  rw [bareName_of_not_begins bare]
  -- What the table finds under the name would be an entry with this key.
  cases moved : renames.packages.get? name with
  | none => rfl
  | some current => exact absurd rfl (unmoved _ (Table.mem_of_get?_eq_some moved))

/-- The packages that have another name by now, in the order of their former names. -/
theorem entries_builtin_packages : builtin.packages.entries =
    [("nerd-fonts", "nerd-fonts.symbols-only"), ("nerdfonts", "nerd-fonts.symbols-only"),
      ("noto-fonts-cjk", "noto-fonts-cjk-sans"), ("noto-fonts-emoji", "noto-fonts-color-emoji")] := by
  -- The table is a closed term.
  decide

/--
All names but those with two package sets before them are settled by a single lookup exactly if every
name in the table that is found under a bare key is current already.
-/
theorem package_package_iff : (∀ name, ¬ "pkgs.pkgs.".toList <+: name.toList →
      renames.package (renames.package name) = renames.package name) ↔
    ∀ entry ∈ renames.packages.entries, ¬ "pkgs.".toList <+: entry.1.toList →
      renames.package entry.2 = entry.2 := by
  constructor
  · intro settles entry among bare
    -- A bare key is looked up as it is, so the name in the table is the current one of its key.
    have once : ¬ "pkgs.pkgs.".toList <+: entry.1.toList := by
      have longer : "pkgs.".toList <+: "pkgs.pkgs.".toList := by decide
      exact fun twice => bare (longer.trans twice)
    have found : renames.packages.get? entry.1 = some entry.2 := Table.get?_eq_some_of_mem among
    have current : renames.package entry.1 = entry.2 := by
      rw [package_eq, bareName_of_not_begins bare, found, Option.getD_some]
    have settled := settles entry.1 once
    rwa [current] at settled
  · intro closed name once
    -- Behind a single package set the name is bare, and what is found under it is settled by the table.
    have bare : ¬ "pkgs.".toList <+: (bareName name).toList := by
      by_cases begins : "pkgs.".toList <+: name.toList
      · obtain ⟨rest, rfl⟩ := exists_eq_append_of_begins begins
        rw [bareName_append]
        exact mt begins_twice_iff.2 once
      · rw [bareName_of_not_begins begins]
        exact begins
    rw [package_eq renames name]
    cases found : renames.packages.get? (bareName name) with
    | some current =>
      rw [Option.getD_some]
      exact closed (bareName name, current) (Table.mem_of_get?_eq_some found) bare
    | none =>
      -- An unknown bare name is current.
      rw [Option.getD_none, package_eq_self_iff, bareName_of_not_begins bare]
      exact .inr ⟨found, bare⟩

/-- No table knows names of more than a certain length. -/
theorem exists_forall_get?_eq_none {α : Type} (table : Table α) :
    ∃ bound, ∀ key : String, bound < key.length → table.get? key = none := by
  -- The longest key bounds them all.
  obtain ⟨bound, longest⟩ : ∃ bound, ∀ entry ∈ table.entries, entry.1.length ≤ bound := by
    induction table.entries with
    | nil => exact ⟨0, List.forall_mem_nil _⟩
    | cons entry rest ih =>
      obtain ⟨bound, longest⟩ := ih
      refine ⟨max entry.1.length bound, List.forall_mem_cons.2 ⟨Nat.le_max_left _ _, ?_⟩⟩
      exact fun other among => (longest other among).trans (Nat.le_max_right _ _)
  refine ⟨bound, fun key longer => ?_⟩
  cases found : table.get? key with
  | none => rfl
  | some value =>
    have short := longest _ (Table.mem_of_get?_eq_some found)
    dsimp only at short
    omega

/-- Whatever the table, some name is not settled by a single lookup. -/
theorem exists_package_package_ne (renames : Renames) :
    ∃ name, renames.package (renames.package name) ≠ renames.package name := by
  obtain ⟨bound, unknown⟩ := exists_forall_get?_eq_none renames.packages
  -- A name that the table does not know, behind two package sets.
  let name := String.ofList (List.replicate (bound + 1) 'a')
  have length : name.length = bound + 1 := by simp [name]
  have inner : renames.packages.get? name = none := unknown name (by omega)
  have outer : renames.packages.get? ("pkgs." ++ name) = none :=
    unknown _ (by rw [String.length_append]; omega)
  refine ⟨"pkgs." ++ ("pkgs." ++ name), ?_⟩
  rw [package_eq renames ("pkgs." ++ ("pkgs." ++ name)), bareName_append, outer, Option.getD_none,
    package_eq, bareName_append, inner, Option.getD_none]
  -- Each lookup takes one of the two package sets away.
  intro same
  have lengths := congrArg String.length same
  rw [String.length_append] at lengths
  have positive : 0 < "pkgs.".length := by decide
  omega

end NixKeeper.Renames
