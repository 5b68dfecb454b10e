import NixKeeper.Files.Statement
import NixKeeper.Proofs.Files.Entering

/-!
What a second reading of the same statements finds.

The second reading begins with what the first one has left in the end. From then on every field is as
it was left, or as the first reading has it at the same statement.
-/

namespace NixKeeper.Files

variable {α β : Type} {name : α → String}

/-- A field that is read again: it is as it was in the end, or as the first reading has it now. -/
def Regained (field : α → β) (now : Option α) (later final : α) : Prop :=
  field later = field final ∨ now.map field = some (field later)

/-- What the first reading has not met yet is as it was in the end. -/
theorem Regained.of_none {field : α → β} {later final : α}
    (regained : Regained field none later final) (now : Option α) :
    Regained field now later final :=
  -- Nothing was read last, so the field was regained by being kept.
  .inl (regained.resolve_right fun same => by cases same)

/-- A field that the first reading has now as in the end is as it was in the end. -/
theorem Regained.eq_of_eq {field : α → β} {now later final : α}
    (regained : Regained field (some now) later final) (same : field now = field final) :
    field later = field final := by
  rcases regained with kept | read
  · exact kept
  -- What was read last is the final value, and that is the value of the field.
  · exact (Option.some.inj read).symm.trans same

/-- At the end of the first reading every field is as it was in the end. -/
theorem Regained.eq {field : α → β} {later final : α}
    (regained : Regained field (some final) later final) : field later = field final :=
  -- The value that was read is the final one itself.
  regained.eq_of_eq rfl

/-- Items that are read again: they have their names already, and their fields are read again. -/
structure Follows (name : α → String) (Agrees : Option α → α → α → Prop)
    (now later final : List α) : Prop where
  names : later.map name = final.map name
  agree : ∀ (index : Nat) item known, later[index]? = some item → final[index]? = some known →
    Agrees now[index]? item known

variable {Agrees : Option α → α → α → Prop} {now next later final : List α}

/-- Where nothing has been read again yet, all is as it was in the end. -/
theorem Follows.refl (agrees : ∀ now item, Agrees now item item) (now final : List α) :
    Follows name Agrees now final final := by
  refine ⟨rfl, fun index item known there inEnd => ?_⟩
  -- Each item is compared with itself.
  obtain rfl := Option.some.inj (there.symm.trans inEnd)
  exact agrees _ _

/-- Nothing changes when the first reading meets a new item. -/
theorem Follows.extend (follows : Follows name Agrees now later final) (front : now <+: next)
    (unmet : ∀ now item known, Agrees none item known → Agrees now item known) :
    Follows name Agrees next later final := by
  refine ⟨follows.names, fun index item known there inEnd => ?_⟩
  have before := follows.agree index item known there inEnd
  -- An item that was met stays at its place; what was not met agrees with anything.
  cases met : now[index]? with
  | none => exact unmet _ _ _ (met ▸ before)
  | some first =>
    obtain ⟨more, rfl⟩ := front
    have within : index < now.length := (List.getElem?_eq_some_iff.1 met).1
    rw [List.getElem?_append_left within]
    exact before

/-- Both readings change an item in the same way. -/
theorem Follows.modify (follows : Follows name Agrees now later final) {index : Nat}
    {update : α → α} (keeps : ∀ item, name (update item) = name item) (within : index < now.length)
    (same : ∀ now item known, Agrees (some now) item known →
      Agrees (some (update now)) (update item) known) :
    Follows name Agrees (now.modify index update) (later.modify index update) final := by
  refine ⟨(map_modify_of_keeps index keeps).trans follows.names, fun other item known there inEnd => ?_⟩
  -- Only the item at the index is changed, and in both lists.
  by_cases here : index = other
  · subst here
    obtain ⟨before, met, rfl⟩ : ∃ before, later[index]? = some before ∧ update before = item := by
      simpa [List.getElem?_modify] using there
    have changed : (now.modify index update)[index]? = some (update now[index]) := by
      simp [within]
    have agrees := follows.agree index before known met inEnd
    rw [List.getElem?_eq_getElem within] at agrees
    rw [changed]
    exact same _ _ _ agrees
  · have untouched (items : List α) : (items.modify index update)[other]? = items[other]? := by
      simp [here]
    rw [untouched] at there ⊢
    exact follows.agree other item known there inEnd

/-- Items whose fields have all been regained are as they were in the end. -/
theorem Follows.eq (follows : Follows name Agrees final later final)
    (same : ∀ item known, Agrees (some known) item known → name item = name known → item = known) :
    later = final := by
  have lengths : later.length = final.length := by
    simpa using congrArg List.length follows.names
  -- The lists have the same names, so they are compared item by item.
  refine List.ext_getElem lengths fun index within inEnd => ?_
  have agrees := follows.agree index _ _ (List.getElem?_eq_getElem within)
    (List.getElem?_eq_getElem inEnd)
  rw [List.getElem?_eq_getElem inEnd] at agrees
  refine same _ _ agrees ?_
  have names : (later.map name)[index]? = (final.map name)[index]? := by rw [follows.names]
  simpa [within, inEnd] using names

/-- An item stands at the same place where more items may follow. -/
theorem findIdx?_of_front {wanted : String} {index : Nat}
    (front : next.map name <+: later.map name)
    (found : next.findIdx? (name · == wanted) = some index) :
    later.findIdx? (name · == wanted) = some index := by
  -- The search looks at names alone.
  have byName (items : List α) :
      items.findIdx? (name · == wanted) = (items.map name).findIdx? (· == wanted) := by
    rw [List.findIdx?_map]
    rfl
  rw [byName] at found ⊢
  exact front.findIdx?_eq_some found

section

variable {renames : Renames}

/-- Packages are only added behind others. -/
theorem prefix_addPackage (packages : List Package) (package : Package) :
    packages <+: (addPackage packages package).2 := by
  rw [addPackage]
  -- The package is known and nothing is done, or it goes to the end.
  split
  · exact List.prefix_rfl
  · exact List.prefix_append _ _

/-- A package that is added is there. -/
theorem name_mem_addPackage (packages : List Package) (package : Package) :
    package.name ∈ (addPackage packages package).2.map (·.name) := by
  rw [addPackage]
  -- The name is known, or it is that of the package put behind.
  split
  · rename_i known
    simpa using known
  · simp

/-- A package that is there is not added. -/
theorem addPackage_of_known {packages : List Package} {package : Package}
    (known : package.name ∈ packages.map (·.name)) : (addPackage packages package).2 = packages := by
  -- The test for a known name is the membership, put as a Boolean.
  have present : packages.any (·.name == package.name) = true := by simpa using known
  rw [addPackage, if_pos present]

/-- Packages that are added one after another stand behind those that are there. -/
theorem prefix_foldl_addPackage (words : List (List Char)) (packages : List Package) :
    packages <+: words.foldl (fun packages word =>
      (addPackage packages ⟨renames.package (String.ofList word), "Imported"⟩).2) packages := by
  induction words generalizing packages with
  | nil => exact List.prefix_rfl
  -- One word after another only adds to the end.
  | cons word rest ih => exact (prefix_addPackage _ _).trans (ih _)

/-- A list of packages is read behind those that are there. -/
theorem prefix_collectPackages (packages : List Package) (text : List Char) :
    packages <+: collectPackages renames packages text :=
  -- Collecting is adding the words that are found.
  prefix_foldl_addPackage (packageWords text) packages

/-- A list of packages adds nothing where all that it names are there. -/
theorem collectPackages_of_subset {packages known : List Package} {text : List Char}
    (within : (collectPackages renames packages text).map (·.name) ⊆ known.map (·.name)) :
    collectPackages renames known text = known := by
  rw [collectPackages] at within ⊢
  generalize packageWords text = words at within
  -- The second list stays fixed, while the first one grows along with the words.
  induction words generalizing packages with
  | nil => rfl
  | cons word rest ih =>
    rw [List.foldl_cons] at within ⊢
    have present : renames.package (String.ofList word) ∈ known.map (·.name) := by
      apply within
      apply ((prefix_foldl_addPackage rest _).map _).subset
      exact name_mem_addPackage packages ⟨renames.package (String.ofList word), "Imported"⟩
    rw [addPackage_of_known present]
    exact ih within

end

end NixKeeper.Files
