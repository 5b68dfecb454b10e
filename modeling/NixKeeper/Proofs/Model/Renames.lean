import Mathlib.Data.List.Basic
import NixKeeper.Model.Renames
import NixKeeper.Proofs.Table

/-! Current names keep what the former names and the tables of current names have in common. -/

namespace NixKeeper.Renames

/-- All current names in the tables have a property. -/
structure AllCurrent (property : List Char → Prop) (renames : Renames) : Prop where
  packages : ∀ entry ∈ renames.packages.entries, property entry.2.toList
  services : ∀ entry ∈ renames.services.entries, property entry.2.toList
  options : ∀ entry ∈ renames.options.entries, property entry.2.toList

variable {property : List Char → Prop} {renames : Renames}

/-- What is looked up in a table, or else kept, has the property that the table and the name have. -/
theorem getD_get?_of_forall {table : Table String} (all : ∀ entry ∈ table.entries, property entry.2.toList)
    {name : String} (own : property name.toList) (key : String) :
    property ((table.get? key).getD name).toList := by
  -- The name stays, or an entry of the table takes its place.
  cases found : table.get? key with
  | none => exact own
  | some current => exact all _ (Table.mem_of_get?_eq_some found)

namespace AllCurrent

/-- The current path of a service has the property. -/
theorem service (all : AllCurrent property renames) {name : String} (own : property name.toList) :
    property (renames.service name).toList :=
  -- The table of services is the one that is asked.
  getD_get?_of_forall all.services own name

/-- The current path of an option has the property. -/
theorem optionPath (all : AllCurrent property renames) {path : String} (own : property path.toList) :
    property (renames.optionPath path).toList :=
  -- The table of options is the one that is asked.
  getD_get?_of_forall all.options own path

/-- The current name of a package has the property, if parts of texts inherit it. -/
theorem package (all : AllCurrent property renames)
    (inherits : ∀ part text, part <:+: text → property text → property part) {name : String}
    (own : property name.toList) : property (renames.package name).toList := by
  refine getD_get?_of_forall all.packages ?_ _
  rw [String.toList_ofList, Text.dropBeginning]
  -- A name that is not in the table is left as it is, without its prefix.
  cases found : "pkgs.".toList.isPrefixOf? name.toList with
  | none => exact own
  | some rest =>
    have whole := List.append_eq_of_isPrefixOf?_eq_some found
    exact inherits _ _ (whole ▸ (List.suffix_append _ rest).isInfix) own

/-- The current key of an option has the property, if parts of texts inherit it. -/
theorem option (all : AllCurrent property renames)
    (inherits : ∀ part text, part <:+: text → property text → property part) {service key : String}
    (own : property key.toList) : property (renames.option service key).toList := by
  rw [Renames.option]
  cases found : renames.options.get? (service ++ "." ++ key) with
  | none => exact own
  | some path =>
    have current := all.options _ (Table.mem_of_get?_eq_some found)
    -- What is left of a current path is a part of it.
    have below {name rest : String} (through : pathBelow? name path = some rest) :
        property rest.toList := by
      obtain ⟨behind, begins, rfl⟩ := Option.map_eq_some_iff.1 through
      have whole := List.append_eq_of_isPrefixOf?_eq_some begins
      rw [String.toList_ofList]
      exact inherits _ _ (whole ▸ (List.suffix_append _ behind).isInfix) current
    dsimp only
    -- The path may lead through either name of the service, or through neither.
    cases former : pathBelow? service path with
    | some rest => exact below former
    | none =>
      cases moved : pathBelow? (renames.service service) path with
      | some rest => exact below moved
      | none => exact own

end AllCurrent

end NixKeeper.Renames
