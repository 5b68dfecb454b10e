import Mathlib.Data.List.Infix
import NixKeeper.Proofs.Model.Renames

/-!
Where the built-in tables move services and options.

No current name in them is a former one, and no service comes from two others. The only option that moves is
the layout of the keyboard.
-/

namespace NixKeeper.Renames

/-- A former name leads to the current one. -/
theorem service_of_mem {renames : Renames} {former current : String}
    (among : (former, current) ∈ renames.services.entries) : renames.service former = current := by
  -- The keys of the table are distinct, so its entry is what is found.
  rw [service, Table.get?_eq_some_of_mem among, Option.getD_some]

/-- A name that is no former one stays. -/
theorem service_of_unmoved {renames : Renames} {name : String}
    (unmoved : ∀ entry ∈ renames.services.entries, entry.1 ≠ name) : renames.service name = name := by
  -- What is not found in the table stays.
  cases moved : renames.services.get? name with
  | none => rw [service, moved, Option.getD_none]
  | some current => exact absurd rfl (unmoved _ (Table.mem_of_get?_eq_some moved))

/-- The services that have moved, in the order of their former names. -/
theorem entries_builtin_services : builtin.services.entries =
    [("services.xserver.desktopManager.gnome", "services.desktopManager.gnome"),
      ("services.xserver.desktopManager.plasma5", "services.desktopManager.plasma5"),
      ("services.xserver.desktopManager.plasma6", "services.desktopManager.plasma6"),
      ("services.xserver.displayManager.gdm", "services.displayManager.gdm"),
      ("services.xserver.displayManager.sddm", "services.displayManager.sddm")] := by
  -- The table is a closed term.
  decide

/-- The service that a current name leads to is the one of that name. -/
theorem builtin_service_of_current {former current : String}
    (among : (former, current) ∈ builtin.services.entries) : builtin.service current = current := by
  -- The names are few enough to compare each current one with all former ones.
  refine service_of_unmoved ?_
  rw [entries_builtin_services] at among ⊢
  simp only [List.mem_cons, Prod.mk.injEq, List.not_mem_nil, or_false] at among
  rcases among with ⟨-, rfl⟩ | ⟨-, rfl⟩ | ⟨-, rfl⟩ | ⟨-, rfl⟩ | ⟨-, rfl⟩ <;> simp

/-- No service comes from two others. -/
theorem eq_of_mem_builtin_services {first second current : String}
    (firstMoved : (first, current) ∈ builtin.services.entries)
    (secondMoved : (second, current) ∈ builtin.services.entries) : first = second := by
  -- The five new names are pairwise different.
  rw [entries_builtin_services] at firstMoved secondMoved
  simp only [List.mem_cons, Prod.mk.injEq, List.not_mem_nil, or_false] at firstMoved secondMoved
  rcases firstMoved with ⟨rfl, rfl⟩ | ⟨rfl, rfl⟩ | ⟨rfl, rfl⟩ | ⟨rfl, rfl⟩ | ⟨rfl, rfl⟩ <;>
    (simp at secondMoved; exact secondMoved.symm)

/-- A former name is not its own current one. -/
theorem ne_of_mem_builtin_services {former current : String}
    (among : (former, current) ∈ builtin.services.entries) : former ≠ current := by
  rintro rfl
  -- The table has five entries, which are looked at one by one.
  rw [entries_builtin_services] at among
  simp only [List.mem_cons, Prod.mk.injEq, List.not_mem_nil, or_false] at among
  rcases among with ⟨rfl, same⟩ | ⟨rfl, same⟩ | ⟨rfl, same⟩ | ⟨rfl, same⟩ | ⟨rfl, same⟩ <;>
    exact absurd same (by simp)

/--
Two names lead to one service exactly if they are one name, or if one of them is the former name that the
other has replaced.
-/
theorem builtin_service_eq_iff {first second : String} :
    builtin.service first = builtin.service second ↔ first = second ∨
      (first, second) ∈ builtin.services.entries ∨ (second, first) ∈ builtin.services.entries := by
  constructor
  · intro same
    -- Either name may have moved or not; no current name moves again.
    cases firstMoved : builtin.services.get? first with
    | none =>
      have firstStays : builtin.service first = first := by rw [service, firstMoved, Option.getD_none]
      cases secondMoved : builtin.services.get? second with
      | none =>
        have secondStays : builtin.service second = second := by
          rw [service, secondMoved, Option.getD_none]
        exact .inl (by rw [← firstStays, same, secondStays])
      | some current =>
        have among := Table.mem_of_get?_eq_some secondMoved
        rw [firstStays, service_of_mem among] at same
        exact .inr (.inr (same ▸ among))
    | some current =>
      have among := Table.mem_of_get?_eq_some firstMoved
      rw [service_of_mem among] at same
      cases secondMoved : builtin.services.get? second with
      | none =>
        have secondStays : builtin.service second = second := by
          rw [service, secondMoved, Option.getD_none]
        rw [secondStays] at same
        exact .inr (.inl (same ▸ among))
      | some other =>
        have alsoAmong := Table.mem_of_get?_eq_some secondMoved
        rw [service_of_mem alsoAmong] at same
        exact .inl (eq_of_mem_builtin_services among (same ▸ alsoAmong))
  · -- A current name stays, so both names lead to it.
    rintro (rfl | among | among)
    · rfl
    · rw [service_of_mem among, builtin_service_of_current among]
    · rw [service_of_mem among, builtin_service_of_current among]

/-- An option that is not the layout of the keyboard keeps its key. -/
theorem builtin_option_of_ne {service key : String}
    (other : service ++ "." ++ key ≠ "services.xserver.layout") : builtin.option service key = key := by
  have entries : builtin.options.entries =
      [("services.xserver.layout", "services.xserver.xkb.layout")] := rfl
  -- The table has a single entry.
  have unknown : builtin.options.get? (service ++ "." ++ key) = none := by
    rw [Table.get?, entries, Table.lookup_cons, if_neg other]
    rfl
  rw [option, unknown]

/-- The layout of the keyboard is an option of one service, and of another one that leads there. -/
theorem eq_of_layoutPath {service key : String}
    (layout : service ++ "." ++ key = "services.xserver.layout") :
    service = "services" ∧ key = "xserver.layout" ∨ service = "services.xserver" ∧ key = "layout" := by
  have letters : service.toList ++ '.' :: key.toList = "services.xserver.layout".toList := by
    rw [← layout, String.toList_append, String.toList_append, List.append_assoc]
    rfl
  -- The path has only two points at which it can be divided.
  have points : ∀ front ∈ "services.xserver.layout".toList.inits,
      ("services.xserver.layout".toList.drop front.length).head? = some '.' →
        front = "services".toList ∨ front = "services.xserver".toList := by
    decide
  have rest : "services.xserver.layout".toList.drop service.toList.length = '.' :: key.toList := by
    rw [← letters, List.drop_left]
  rcases points _ ((List.mem_inits _ _).2 (letters ▸ List.prefix_append _ _)) (by rw [rest]; rfl)
    with same | same <;> rw [same] at rest
  · exact .inl ⟨String.toList_inj.1 same, String.toList_inj.1 (List.cons.inj rest).2.symm⟩
  · exact .inr ⟨String.toList_inj.1 same, String.toList_inj.1 (List.cons.inj rest).2.symm⟩

/-- The layout of the keyboard is written under its current path, whichever service it is an option of. -/
theorem layoutPath_of_option {service key : String}
    (layout : service ++ "." ++ key = "services.xserver.layout") :
    builtin.service service ++ "." ++ builtin.option service key = "services.xserver.xkb.layout" := by
  -- The path can be divided at either of its two points, and no service of that name has moved.
  rcases eq_of_layoutPath layout with ⟨rfl, rfl⟩ | ⟨rfl, rfl⟩
  · rw [service_of_unmoved (by rw [entries_builtin_services]; simp)]
    rfl
  · rw [service_of_unmoved (by rw [entries_builtin_services]; simp)]
    rfl

end NixKeeper.Renames
