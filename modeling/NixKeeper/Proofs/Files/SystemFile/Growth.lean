import NixKeeper.Proofs.Files.Regaining
import NixKeeper.Proofs.Files.SystemFile.Change

/-!
What every statement of the system file leaves in place.

Packages, services and users are added behind those that are there. Only a user who stands alone under
the placeholder name can lose the name, and only to the first user whose block is opened.
-/

namespace NixKeeper.Files.SystemFile

variable {renames : Renames} {placeholder name : String}

/-- A user who is claimed stands at the claimed place. -/
theorem findIdx?_claimUser (users : List User) (name placeholder : String) :
    (claimUser users name placeholder).2.findIdx? (·.username == name) =
      some (claimUser users name placeholder).1 := by
  unfold claimUser
  split
  · assumption
  · -- A new user stands at the end, unless the placeholder alone takes the name.
    rename_i absent
    have behind : (users ++ [User.named name]).findIdx? (·.username == name) =
        some users.length := by
      rw [List.findIdx?_append, absent]
      simp [User.named]
    split
    · split
      · simp
      · exact behind
    · exact behind

/-- A service that is claimed stands at the claimed place. -/
theorem findIdx?_claimService (services : List Service) (name : String) :
    (claimService services name).2.findIdx? (·.name == name) =
      some (claimService services name).1 := by
  unfold claimService
  split
  · assumption
  · -- A new service stands behind all others.
    rename_i absent
    rw [List.findIdx?_append, absent]
    simp [Service.named]

/-- A place that was found is one of the list. -/
theorem lt_length_of_findIdx? {α : Type} {items : List α} {accepts : α → Bool} {index : Nat}
    (found : items.findIdx? accepts = some index) : index < items.length :=
  -- What is found is an item of the list.
  (List.findIdx?_eq_some_iff_getElem.1 found).1

/-- A claim of a user is repeated where the users of the first claim come first. -/
theorem claimUser_of_front {users later : List User}
    (front : (claimUser users name placeholder).2.map (·.username) <+: later.map (·.username)) :
    claimUser later name placeholder = ((claimUser users name placeholder).1, later) :=
  -- The name was found where it was claimed, and is found there again.
  claimUser_of_found (findIdx?_of_front front (findIdx?_claimUser users name placeholder))

/-- A claim of a service is repeated where the services of the first claim come first. -/
theorem claimService_of_front {services later : List Service}
    (front : (claimService services name).2.map (·.name) <+: later.map (·.name)) :
    claimService later name = ((claimService services name).1, later) := by
  -- The name was found where it was claimed, and is found there again.
  have found := findIdx?_of_front front (findIdx?_claimService services name)
  rw [claimService, found]

/-- Services are claimed behind those that are there. -/
theorem prefix_claimService (services : List Service) (name : String) :
    services <+: (claimService services name).2 := by
  unfold claimService
  -- The services stay as they are, or the new one goes to the end.
  split
  · exact List.prefix_rfl
  · exact List.prefix_append _ _

/-- Where no user may be renamed, users are claimed behind those that are there. -/
theorem Settled.prefix_claimUser {users : List User} (settled : Settled placeholder users)
    (name : String) : users <+: (claimUser users name placeholder).2 := by
  unfold claimUser
  split
  · exact List.prefix_rfl
  · split
    · rename_i only _
      -- A user who stands alone is not the placeholder, so the new one comes behind.
      rw [if_neg (settled.named only rfl)]
      exact List.prefix_append [only] _
    · exact List.prefix_append _ _

/-- After a claim of another name than the placeholder's no user may be renamed. -/
theorem settled_claimUser (users : List User) (other : name ≠ placeholder) :
    Settled placeholder (claimUser users name placeholder).2 := by
  have found := findIdx?_claimUser users name placeholder
  refine ⟨fun empty => ?_, fun only single => ?_⟩
  · rw [empty] at found
    cases found
  · rw [single] at found
    -- A user who stands alone is the one who was claimed.
    have named : only.username = name := by
      by_contra different
      simp [List.findIdx?_cons, different] at found
    exact named ▸ other

/-- Where more users follow, still no user may be renamed. -/
theorem Settled.of_front {users next : List User} (settled : Settled placeholder users)
    (front : users.map (·.username) <+: next.map (·.username)) : Settled placeholder next := by
  obtain ⟨first, rest, rfl⟩ := List.exists_cons_of_ne_nil settled.nonempty
  obtain ⟨more, names⟩ := front
  refine ⟨?_, fun only single => ?_⟩
  · -- The first user keeps the name, whoever follows.
    rintro rfl
    cases names
  · rw [single, List.map_cons, List.cons_append, List.map_singleton] at names
    obtain ⟨same, none⟩ := List.cons.inj names
    have alone : rest = [] := List.map_eq_nil_iff.1 (List.append_eq_nil_iff.1 none).1
    exact same ▸ settled.named first (alone ▸ rfl)

/-- Once the block of a user was opened, no user may be renamed. -/
def Fixed (placeholder : String) (progress : Progress) : Prop :=
  progress.seen ≠ [] → Settled placeholder progress.model.users

/-- What is there stays in place. -/
structure Grows (placeholder : String) (now next : Progress) : Prop where
  /-- The release and the sources are told by the manifest alone. -/
  manifest : next.model.nixVersion = now.model.nixVersion ∧ next.model.sources = now.model.sources
  seen : now.seen <+: next.seen
  packages : now.model.system.packages <+: next.model.system.packages
  services : now.model.system.services.map (·.name) <+: next.model.system.services.map (·.name)
  users : Settled placeholder now.model.users →
    now.model.users.map (·.username) <+: next.model.users.map (·.username)
  fixed : Fixed placeholder now → placeholder ∉ next.seen → Fixed placeholder next

namespace Grows

variable {now next last : Progress}

/-- Where no block of a user is opened, the users only have to keep their names. -/
theorem of_seen
    (manifest : next.model.nixVersion = now.model.nixVersion ∧ next.model.sources = now.model.sources)
    (seen : next.seen = now.seen)
    (packages : now.model.system.packages <+: next.model.system.packages)
    (services : now.model.system.services.map (·.name) <+: next.model.system.services.map (·.name))
    (users : next.model.users.map (·.username) = now.model.users.map (·.username)) :
    Grows placeholder now next := by
  -- No block is opened, so the users keep their names and their places.
  refine ⟨manifest, seen ▸ List.prefix_rfl, packages, services, fun _ => users ▸ List.prefix_rfl, ?_⟩
  intro fixed _ opened
  exact (fixed (seen ▸ opened)).of_front (users ▸ List.prefix_rfl)

/-- Everything stays in place where nothing changes. -/
theorem refl (now : Progress) : Grows placeholder now now :=
  -- Nothing grows, and every part is a front of itself.
  of_seen ⟨rfl, rfl⟩ rfl List.prefix_rfl List.prefix_rfl rfl

/-- What stays in place twice stays in place. -/
theorem trans (first : Grows placeholder now next) (second : Grows placeholder next last) :
    Grows placeholder now last := by
  refine ⟨⟨second.manifest.1.trans first.manifest.1, second.manifest.2.trans first.manifest.2⟩,
    first.seen.trans second.seen, first.packages.trans second.packages,
    first.services.trans second.services, fun settled => ?_, fun fixed unclaimed => ?_⟩
  · have front := first.users settled
    exact front.trans (second.users (settled.of_front front))
  · -- A name that is not seen in the end is not seen in between.
    have before : placeholder ∉ next.seen := fun within => unclaimed (second.seen.subset within)
    exact second.fixed (first.fixed fixed before) unclaimed

end Grows

/-- A line of a user's block keeps the name of the user. -/
theorem username_readUserLine (clean : List Char) (user : User) :
    (readUserLine clean user).username = user.username := by
  unfold readUserLine
  -- No rule for a line of the block sets the name.
  split
  · rfl
  · split
    · rfl
    · split
      · rfl
      · split <;> rfl

/-- A line of a service's block keeps the name of the service. -/
theorem name_readServiceLine (clean : List Char) (service : Service) :
    (readServiceLine clean service).name = service.name := by
  unfold readServiceLine
  -- No line of the block sets the name.
  split
  · rfl
  · split
    · rfl
    · split <;> rfl

/-- A service that is switched on keeps its name. -/
theorem map_name_switched (services : List Service) (index : Nat) :
    (services.modify index fun service => { service with enabled := true }).map (·.name) =
      services.map (·.name) :=
  -- Switching on does not touch the name.
  map_modify_of_keeps index fun _ => rfl

/-- What is there stays in place under every kind of change. -/
theorem grows_of_change {now next : Progress} {statement : Statement}
    (change : Change renames placeholder now statement next.model next.seen) :
    Grows placeholder now next := by
  obtain ⟨model, context, seen⟩ := next
  have claimed (name : String) :=
    (prefix_claimService now.model.system.services name).map (·.name)
  -- Each kind of change appends to one of the lists or changes an item in its place.
  cases change with
  | settings system packages services hardware preset =>
    refine .of_seen ⟨rfl, rfl⟩ rfl ?_ ?_ rfl
    · exact packages ▸ List.prefix_rfl
    · exact services ▸ List.prefix_rfl
  | packages text => exact .of_seen ⟨rfl, rfl⟩ rfl (prefix_collectPackages _ _) List.prefix_rfl rfl
  | user name opens new =>
    refine ⟨⟨rfl, rfl⟩, List.prefix_append _ _, List.prefix_rfl, List.prefix_rfl, fun settled => ?_, ?_⟩
    · exact (settled.prefix_claimUser name).map _
    · intro _ unclaimed _
      refine settled_claimUser _ ?_
      rintro rfl
      exact unclaimed (List.mem_append_right _ (List.mem_singleton.2 rfl))
  | userLine index =>
    refine .of_seen ⟨rfl, rfl⟩ rfl List.prefix_rfl List.prefix_rfl ?_
    exact map_modify_of_keeps _ (username_readUserLine _)
  | service name => exact .of_seen ⟨rfl, rfl⟩ rfl List.prefix_rfl (claimed name) rfl
  | serviceSwitch name =>
    have front := claimed name
    rw [← map_name_switched (claimService now.model.system.services name).2] at front
    exact .of_seen ⟨rfl, rfl⟩ rfl List.prefix_rfl front rfl
  | serviceLine index =>
    refine .of_seen ⟨rfl, rfl⟩ rfl List.prefix_rfl ?_ rfl
    exact (map_modify_of_keeps _ (name_readServiceLine _)) ▸ List.prefix_rfl

/-- What is there stays in place on every line. -/
theorem grows_readStatement (progress : Progress) (statement : Statement) :
    Grows placeholder progress (readStatement renames placeholder progress statement) :=
  -- A statement makes one change, and every change lets the progress grow.
  grows_of_change (change_readStatement renames placeholder progress statement)

/-- What is there stays in place to the end. -/
theorem grows_foldl (found : List Statement) (progress : Progress) :
    Grows placeholder progress (found.foldl (readStatement renames placeholder) progress) := by
  induction found generalizing progress with
  | nil => exact .refl progress
  -- Each statement adds to what the ones before it have read.
  | cons statement rest ih => exact (grows_readStatement progress statement).trans (ih _)

end NixKeeper.Files.SystemFile
