import Mathlib.Data.List.Pairwise

/-! Lists of items that are known by their names: an item is changed where it is there, and else added. -/

namespace NixKeeper.Files

variable {α β : Type}

/-- Items of different names. -/
def DistinctBy (name : α → String) (items : List α) : Prop :=
  items.Pairwise fun first second => name first ≠ name second

/-- Of items of different names only one has a given name. -/
theorem DistinctBy.eq_of_name_eq {name : α → String} {items : List α} {first second : α}
    (distinct : DistinctBy name items) (firstWithin : first ∈ items) (secondWithin : second ∈ items)
    (same : name first = name second) : first = second := by
  have symmetric : Std.Symm fun first second => name first ≠ name second := ⟨fun _ _ => Ne.symm⟩
  -- Two different items would be a pair of items with one name.
  by_contra different
  exact List.Pairwise.forall distinct firstWithin secondWithin different same

variable (name : α → String) (key : β → String) (change : β → α → α) (fresh : β → α)

/-- The items with an entry: the item of its name is changed, or a new item is added. -/
def entered (items : List α) (entry : β) : List α :=
  -- A known item is changed in its place, and a new one goes to the end.
  if items.any (name · == key entry) then
    items.map fun item => if name item = key entry then change entry item else item
  else items ++ [fresh entry]

/-- An item changed by the entry of its name, if there is one. -/
def revised (entries : List β) (item : α) : α :=
  -- The first entry of the name is the one that counts.
  match entries.find? (key · == name item) with
  | some entry => change entry item
  | none => item

/-- The entries whose names are new to a list. -/
def newTo (items : List α) (entries : List β) : List β :=
  entries.filter fun entry => !items.any (name · == key entry)

variable {name key change fresh}

/-- An item whose name no entry has stays as it is. -/
theorem revised_of_absent {entries : List β} {item : α}
    (absent : ∀ entry ∈ entries, key entry ≠ name item) :
    revised name key change entries item = item := by
  have none : entries.find? (key · == name item) = none := by
    simpa [List.find?_eq_none] using absent
  -- No entry is found for the item, so nothing is done to it.
  rw [revised, none]

/-- The first entry counts if it has the name of the item. -/
theorem revised_cons (entry : β) (rest : List β) (item : α) :
    revised name key change (entry :: rest) item =
      if key entry = name item then change entry item else revised name key change rest item := by
  rw [revised, List.find?_cons]
  -- The first entry is found, or passed by the search.
  by_cases same : key entry = name item
  · rw [beq_iff_eq.2 same, if_pos same]
  · rw [beq_eq_false_iff_ne.2 same, if_neg same]
    rfl

/-- A name is new to a list if it belongs to none of the items. -/
theorem any_eq_false_of_new {items : List α} {entry : β}
    (new : ∀ item ∈ items, name item ≠ key entry) : items.any (name · == key entry) = false := by
  -- The test looks for equal names, of which there are none.
  simpa [List.any_eq_false] using new

/-- Items that are changed by the entry of their name keep their names. -/
theorem map_name_changed (keeps : ∀ entry item, name (change entry item) = name item)
    (items : List α) (entry : β) :
    (items.map fun item => if name item = key entry then change entry item else item).map name =
      items.map name := by
  rw [List.map_map]
  -- Whether an item is changed or not, its name is the same.
  refine List.map_congr_left fun item _ => ?_
  rw [Function.comp_apply]
  split
  · exact keeps entry item
  · rfl

/-- Which names are new depends on the names alone. -/
theorem newTo_of_names {items others : List α} (same : items.map name = others.map name)
    (entries : List β) : newTo name key items entries = newTo name key others entries := by
  -- An item of the name is looked for among the names only.
  have byName (items : List α) (entry : β) :
      items.any (name · == key entry) = (items.map name).any (· == key entry) := by
    rw [List.any_map]
    rfl
  simp only [newTo, byName, same]

/-- An entry whose name is there already is not new. -/
theorem newTo_cons_of_known {items : List α} {entry : β} (rest : List β)
    (known : items.any (name · == key entry) = true) :
    newTo name key items (entry :: rest) = newTo name key items rest := by
  -- A known entry is dropped by the filter.
  rw [newTo, List.filter_cons, known]
  rfl

/-- An entry whose name is not there is new. -/
theorem newTo_cons_of_new {items : List α} {entry : β} (rest : List β)
    (absent : items.any (name · == key entry) = false) :
    newTo name key items (entry :: rest) = entry :: newTo name key items rest := by
  -- A new entry is kept by the filter.
  rw [newTo, List.filter_cons, absent]
  rfl

/-- One more item makes no entry of another name known. -/
theorem newTo_concat {items : List α} {item : α} {entries : List β}
    (apart : ∀ entry ∈ entries, name item ≠ key entry) :
    newTo name key (items ++ [item]) entries = newTo name key items entries := by
  refine List.filter_congr fun entry among => ?_
  -- The added item has a name of its own, so it makes none of the entries known.
  have other : (name item == key entry) = false := beq_eq_false_iff_ne.2 (apart entry among)
  simp [other]

/-- Entries of different names change the items that are there, and the others are added in order. -/
theorem foldl_entered {entries : List β} (keeps : ∀ entry item, name (change entry item) = name item)
    (named : ∀ entry, name (fresh entry) = key entry) (distinct : DistinctBy key entries)
    (items : List α) :
    entries.foldl (entered name key change fresh) items =
      items.map (revised name key change entries) ++ (newTo name key items entries).map fresh := by
  -- The items change with every entry, so they are left open.
  induction entries generalizing items with
  | nil =>
    rw [newTo, List.filter_nil, List.map_nil, List.append_nil]
    exact (List.map_id items).symm
  | cons entry rest ih =>
    obtain ⟨apart, laterDistinct⟩ := List.pairwise_cons.1 distinct
    -- The entry changes no item that a later entry changes.
    have once (item : α) (same : name item = key entry) :
        revised name key change rest item = item :=
      revised_of_absent fun later among => same ▸ (apart later among).symm
    rw [List.foldl_cons, ih laterDistinct, entered]
    cases known : items.any (name · == key entry) with
    | true =>
      rw [if_pos rfl, newTo_of_names (map_name_changed keeps items entry),
        newTo_cons_of_known rest known, List.map_map]
      congr 1
      refine List.map_congr_left fun item _ => ?_
      rw [Function.comp_apply, revised_cons]
      by_cases same : name item = key entry
      · rw [if_pos same, if_pos same.symm]
        exact once _ ((keeps entry item).trans same)
      · rw [if_neg same, if_neg (Ne.symm same)]
    | false =>
      have unchanged : items.map (revised name key change rest) =
          items.map (revised name key change (entry :: rest)) := by
        refine List.map_congr_left fun item within => ?_
        have different : key entry ≠ name item := by
          intro same
          have noName := List.any_eq_false.1 known item within
          exact noName (beq_iff_eq.2 same.symm)
        rw [revised_cons, if_neg different]
      -- The item that is added hides no later entry.
      have others : newTo name key (items ++ [fresh entry]) rest = newTo name key items rest :=
        newTo_concat fun later among => (named entry).symm ▸ apart later among
      rw [if_neg Bool.false_ne_true, others, newTo_cons_of_new rest known, List.map_append,
        List.map_singleton, once _ (named entry), unchanged, List.map_cons, List.append_assoc,
        List.singleton_append]

/-- Entries of new names are added in their order. -/
theorem foldl_entered_of_new {items : List α} {entries : List β}
    (keeps : ∀ entry item, name (change entry item) = name item)
    (named : ∀ entry, name (fresh entry) = key entry) (distinct : DistinctBy key entries)
    (new : ∀ entry ∈ entries, ∀ item ∈ items, name item ≠ key entry) :
    entries.foldl (entered name key change fresh) items = items ++ entries.map fresh := by
  -- No item has the name of an entry, so nothing is revised and every entry is new.
  have unchanged : items.map (revised name key change entries) = items := by
    refine (List.map_congr_left fun item within => ?_).trans (List.map_id items)
    exact revised_of_absent fun entry among => (new entry among item within).symm
  have all : newTo name key items entries = entries := by
    refine List.filter_eq_self.2 fun entry among => ?_
    rw [any_eq_false_of_new (new entry among)]
    rfl
  rw [foldl_entered keeps named distinct, unchanged, all]

/-- Entries that are there already, and change nothing, leave the items as they are. -/
theorem foldl_entered_of_known {items : List α} {entries : List β}
    (known : ∀ entry ∈ entries, ∃ item ∈ items, name item = key entry)
    (same : ∀ entry ∈ entries, ∀ item ∈ items, name item = key entry → change entry item = item) :
    entries.foldl (entered name key change fresh) items = items := by
  induction entries with
  | nil => rfl
  | cons entry rest ih =>
    obtain ⟨⟨item, within, hasName⟩, laterKnown⟩ := List.forall_mem_cons.1 known
    obtain ⟨sameHere, laterSame⟩ := List.forall_mem_cons.1 same
    -- The first entry finds an item of its name, and changes nothing about it.
    have here : entered name key change fresh items entry = items := by
      have present : items.any (name · == key entry) = true :=
        List.any_eq_true.2 ⟨item, within, beq_iff_eq.2 hasName⟩
      rw [entered, if_pos present]
      refine (List.map_congr_left fun item within => ?_).trans (List.map_id items)
      split
      · exact sameHere item within ‹_›
      · rfl
    rw [List.foldl_cons, here]
    exact ih laterKnown laterSame

/-- An item that is changed in its place, but keeps its name, leaves the names as they are. -/
theorem map_modify_of_keeps {items : List α} (index : Nat) {update : α → α}
    (keeps : ∀ item, name (update item) = name item) :
    (items.modify index update).map name = items.map name := by
  induction items generalizing index with
  -- The changed item is the first one or further on.
  | nil => cases index <;> rfl
  | cons first rest ih =>
    cases index with
    | zero => rw [List.modify_zero_cons, List.map_cons, keeps, List.map_cons]
    | succ before => rw [List.modify_succ_cons, List.map_cons, ih, List.map_cons]

/-- Changes that agree on all items change an item in its place in the same way. -/
theorem modify_congr {items : List α} {first second : α → α} (index : Nat)
    (same : ∀ item ∈ items, first item = second item) :
    items.modify index first = items.modify index second := by
  induction items generalizing index with
  -- The item to change is the first one, or one of the rest.
  | nil => cases index <;> rfl
  | cons item rest ih =>
    obtain ⟨here, later⟩ := List.forall_mem_cons.1 same
    cases index with
    | zero => rw [List.modify_zero_cons, List.modify_zero_cons, here]
    | succ before => rw [List.modify_succ_cons, List.modify_succ_cons, ih before later]

/-- What holds of all items, also if they are changed, holds of all after a change of one. -/
theorem forall_mem_modify {items : List α} {good : α → Prop} (all : ∀ item ∈ items, good item)
    (index : Nat) {update : α → α} (updated : ∀ item, good item → good (update item)) :
    ∀ item ∈ items.modify index update, good item := by
  -- The index counts down along the list, until the item is reached.
  induction items generalizing index with
  | nil => cases index <;> exact all
  | cons first rest ih =>
    obtain ⟨here, later⟩ := List.forall_mem_cons.1 all
    cases index with
    | zero => exact List.forall_mem_cons.2 ⟨updated first here, later⟩
    | succ before => exact List.forall_mem_cons.2 ⟨here, ih later before⟩

/-- The item at the place of a name is the only one that has it, if all names are different. -/
theorem modify_of_findIdx? {items : List α} {wanted : String} {index : Nat} (update : α → α)
    (distinct : DistinctBy name items) (found : items.findIdx? (name · == wanted) = some index) :
    items.modify index update =
      items.map fun item => if name item = wanted then update item else item := by
  -- The search stops at the first item of the name, and behind it no other one has the name.
  induction items generalizing index with
  | nil => cases found
  | cons first rest ih =>
    obtain ⟨apart, laterDistinct⟩ := List.pairwise_cons.1 distinct
    rw [List.findIdx?_cons] at found
    by_cases here : name first = wanted
    · rw [if_pos (beq_iff_eq.2 here)] at found
      obtain rfl := Option.some.inj found
      have others : rest.map (fun item => if name item = wanted then update item else item) = rest := by
        refine (List.map_congr_left fun item within => ?_).trans (List.map_id rest)
        exact if_neg fun same => apart item within (here.trans same.symm)
      rw [List.map_cons, if_pos here, others, List.modify_zero_cons]
    · rw [if_neg (by simpa using here)] at found
      obtain ⟨before, foundLater, rfl⟩ := Option.map_eq_some_iff.1 found
      rw [List.modify_succ_cons, List.map_cons, if_neg here, ih laterDistinct foundLater]

/-- An entry keeps the names of a list different from one another. -/
theorem DistinctBy.entered {items : List α} (distinct : DistinctBy name items) (entry : β)
    (keeps : ∀ entry item, name (change entry item) = name item)
    (named : ∀ entry, name (fresh entry) = key entry) :
    DistinctBy name (entered name key change fresh items entry) := by
  unfold Files.entered
  -- A known entry changes an item and leaves all names alone; a new one has a name of its own.
  split
  · refine List.pairwise_map.1 ?_
    rw [map_name_changed keeps]
    exact List.pairwise_map.2 distinct
  · rename_i absent
    refine List.pairwise_append.2 ⟨distinct, List.pairwise_singleton _ _, ?_⟩
    intro item within last isLast same
    rw [List.mem_singleton.1 isLast, named] at same
    exact absent (List.any_eq_true.2 ⟨item, within, beq_iff_eq.2 same⟩)

/-- A name that is found at a place is among the names. -/
theorem mem_map_of_findIdx? {items : List α} {wanted : String} {index : Nat}
    (found : items.findIdx? (name · == wanted) = some index) : wanted ∈ items.map name := by
  have present : items.any (name · == wanted) = true := by
    rw [← List.findIdx?_isSome, found, Option.isSome_some]
  -- A search that succeeds has met the name.
  simpa using present

/-- A name that is found nowhere is not among the names. -/
theorem not_mem_map_of_findIdx? {items : List α} {wanted : String}
    (absent : items.findIdx? (name · == wanted) = none) : wanted ∉ items.map name := by
  -- A search that fails has looked at every item.
  simpa [List.findIdx?_eq_none_iff] using absent

/-- The names with another one, which follows the others unless it is among them. -/
def withName (names : List String) (name : String) : List String :=
  if name ∈ names then names else names ++ [name]

/-- A name that is among the others is not entered again. -/
theorem withName_of_mem {names : List String} {name : String} (known : name ∈ names) :
    withName names name = names :=
  -- A known name is not entered again.
  if_pos known

/-- A new name follows the others. -/
theorem withName_of_not_mem {names : List String} {name : String} (new : name ∉ names) :
    withName names name = names ++ [name] :=
  -- A new name goes to the end.
  if_neg new

/-- Different names stay different when another one is entered. -/
theorem nodup_withName {names : List String} (distinct : names.Nodup) (name : String) :
    (withName names name).Nodup := by
  -- A name that is known already changes nothing.
  by_cases known : name ∈ names
  · rw [withName_of_mem known]
    exact distinct
  · -- The new name is none of those before it.
    have apart : ∀ other ∈ names, other ≠ name := by
      intro other among same
      exact known (same ▸ among)
    rw [withName_of_not_mem known]
    simpa [List.nodup_append, distinct] using apart

/-- Different names that are entered one after another follow those that are there, unless they are. -/
theorem foldl_withName {names others : List String} (distinct : others.Nodup) :
    others.foldl withName names = names ++ others.filter (· ∉ names) := by
  -- Each name that is entered is a known one for those that follow, but these are others.
  induction others generalizing names with
  | nil => simp
  | cons name rest ih =>
    obtain ⟨apart, laterDistinct⟩ := List.nodup_cons.1 distinct
    rw [List.foldl_cons, ih laterDistinct, List.filter_cons]
    by_cases known : name ∈ names
    · simp [withName_of_mem known, known]
    · -- No later name is the one that has been added.
      have same : rest.filter (· ∉ names ++ [name]) = rest.filter (· ∉ names) := by
        refine List.filter_congr fun other among => ?_
        have different : other ≠ name := fun same => apart (same ▸ among)
        simp [different]
      rw [withName_of_not_mem known, same]
      simp [known]

end NixKeeper.Files
