import NixKeeper.Table

/-! Laws of tables: what is found after an insertion, and a table built from its own entries. -/

namespace NixKeeper.Table

variable {α : Type}

/-- A list of entries is looked through from its head. -/
theorem lookup_cons (other : String) (entry : String × α) (rest : List (String × α)) :
    (entry :: rest).lookup other = if other = entry.1 then some entry.2 else rest.lookup other := by
  rw [List.lookup_cons]
  -- The first entry has the key or the rest is asked.
  by_cases same : other = entry.1
  · rw [if_pos same, beq_iff_eq.2 same]
  · rw [if_neg same, beq_eq_false_iff_ne.2 same]

/-- A placed entry is found under its key, and every other key leads to what was there before. -/
theorem lookup_place (key other : String) (value : α) (entries : List (String × α)) :
    (place key value entries).lookup other =
      if other = key then some value else entries.lookup other := by
  -- The entry stands before every entry that has the same key.
  induction entries with
  | nil => rw [place, lookup_cons]
  | cons first rest ih =>
    unfold place
    split
    · rw [lookup_cons]
    · split
      · rename_i taken
        rw [lookup_cons, lookup_cons, ← taken]
        split <;> rfl
      · rename_i different
        rw [lookup_cons, lookup_cons, ih]
        by_cases atFirst : other = first.1
        · rw [if_pos atFirst, if_pos atFirst, if_neg (atFirst ▸ Ne.symm different)]
        · rw [if_neg atFirst, if_neg atFirst]

/-- An inserted value is found under its key, and every other key leads to what was there before. -/
theorem get?_insert (table : Table α) (key other : String) (value : α) :
    (table.insert key value).get? other = if other = key then some value else table.get? other :=
  -- Inserting places the entry.
  lookup_place key other value table.entries

/-- Without the entry of a key nothing is found under it, and every other key leads where it led. -/
theorem get?_erase (table : Table α) (key other : String) :
    (table.erase key).get? other = if other = key then none else table.get? other := by
  obtain ⟨entries, sorted⟩ := table
  rw [get?, get?, erase]
  -- The entries are gone through one by one, each of them kept or dropped.
  induction entries with
  | nil => simp
  | cons entry rest ih =>
    have later := ih (List.pairwise_cons.1 sorted).2
    dsimp only at later ⊢
    rw [List.filter_cons]
    -- An entry that stays hides nothing of what is looked for, since it has another key.
    by_cases removed : entry.1 = key
    · have dropped : (entry.1 != key) = false := by simpa using removed
      rw [dropped, if_neg Bool.false_ne_true, later, lookup_cons, removed]
      split <;> rfl
    · have kept : (entry.1 != key) = true := by simpa using removed
      rw [if_pos kept, lookup_cons, lookup_cons, later]
      by_cases found : other = entry.1
      · rw [if_pos found, if_pos found, if_neg fun same => removed (found ▸ same)]
      · rw [if_neg found, if_neg found]

/-- An entry whose key is greater than all others is placed at the end. -/
theorem place_of_forall_lt {key : String} {entries : List (String × α)} (value : α)
    (last : ∀ entry ∈ entries, entry.1 < key) :
    place key value entries = entries ++ [(key, value)] := by
  induction entries with
  | nil => rfl
  | cons first rest ih =>
    -- Each entry is passed over, because its key is less.
    obtain ⟨less, later⟩ := List.forall_mem_cons.1 last
    have notLess : ¬ key < first.1 := String.lt_asymm less
    have different : key ≠ first.1 := by
      rintro rfl
      exact String.lt_irrefl _ less
    rw [place, if_neg notLess, if_neg different, ih later, List.cons_append]

/-- Entries that stand in order behind those of a table are appended to them. -/
theorem entries_foldl_insert (table : Table α) (rest : List (String × α))
    (ordered : (table.entries ++ rest).Pairwise fun first second => first.1 < second.1) :
    (rest.foldl (fun table entry => table.insert entry.1 entry.2) table).entries =
      table.entries ++ rest := by
  induction rest generalizing table with
  | nil => simp
  | cons entry rest ih =>
    -- The first of them follows all keys of the table, so it is placed at the end.
    have placed : (table.insert entry.1 entry.2).entries = table.entries ++ [entry] :=
      place_of_forall_lt entry.2 fun other within =>
        (List.pairwise_append.1 ordered).2.2 other within entry List.mem_cons_self
    rw [List.foldl_cons, ih _ (by rw [placed]; simpa using ordered), placed, List.append_assoc,
      List.singleton_append]

/-- A table is built again from its own entries. -/
theorem ofList_entries (table : Table α) : ofList table.entries = table := by
  have same : (ofList table.entries).entries = table.entries :=
    entries_foldl_insert empty table.entries table.sorted
  obtain ⟨entries, sorted⟩ := table
  -- Tables are told apart by their entries alone, since the proof of the order is no data.
  generalize built : ofList entries = other at same
  obtain ⟨otherEntries, otherSorted⟩ := other
  cases same
  rfl

/-- An entry that is there already is placed where it stands. -/
theorem place_of_mem {key : String} {value : α} {entries : List (String × α)}
    (ordered : entries.Pairwise fun first second => first.1 < second.1)
    (within : (key, value) ∈ entries) : place key value entries = entries := by
  induction entries with
  | nil => cases within
  | cons first rest ih =>
    -- The order tells that the entry is met before any greater key.
    obtain ⟨ahead, behind⟩ := List.pairwise_cons.1 ordered
    rcases List.mem_cons.1 within with rfl | later
    · rw [place, if_neg (String.lt_irrefl key), if_pos rfl]
    · have less : first.1 < key := ahead _ later
      have different : key ≠ first.1 := by
        rintro rfl
        exact String.lt_irrefl _ less
      rw [place, if_neg (String.lt_asymm less), if_neg different, ih behind later]

/-- Nothing is found under a key that is less than all others. -/
theorem lookup_of_forall_lt {key : String} {entries : List (String × α)}
    (less : ∀ entry ∈ entries, key < entry.1) : entries.lookup key = none := by
  induction entries with
  | nil => rfl
  | cons first rest ih =>
    obtain ⟨here, later⟩ := List.forall_mem_cons.1 less
    -- A key that is less than another one is a different key.
    have different : key ≠ first.1 := by
      rintro rfl
      exact String.lt_irrefl _ here
    rw [lookup_cons, if_neg different, ih later]

/-- The key of the first entry is not less than all keys of entries in which it is found as well. -/
theorem not_lt_of_lookup_eq {entry other : String × α} {rest others : List (String × α)}
    (ordered : (other :: others).Pairwise fun first second => first.1 < second.1)
    (same : (entry :: rest).lookup entry.1 = (other :: others).lookup entry.1) :
    ¬ entry.1 < other.1 := by
  intro less
  have ahead := (List.pairwise_cons.1 ordered).1
  -- If it were less, it would stand before all keys of the second list and be found in the first only.
  have absent : (other :: others).lookup entry.1 = none :=
    lookup_of_forall_lt (List.forall_mem_cons.2
      ⟨less, fun later among => String.lt_trans less (ahead later among)⟩)
  rw [absent, lookup_cons, if_pos rfl] at same
  cases same

/-- Entries in order are known from what is found under each key. -/
theorem eq_of_lookup_eq {first second : List (String × α)}
    (firstOrdered : first.Pairwise fun entry other => entry.1 < other.1)
    (secondOrdered : second.Pairwise fun entry other => entry.1 < other.1)
    (same : ∀ key, first.lookup key = second.lookup key) : first = second := by
  -- Both lists are gone through together; they end together, since no key of an entry is missing.
  induction first generalizing second with
  | nil =>
    cases second with
    | nil => rfl
    | cons entry rest => simpa [lookup_cons] using same entry.1
  | cons entry rest ih =>
    cases second with
    | nil => simpa [lookup_cons] using same entry.1
    | cons other others =>
      obtain ⟨ahead, behind⟩ := List.pairwise_cons.1 firstOrdered
      obtain ⟨otherAhead, otherBehind⟩ := List.pairwise_cons.1 secondOrdered
      -- The less of the two first keys would be found on one side only.
      have notLess := not_lt_of_lookup_eq secondOrdered (same entry.1)
      have notGreater := not_lt_of_lookup_eq firstOrdered (same other.1).symm
      have sameKey : entry.1 = other.1 :=
        String.le_antisymm (String.not_lt.1 notGreater) (String.not_lt.1 notLess)
      have sameValue : entry.2 = other.2 := by
        simpa [lookup_cons, sameKey] using same entry.1
      have later (key : String) : rest.lookup key = others.lookup key := by
        have found := same key
        rw [lookup_cons, lookup_cons, ← sameKey] at found
        by_cases here : key = entry.1
        · rw [here, lookup_of_forall_lt ahead, sameKey, lookup_of_forall_lt otherAhead]
        · rwa [if_neg here, if_neg here] at found
      rw [ih behind otherBehind later, Prod.ext sameKey sameValue]

/-- Tables are the same if the same is found under each key. -/
theorem eq_of_get?_eq {first second : Table α} (same : ∀ key, first.get? key = second.get? key) :
    first = second := by
  obtain ⟨entries, sorted⟩ := first
  obtain ⟨others, otherSorted⟩ := second
  -- The entries are sorted, so what is found decides on them.
  obtain rfl := eq_of_lookup_eq sorted otherSorted same
  rfl

/-- A table that is laid over itself makes no difference. -/
theorem overlay_self (table : Table α) : table.overlay table = table := by
  have each : ∀ entries ⊆ table.entries,
      entries.foldl (fun table entry => table.insert entry.1 entry.2) table = table := by
    -- The entries are inserted one by one, while the table stays as it is.
    intro entries within
    induction entries with
    | nil => rfl
    | cons entry rest ih =>
      obtain ⟨here, later⟩ := List.cons_subset.1 within
      have same : table.insert entry.1 entry.2 = table := by
        obtain ⟨entries, sorted⟩ := table
        simp only [insert, place_of_mem sorted here]
      rw [List.foldl_cons, same, ih later]
  exact each table.entries (List.Subset.refl _)

/-- A key of a table after an insertion is the inserted one or was there before. -/
theorem eq_or_mem_of_mem_keys_insert {table : Table α} {key other : String} {value : α}
    (within : other ∈ (table.insert key value).keys) : other = key ∨ other ∈ table.keys := by
  obtain ⟨entry, among, rfl⟩ := List.mem_map.1 within
  -- An entry of the new table is the one that was placed or an old one.
  rcases eq_or_mem_of_mem_place among with rfl | before
  · exact .inl rfl
  · exact .inr (List.mem_map_of_mem before)

/-- No key of a table occurs twice. -/
theorem nodup_keys (table : Table α) : table.keys.Nodup := by
  rw [keys, List.Nodup, List.pairwise_map]
  -- The keys increase.
  exact table.sorted.imp String.ne_of_lt

/-- A key that is left after a removal was there before. -/
theorem mem_keys_of_mem_keys_erase {table : Table α} {key other : String}
    (within : other ∈ (table.erase key).keys) : other ∈ table.keys := by
  obtain ⟨entry, among, rfl⟩ := List.mem_map.1 within
  -- Erasing is filtering.
  exact List.mem_map_of_mem (List.mem_filter.1 among).1

/-- Without the entry of a key a table is the same if nothing was found under the key. -/
theorem erase_eq_self_iff {table : Table α} {key : String} :
    table.erase key = table ↔ table.get? key = none := by
  constructor
  · intro same
    rw [← same, get?_erase, if_pos rfl]
  · intro absent
    -- Tables are equal if the same is found in them under each key.
    refine eq_of_get?_eq fun other => ?_
    rw [get?_erase]
    split
    · rename_i same
      rw [same, absent]
    · rfl

/-- A key of a table with more entries is one of the table's own or belongs to an entry. -/
theorem mem_keys_foldl_insert {entries : List (String × α)} {table : Table α} {key : String}
    (within : key ∈ (entries.foldl (fun table entry => table.insert entry.1 entry.2) table).keys) :
    key ∈ table.keys ∨ key ∈ entries.map (·.1) := by
  induction entries generalizing table with
  | nil => exact .inl within
  | cons entry rest ih =>
    -- The key was in the table before the later entries were added, or it is one of theirs.
    rcases ih within with inserted | later
    · rcases eq_or_mem_of_mem_keys_insert inserted with rfl | before
      · exact .inr List.mem_cons_self
      · exact .inl before
    · exact .inr (List.mem_cons_of_mem _ later)

/-- Every key of a table that is built from a list is a key of the list. -/
theorem mem_of_mem_keys_ofList {entries : List (String × α)} {key : String}
    (within : key ∈ (ofList entries).keys) : key ∈ entries.map (·.1) :=
  -- The fold begins with the empty table.
  (mem_keys_foldl_insert within).resolve_left List.not_mem_nil

/-- What is found under a key is an entry of the table. -/
theorem mem_of_get?_eq_some {table : Table α} {key : String} {value : α}
    (found : table.get? key = some value) : (key, value) ∈ table.entries := by
  rw [get?] at found
  -- Nothing but the entries matters for what is found, and their order does not matter here.
  generalize table.entries = entries at found ⊢
  induction entries with
  | nil => simp at found
  | cons entry rest ih =>
    rw [lookup_cons] at found
    split at found
    · rename_i same
      rw [same, ← Option.some.inj found]
      exact List.mem_cons_self
    · exact List.mem_cons_of_mem _ (ih found)

/-- An entry of the table is found under its key. -/
theorem get?_eq_some_of_mem {table : Table α} {key : String} {value : α}
    (among : (key, value) ∈ table.entries) : table.get? key = some value := by
  obtain ⟨entries, sorted⟩ := table
  rw [get?]
  dsimp only at among ⊢
  induction entries with
  | nil => cases among
  | cons entry rest ih =>
    -- An entry behind the first one has a greater key.
    obtain ⟨less, later⟩ := List.pairwise_cons.1 sorted
    rcases List.mem_cons.1 among with rfl | behind
    · rw [lookup_cons, if_pos rfl]
    · have other : key ≠ entry.1 := (String.ne_of_lt (less _ behind)).symm
      rw [lookup_cons, if_neg other, ih later behind]

end NixKeeper.Table
