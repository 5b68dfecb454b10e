/-! Tables from text keys to values, kept in the order of their keys. -/

namespace NixKeeper

/-- A finite map whose entries stand in strictly increasing order of their keys. -/
structure Table (α : Type) where
  /-- The entries in order. -/
  entries : List (String × α)
  /-- Keys increase strictly, so none occurs twice. -/
  sorted : entries.Pairwise fun first second => first.1 < second.1
deriving DecidableEq

namespace Table

variable {α : Type}

/-- The table without entries. -/
def empty : Table α :=
  ⟨[], .nil⟩

instance : EmptyCollection (Table α) := ⟨empty⟩

instance : Inhabited (Table α) := ⟨empty⟩

/-- Places an entry in an ordered list, replacing the one that has its key. -/
def place (key : String) (value : α) : List (String × α) → List (String × α)
  | [] => [(key, value)]
  | entry :: rest =>
    -- The order of the keys tells the place without looking further.
    if key < entry.1 then (key, value) :: entry :: rest
    else if key = entry.1 then (key, value) :: rest
    else entry :: place key value rest

/-- A key of the list after placing is the placed one or was there before. -/
theorem eq_or_mem_of_mem_place {key : String} {value : α} {entries : List (String × α)}
    {entry : String × α} (member : entry ∈ place key value entries) :
    entry = (key, value) ∨ entry ∈ entries := by
  -- The entry is placed at the head, takes the place of the head, or goes further down.
  induction entries with
  | nil => simpa [place] using member
  | cons first rest ih =>
    unfold place at member
    split at member
    · simpa using member
    · split at member
      · rcases List.mem_cons.1 member with same | later
        · exact .inl same
        · exact .inr (List.mem_cons_of_mem _ later)
      · rcases List.mem_cons.1 member with same | later
        · exact .inr (same ▸ List.mem_cons_self)
        · rcases ih later with placed | kept
          · exact .inl placed
          · exact .inr (List.mem_cons_of_mem _ kept)

/-- Placing an entry keeps the order of the keys. -/
theorem sorted_place (key : String) (value : α) {entries : List (String × α)}
    (sorted : entries.Pairwise fun first second => first.1 < second.1) :
    (place key value entries).Pairwise fun first second => first.1 < second.1 := by
  -- Keys before the place of the entry are less, and keys behind it are greater.
  induction entries with
  | nil => simp [place]
  | cons first rest ih =>
    obtain ⟨ahead, behind⟩ := List.pairwise_cons.1 sorted
    unfold place
    split
    · rename_i less
      refine List.pairwise_cons.2 ⟨?_, sorted⟩
      intro entry member
      rcases List.mem_cons.1 member with same | later
      · exact same ▸ less
      · exact String.lt_trans less (ahead entry later)
    · rename_i notLess
      split
      · rename_i same
        exact List.pairwise_cons.2 ⟨fun entry member => same ▸ ahead entry member, behind⟩
      · rename_i different
        refine List.pairwise_cons.2 ⟨?_, ih behind⟩
        intro entry member
        rcases eq_or_mem_of_mem_place member with placed | kept
        · -- Keys are totally ordered, and two of the three cases are excluded.
          rw [placed]
          refine Decidable.byContradiction fun notGreater => different ?_
          exact String.le_antisymm (String.not_lt.1 notGreater) (String.not_lt.1 notLess)
        · exact ahead entry kept

/-- Adds an entry, replacing the one that has its key. -/
def insert (table : Table α) (key : String) (value : α) : Table α :=
  ⟨place key value table.entries, sorted_place key value table.sorted⟩

/-- The value stored under a key. -/
def get? (table : Table α) (key : String) : Option α :=
  table.entries.lookup key

/-- The table without the entry of a key. -/
def erase (table : Table α) (key : String) : Table α :=
  ⟨table.entries.filter (·.1 != key), table.sorted.filter _⟩

/-- The keys in order. -/
def keys (table : Table α) : List String :=
  table.entries.map (·.1)

/-- The table has no entry. -/
def isEmpty (table : Table α) : Bool :=
  table.entries.isEmpty

/-- The table of a list of entries, in which a later entry replaces an earlier one. -/
def ofList (entries : List (String × α)) : Table α :=
  -- Entries are added in turn, so the last one of a key stays.
  entries.foldl (fun table entry => table.insert entry.1 entry.2) empty

/-- The entries of `upper` laid over those of `lower`. -/
def overlay (lower upper : Table α) : Table α :=
  -- Adding the upper entries last lets them win.
  upper.entries.foldl (fun table entry => table.insert entry.1 entry.2) lower

end Table

end NixKeeper
