import NixKeeper.Proofs.Table
import NixKeeper.Storage.Memory

/-! What is read from files in memory after a write. -/

namespace NixKeeper.Memory

/-- Every file can be read and written. -/
structure Faultless (memory : Memory) : Prop where
  readable : memory.unreadable = []
  writable : memory.unwritable = []

variable {memory : Memory}

/-- A file out of reach is an error, and every other one is read as it is. -/
theorem readOptional_eq (memory : Memory) (path : Path) :
    Storage.readOptional memory path =
      if path ∈ memory.unreadable then .error (.lockFailed path.text)
      else .ok (memory.file? path) := by
  rw [Storage.readOptional]
  -- A file out of reach is taken to be there, so it is read, and that fails.
  by_cases hidden : path ∈ memory.unreadable
  · simp [Storage.contains, Storage.read, hidden, Except.map]
  · cases found : memory.file? path <;>
      simp [Storage.contains, Storage.read, hidden, found, Except.map]

/-- The files after a write that does not fail. -/
def written (memory : Memory) (path : Path) (text : String) : Memory :=
  -- The count tells a file that was written again from one that was left alone.
  { memory with
    files := memory.files.insert path.text text
    writes := memory.writes + 1 }

/-- A write that fails changes nothing. -/
theorem write_eq (memory : Memory) (path : Path) (text : String) :
    Storage.write memory path text =
      if path ∈ memory.unwritable then (.error (.lockFailed path.text), memory)
      else (.ok (), memory.written path text) := by
  -- The file is refused or it takes the text.
  by_cases refused : path ∈ memory.unwritable <;> simp [Storage.write, refused, written]

/-- Without faults exactly the files that are there are found. -/
theorem Faultless.contains (faultless : memory.Faultless) (path : Path) :
    Storage.contains memory path = (memory.file? path).isSome := by
  -- Only unreadable files are hidden.
  simp [Storage.contains, faultless.readable]

/-- Without faults every file is read as it is. -/
theorem Faultless.readOptional (faultless : memory.Faultless) (path : Path) :
    Storage.readOptional memory path = .ok (memory.file? path) := by
  -- No file is unreadable.
  rw [readOptional_eq, faultless.readable, if_neg List.not_mem_nil]

/-- Without faults every write succeeds. -/
theorem Faultless.write (faultless : memory.Faultless) (path : Path) (text : String) :
    Storage.write memory path text = (.ok (), memory.written path text) := by
  -- No file is refused.
  rw [write_eq, faultless.writable, if_neg List.not_mem_nil]

/-- A write brings in no fault. -/
theorem Faultless.written (faultless : memory.Faultless) (path : Path) (text : String) :
    (memory.written path text).Faultless :=
  -- Writing makes no file unreadable and none refused.
  ⟨faultless.readable, faultless.writable⟩

/-- Paths with the same text are the same path. -/
theorem path_eq_of_text_eq {path other : Path} (same : path.text = other.text) : path = other := by
  -- A path has its text and nothing else.
  cases path
  cases other
  cases same
  rfl

/-- A written text is found at its path, and every other path leads to what was there before. -/
theorem file?_written (memory : Memory) (path other : Path) (text : String) :
    (memory.written path text).file? other =
      if other = path then some text else memory.file? other := by
  -- The files are a table over the texts of their paths.
  rw [file?, Memory.written, Table.get?_insert, file?]
  by_cases same : other = path
  · rw [if_pos same, if_pos (congrArg Path.text same)]
  · rw [if_neg same, if_neg fun equal => same (path_eq_of_text_eq equal)]

/-- The files after several writes that do not fail. -/
def overwritten (memory : Memory) (texts : List (Path × String)) : Memory :=
  texts.foldl (fun memory entry => memory.written entry.1 entry.2) memory

/-- Texts that are written after others are written into what these leave. -/
theorem overwritten_append (memory : Memory) (first second : List (Path × String)) :
    memory.overwritten (first ++ second) = (memory.overwritten first).overwritten second := by
  -- Writing is a fold, and a fold over two lists is one after another.
  rw [overwritten, List.foldl_append, ← overwritten, ← overwritten]

/-- Writes that do not fail bring in no fault, and take none away. -/
theorem faults_overwritten (memory : Memory) (texts : List (Path × String)) :
    (memory.overwritten texts).unreadable = memory.unreadable ∧
      (memory.overwritten texts).unwritable = memory.unwritable := by
  -- Writing makes no file unreadable and none refused.
  induction texts generalizing memory with
  | nil => exact ⟨rfl, rfl⟩
  | cons entry rest ih => exact ih (memory.written entry.1 entry.2)

/-- Writes bring in no fault. -/
theorem Faultless.overwritten (faultless : memory.Faultless) (texts : List (Path × String)) :
    (memory.overwritten texts).Faultless := by
  obtain ⟨unreadable, unwritable⟩ := memory.faults_overwritten texts
  -- The faults are as they were, so there are none.
  exact ⟨unreadable.trans faultless.readable, unwritable.trans faultless.writable⟩

/-- A path at which nothing is written leads to what was there before. -/
theorem file?_overwritten_of_not_mem {texts : List (Path × String)} {path : Path}
    (memory : Memory) (outside : path ∉ texts.map (·.1)) :
    (memory.overwritten texts).file? path = memory.file? path := by
  -- Each of the texts is written elsewhere.
  induction texts generalizing memory with
  | nil => rfl
  | cons entry rest ih =>
    rw [List.map_cons, List.mem_cons, not_or] at outside
    refine (ih (memory.written entry.1 entry.2) outside.2).trans ?_
    rw [file?_written, if_neg outside.1]

/-- Where texts are written at different paths, each is found at its own path. -/
theorem file?_overwritten {texts : List (Path × String)} (memory : Memory)
    (distinct : (texts.map (·.1)).Nodup) (path : Path) :
    (memory.overwritten texts).file? path = (texts.lookup path).or (memory.file? path) := by
  -- No later text is written at the path of the first one.
  induction texts generalizing memory with
  | nil => rfl
  | cons entry rest ih =>
    obtain ⟨apart, laterDistinct⟩ := List.nodup_cons.1 distinct
    change ((memory.written entry.1 entry.2).overwritten rest).file? path = _
    by_cases here : path = entry.1
    · rw [file?_overwritten_of_not_mem _ (here ▸ apart), file?_written, if_pos here,
        List.lookup_cons, beq_iff_eq.2 here]
      rfl
    · rw [ih _ laterDistinct, file?_written, if_neg here, List.lookup_cons,
        beq_eq_false_iff_ne.2 here]

/-- Where texts are written at different paths, each of them is found. -/
theorem file?_overwritten_of_mem {texts : List (Path × String)} {entry : Path × String}
    (memory : Memory) (distinct : (texts.map (·.1)).Nodup) (within : entry ∈ texts) :
    (memory.overwritten texts).file? entry.1 = some entry.2 := by
  induction texts generalizing memory with
  | nil => cases within
  | cons first rest ih =>
    obtain ⟨apart, laterDistinct⟩ := List.nodup_cons.1 distinct
    rcases List.mem_cons.1 within with rfl | later
    · -- What is written later is written elsewhere.
      refine (file?_overwritten_of_not_mem (memory.written entry.1 entry.2) apart).trans ?_
      rw [file?_written, if_pos rfl]
    · exact ih (memory.written first.1 first.2) laterDistinct later

/-- The files without the one at a path, which was removed by somebody else. -/
def without (memory : Memory) (path : Path) : Memory :=
  { memory with files := memory.files.erase path.text }

/-- Removing a file brings in no fault. -/
theorem Faultless.without (faultless : memory.Faultless) (path : Path) :
    (memory.without path).Faultless :=
  -- Removing makes no file unreadable and none refused.
  ⟨faultless.readable, faultless.writable⟩

/-- A removed file is not found, and every other path leads to what was there before. -/
theorem file?_without (memory : Memory) (path other : Path) :
    (memory.without path).file? other = if other = path then none else memory.file? other := by
  -- The files are a table over the texts of their paths.
  rw [file?, Memory.without, Table.get?_erase, file?]
  by_cases same : other = path
  · rw [if_pos same, if_pos (congrArg Path.text same)]
  · rw [if_neg same, if_neg fun equal => same (path_eq_of_text_eq equal)]

/-- The files with one of them edited by somebody else, if it is there. -/
def edited (memory : Memory) (path : Path) (edit : String → String) : Memory :=
  -- A file that is missing is not created.
  match memory.file? path with
  | some text => { memory with files := memory.files.insert path.text (edit text) }
  | none => memory

/-- An edit brings in no fault. -/
theorem Faultless.edited (faultless : memory.Faultless) (path : Path) (edit : String → String) :
    (memory.edited path edit).Faultless := by
  rw [Memory.edited]
  -- A missing file is not edited, and another is written.
  cases memory.file? path with
  | none => exact faultless
  | some text => exact ⟨faultless.readable, faultless.writable⟩

/-- An edited file is found as it was edited, and every other path leads to what was there before. -/
theorem file?_edited (memory : Memory) (path other : Path) (edit : String → String) :
    (memory.edited path edit).file? other =
      if other = path then (memory.file? path).map edit else memory.file? other := by
  rw [Memory.edited]
  cases found : memory.file? path with
  | none =>
    by_cases same : other = path
    · rw [if_pos same, same, found, Option.map_none]
    · rw [if_neg same]
  | some text =>
    -- The edited text stands where a written one would.
    rw [Option.map_some]
    exact memory.file?_written path other (edit text)

end NixKeeper.Memory
