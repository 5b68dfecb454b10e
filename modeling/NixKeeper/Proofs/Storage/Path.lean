import Mathlib.Data.List.Nodup
import NixKeeper.Proofs.Text.Search
import NixKeeper.Storage.Format

/-! File names at the end of joined paths. -/

namespace NixKeeper.Path

/-- A text that can be the last part of a path as it stands. -/
def IsName (segment : String) : Prop :=
  segment.toList ≠ [] ∧ '/' ∉ segment.toList ∧ '\\' ∉ segment.toList

instance (segment : String) : Decidable (IsName segment) :=
  inferInstanceAs (Decidable (_ ∧ _))

/-- A text without backslashes is left as it is when it is joined. -/
theorem map_slash_of_not_mem {segment : List Char} (forward : '\\' ∉ segment) :
    segment.map slash = segment := by
  -- Only backslashes are changed.
  have same : ∀ c ∈ segment, slash c = id c := by
    intro c within
    have other : c ≠ '\\' := by
      rintro rfl
      exact forward within
    simp [slash, other]
  rw [List.map_congr_left same, List.map_id]

/-- Behind a text that is empty or ends with the separator, a text without it is the last part. -/
theorem afterLast_append {separator : Char} {before last : List Char} (single : separator ∉ last)
    (ending : before = [] ∨ before.getLast? = some separator) :
    Text.afterLast separator (before ++ last) = last := by
  -- The last separator is the one that ends the first text, if there is any.
  rcases ending with rfl | ending
  · exact Text.afterLast_of_not_mem single
  · obtain ⟨front, rfl⟩ := List.getLast?_eq_some_iff.1 ending
    rw [List.append_assoc, List.singleton_append]
    exact Text.afterLast_append_cons front single

/-- The separator before a joined name makes the text before it end with a slash, unless it is empty. -/
theorem append_separator (text : List Char) :
    text ++ separator text = [] ∨ (text ++ separator text).getLast? = some '/' := by
  unfold separator
  -- A slash is added unless there is one already, or nothing to separate.
  split
  · rename_i closed
    rw [List.append_nil]
    simpa using closed
  · simp

/-- The last part of a joined path is the name that was joined. -/
theorem fileName?_join (root : Path) {segment : String} (isName : IsName segment) :
    (root.join segment).fileName? = some segment.toList := by
  obtain ⟨nonempty, single, forward⟩ := isName
  -- The name does not end with a slash, so nothing is dropped at its end.
  have kept (before : List Char) :
      Text.dropEndWhile (· == '/') (before ++ segment.toList) = before ++ segment.toList := by
    obtain ⟨front, c, shape⟩ := List.eq_nil_or_concat _ |>.resolve_left nonempty
    have other : c ≠ '/' := by
      rintro rfl
      exact single (by simp [shape])
    simp [Text.dropEndWhile, shape, other]
  have text : (root.join segment).text.toList =
      root.text.toList ++ separator root.text.toList ++ segment.toList := by
    rw [join, String.toList_ofList, map_slash_of_not_mem forward]
  rw [fileName?, text, kept, afterLast_append single (append_separator _)]
  simp [nonempty]

/-- Different names lead to different paths. -/
theorem join_injective (root : Path) {first second : String} (isName : IsName first)
    (isSecondName : IsName second) (same : root.join first = root.join second) : first = second := by
  have names : some first.toList = some second.toList := by
    -- The name is the last part of the joined path.
    rw [← fileName?_join root isName, same, fileName?_join root isSecondName]
  exact String.toList_inj.1 (Option.some.inj names)

/-- The names of the generated files and of the hardware file. -/
def ownNames : List String :=
  ["flake.nix", "configuration.nix", "home.nix", "hardware-configuration.nix"]

/-- The program's own files stand at different paths. -/
theorem nodup_map_join_ownNames (root : Path) : (ownNames.map root.join).Nodup := by
  have names : ∀ name ∈ ownNames, IsName name := by decide
  -- The names are different, and joining them keeps them apart.
  refine List.Nodup.map_on (fun first inNames second alsoInNames same => ?_) (by decide)
  exact root.join_injective (names first inNames) (names second alsoInNames) same

/-- The program's own files are in no format of structured files. -/
theorem format_join_ownName_ne_ok (root : Path) {name : String} (own : name ∈ ownNames)
    (format : FileFormat) : (root.join name).format ≠ .ok format := by
  -- All the names have the same extension, which belongs to no format.
  have extension : (root.join name).extension? = some "nix".toList := by
    have names : ∀ name ∈ ownNames, IsName name := by decide
    rw [extension?, fileName?_join root (names name own)]
    revert name
    decide
  rw [Path.format, extension]
  simp [FileFormat.ofExtension?]

end NixKeeper.Path
