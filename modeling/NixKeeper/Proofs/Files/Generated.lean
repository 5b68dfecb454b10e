import NixKeeper.Files.Generated
import NixKeeper.Proofs.Files.Lines
import NixKeeper.Proofs.Managed.Ending

/-!
Every generated file has a managed region, whatever texts stand in the model.

Before the region of the system file and of the home file stands the same text for all models.
-/

namespace NixKeeper.Files

/-- The model with what one text of each kind says, each adding to what the ones before it have said. -/
def readFiles (renames : Renames) (placeholder : String) (texts : FileKind → List Char)
    (model : Model) : Model :=
  -- Each file is read into what the files before it have given.
  FileKind.all.foldl (fun model kind => read renames placeholder (texts kind) model kind) model

/-- The lines of the system file before its region. -/
def SystemFile.opening : List Line :=
  line "\x7b config, pkgs, inputs, ... \x7d:".toList ++ blank ++ line ['{']

/-- The lines of the system file behind its region. -/
def SystemFile.ending (model : Model) : List Line :=
  -- The version of the state and the last brace stand below the region.
  indent (blank ++ assignText "system.stateVersion".toList
    (Nix.stateVersion model.nixVersion.toList)) ++ line ['}']

/-- The region of the system file is one step deep. -/
theorem SystemFile.lines_eq (renames : Renames) (model : Model) :
    lines renames model =
      opening ++ regionAt 1 (indent (line notice ++ regionLines renames model)) ++ ending model := by
  -- The region is one block deep in the file.
  simp only [lines, opening, ending, block, region_eq, indent_append, indent_regionAt,
    List.append_assoc]

/-- The lines of the home file before its region. -/
def Home.opening : List Line :=
  line "\x7b config, pkgs, ... \x7d:".toList ++ blank ++ line ['{']

/-- The lines of the home file behind its region. -/
def Home.ending (nixVersion : String) : List Line :=
  -- The version of the state and the last brace stand below the region.
  indent (blank ++ assignText "home.stateVersion".toList (Nix.stateVersion nixVersion.toList)) ++
    line ['}']

/-- The region of the home file is one step deep. -/
theorem Home.lines_eq (renames : Renames) (user : User) (nixVersion : String) :
    lines renames user nixVersion =
      opening ++ regionAt 1 (indent (line notice ++ regionLines renames user)) ++
        ending nixVersion := by
  -- The region is one block deep in the file.
  simp only [lines, opening, ending, block, region_eq, indent_append, indent_regionAt,
    List.append_assoc]

/-- The lines of the manifest before its region, which name the machine. -/
def Manifest.opening (model : Model) : List Line :=
  -- The description and the opening of the inputs stand above the region.
  line ['{'] ++ indent (assignText "description".toList
    ("NixOS configuration for ".toList ++ model.system.hostname.toList) ++ blank ++
      line "inputs = \x7b".toList)

/-- The lines of the manifest behind its region. -/
def Manifest.ending (model : Model) : List Line :=
  indent (line "\x7d;".toList ++ blank ++ outputLines model) ++ line ['}']

/-- The region of the manifest is two steps deep. -/
theorem Manifest.lines_eq (model : Model) :
    lines model =
      opening model ++ regionAt 2 (indent (indent (line notice ++ regionLines model))) ++
        ending model := by
  -- The region is two blocks deep in the file.
  simp only [lines, opening, ending, block, region_eq, indent_append, indent_regionAt,
    List.append_assoc]

/-- No marker stands before the region of the system file. -/
theorem SystemFile.hash_not_mem_render_opening : '#' ∉ render opening := by
  -- The opening is a closed text.
  decide

/-- No marker stands before the region of the home file. -/
theorem Home.hash_not_mem_render_opening : '#' ∉ render opening := by
  -- The opening is a closed text.
  decide

/-- The text of the manifest before its region. -/
theorem Manifest.render_opening (model : Model) :
    render (opening model) = "\x7b\n  description = ".toList ++ '"' ::
      (Nix.escape ("NixOS configuration for ".toList ++ model.system.hostname.toList) ++ '"' ::
        ";\n\n  inputs = \x7b\n".toList) := by
  -- The hostname is the only part that is not fixed.
  simp [opening, render, Line.render, line, blank, assignText, assign, indent, Nix.quote]

/-- A marker before the region of the manifest is part of the name of the machine. -/
theorem Manifest.infix_hostname_of_infix_render_opening {model : Model} {marker : List Char}
    (isMarker : marker ∈ [Managed.beginMarker, Managed.endMarker])
    (within : marker <:+: render (opening model)) :
    marker <:+: model.system.hostname.toList := by
  obtain ⟨noQuote, noBackslash, -⟩ := plain_of_isMarker isMarker
  obtain ⟨hash, -, nonempty⟩ := ends_of_isMarker isMarker
  rw [render_opening, Text.infix_append_cons_iff noQuote, Text.infix_append_cons_iff noQuote] at within
  -- The quotes around the description cut the opening into three parts; only one is not fixed.
  rcases within with ahead | inside | behind
  · exact absurd ahead (not_infix_of_hash_not_mem isMarker (by decide))
  · have inText := Nix.infix_of_infix_escape noQuote noBackslash inside
    have apart : '#' ∉ "NixOS configuration for ".toList := by decide
    refine (Text.infix_append_iff_of_head_not_mem ?_ nonempty).1 inText
    rw [hash]
    rintro c ⟨⟩
    exact apart
  · exact absurd behind (not_infix_of_hash_not_mem isMarker (by decide))

/-- A generated file has a region; only the name of the machine can hide that of the manifest. -/
theorem isSome_locate_generate (renames : Renames) (model : Model) (kind : FileKind)
    (noEnd : kind = .manifest → ¬ Managed.endMarker <:+: model.system.hostname.toList) :
    (Managed.locate (generate renames model kind)).isSome := by
  have isMarker : Managed.endMarker ∈ [Managed.beginMarker, Managed.endMarker] := by simp
  cases kind with
  | manifest =>
    rw [generate, Manifest.text, Manifest.lines_eq]
    -- Only the line with the description stands before the region and holds a text of the model.
    exact isSome_locate_render _ _ 2 fun within =>
      noEnd rfl (Manifest.infix_hostname_of_infix_render_opening isMarker within)
  | system =>
    rw [generate, SystemFile.text, SystemFile.lines_eq]
    exact isSome_locate_render _ _ 1
      (not_infix_of_hash_not_mem isMarker SystemFile.hash_not_mem_render_opening)
  | home =>
    rw [generate, Home.text, Home.lines_eq]
    exact isSome_locate_render _ _ 1
      (not_infix_of_hash_not_mem isMarker Home.hash_not_mem_render_opening)

/-- Generated lines are steady if there is nothing to scrub in the text before their region. -/
theorem steady_render {before inside after : List Line} {depth : Nat} (noHash : '#' ∉ render before)
    (noUser : ¬ Managed.userPath <:+: render before ++ List.replicate (2 * depth) ' ')
    (noRun : Managed.collapseBlankLines (render before ++ List.replicate (2 * depth) ' ') =
      render before ++ List.replicate (2 * depth) ' ') :
    Managed.Steady (render (before ++ regionAt depth inside ++ after)) := by
  have absent {marker : List Char} (isMarker : marker ∈ [Managed.beginMarker, Managed.endMarker]) :
      ¬ marker <:+: render before := not_infix_of_hash_not_mem isMarker noHash
  obtain ⟨region, present⟩ := Option.isSome_iff_exists.1
    (isSome_locate_render inside after depth (absent (by simp)))
  refine ⟨region, present, fun fresh => ?_⟩
  -- The body may have markers of its own, but they stand behind the opening one.
  have beginning : region.before = render before ++ List.replicate (2 * depth) ' ' := by
    rw [render_around] at present
    exact Managed.before_of_locate present fun within =>
      absent (by simp) (infix_of_infix_append_replicate depth (by simp) within)
  rw [beginning]
  exact Managed.scrub_eq_self noUser (Managed.collapseBlankLines_eq_self_iff.1 noRun) fresh

/-- The system file and the home file are steady; the manifest begins with the name of the machine. -/
theorem steady_generate (renames : Renames) (model : Model) {kind : FileKind}
    (other : kind ≠ .manifest) : Managed.Steady (generate renames model kind) := by
  cases kind with
  | manifest => exact absurd rfl other
  | system =>
    rw [generate, SystemFile.text, SystemFile.lines_eq]
    -- What stands around the region is the same for every model but for the release.
    exact steady_render SystemFile.hash_not_mem_render_opening (by decide)
      (by decide)
  | home =>
    rw [generate, Home.text, Home.lines_eq]
    exact steady_render Home.hash_not_mem_render_opening (by decide) (by decide)

end NixKeeper.Files
