import NixKeeper.Proofs.Decimal.Shortest
import NixKeeper.Proofs.Files.Fitting
import NixKeeper.Proofs.Files.SystemFile.Settings
import NixKeeper.Proofs.Nix.Reading

/-! The services and their options are read back from their lines. -/

namespace NixKeeper.Files.SystemFile

variable {renames : Renames} {placeholder : String} {seen : List String}

/-- The model with other services. -/
def withServices (model : Model) (services : List Service) : Model :=
  adjusted model fun system => { system with services }

/-- A service as the file with the settings of the machine describes one. -/
def configured (service : Service) : Service :=
  -- The text of the file has no description and no hints.
  { service with
    enabled := true
    description := none
    knownOptions := none }

/-- A service that is known already, switched on, with the options of another laid over its own. -/
def reconfigured (service known : Service) : Service :=
  -- What the file does not set keeps its value.
  { known with
    enabled := true
    options := known.options.overlay service.options }

/-- The services with one that is read from its lines. -/
abbrev withService (services : List Service) (service : Service) : List Service :=
  entered Service.name Service.name reconfigured configured services service

/-- The texts of a literal stand on one line. -/
def LiteralFits : Literal → Prop
  -- Only texts can have a line feed or a marker in them.
  | .list items => ∀ item ∈ items, FitsLine item.toList
  | .text value => FitsLine value.toList
  | _ => True

/-- An option that can be read back. -/
structure IsOption (renames : Renames) (service : String) (entry : String × Literal) : Prop where
  isKey : IsPath entry.1.toList
  /-- This key switches the service itself. -/
  notEnable : entry.1 ≠ enableOption
  current : renames.option service entry.1 = entry.1
  readable : Nix.IsReadable entry.2
  fits : LiteralFits entry.2

/-- A service that can be read back. -/
structure IsService (renames : Renames) (service : Service) : Prop where
  isPath : IsServicePath service.name.toList
  current : renames.service service.name = service.name
  noHardware : ¬ hardwareWords <:+: service.name.toList
  /-- Without options, a point follows the name of the service. -/
  noHardwareBefore : service.options.isEmpty → ¬ hardwareWords <:+: service.name.toList ++ ['.']
  options : ∀ entry ∈ service.options.entries, IsOption renames service.name entry

/-- A written literal fits on a line if its texts do. -/
theorem fitsLine_format {literal : Literal} (fits : LiteralFits literal) :
    FitsLine (Nix.format literal) := by
  -- Numbers are plain, and texts are quoted.
  have number {word : List Char} (onPath : ∀ c ∈ word, Text.isPathChar c = true) : FitsLine word :=
    (isPlain_of_forall rfl rfl onPath).fits
  cases literal with
  | bool value => cases value <;> exact IsPlain.fits (by decide)
  | int value => exact number fun c => Decimal.isPathChar_of_mem_ofInt
  | float value => exact number fun c => Binary64.isPathChar_of_mem_render_plain
  | list items => exact fitsLine_formatList fits
  | text value => exact fitsLine_quote fits

/-- A line in the block of a service changes this service. -/
theorem after_serviceLine {lines : List Line} {raw clean : List Char} (model : Model)
    (services : List Service) (index : Nat) (single : said lines = [⟨raw, clean⟩])
    (noEnd : closes clean = false) (noBlock : opens clean = false) :
    after renames placeholder lines ⟨withServices model services, .service index 0, seen⟩ =
      ⟨withServices model (services.modify index (readServiceLine clean)), .service index 0,
        seen⟩ := by
  -- A line without braces neither opens nor closes a block.
  have outside : nested clean 0 (.service index) = none := by
    rw [nested, noEnd, noBlock]
    rfl
  rw [after, single, List.foldl_cons, List.foldl_nil, readStatement]
  simp only [readService, outside, if_true, withServices, adjusted, withSystem]

/-- The key and the value of an option are read from its assignment. -/
theorem option?_assignment {key value : List Char} (isPath : IsPath key) (nonempty : value ≠ [])
    (trimmed : Text.trimStart value = value) :
    option? (assignment key value) = some (String.ofList key, value) := by
  -- A key is read as far as its characters reach, which is up to the blank.
  have isKey : ∀ c ∈ key, isKeyChar c = true := fun c within => by
    rw [isKeyChar, isPath.onPath c within, Bool.true_or]
  have front := takeWhile_assignment value isKey (by decide)
  have back := dropWhile_assignment value isKey (by decide)
  have behind : Text.trimStart (" = ".toList ++ value) = '=' :: ' ' :: value := rfl
  have blank : Text.trimStart (' ' :: value) = value := trimmed
  have found : ['='].isPrefixOf? ('=' :: ' ' :: value) = some (' ' :: value) := rfl
  have present : key.isEmpty = false := by simpa using isPath.nonempty
  have given : value.isEmpty = false := by simpa using nonempty
  rw [option?, front, back, behind, found]
  simp only [present, Bool.false_eq_true, if_false, Option.bind_eq_bind, Option.bind_some, blank, given]

/-- An option line sets the option of the service. -/
theorem readServiceLine_option {key : String} {value : Literal} (service : Service)
    (isKey : IsPath key.toList) (notEnable : key ≠ enableOption)
    (readable : Nix.IsReadable value) :
    readServiceLine (assignment key.toList (Nix.format value)) service =
      { service with options := service.options.insert key value } := by
  obtain ⟨c, last, -⟩ := Nix.exists_getLast?_format readable
  have nonempty := List.ne_nil_of_mem (List.mem_of_mem_getLast? last)
  -- No blank stands around the literal, so it is parsed as it was written.
  have trimmed := (Text.trim_eq_self_iff.1 (Nix.trim_format readable)).1
  rw [readServiceLine, option?_assignment isKey nonempty (Text.trimStart_eq_self_iff.2 trimmed)]
  dsimp only
  rw [String.ofList_toList, if_neg notEnable, Nix.parse?_format readable]

/-- The options of a service are added in their order. -/
theorem after_optionLines {name : String} {entries : List (String × Literal)} (model : Model)
    (services : List Service) (index : Nat)
    (areOptions : ∀ entry ∈ entries, IsOption renames name entry) :
    after renames placeholder (entries.flatMap (optionLine renames name))
        ⟨withServices model services, .service index 0, seen⟩ =
      ⟨withServices model (services.modify index fun service => { service with
        options := entries.foldl (fun table entry => table.insert entry.1 entry.2)
          service.options }),
        .service index 0, seen⟩ := by
  induction entries generalizing services with
  | nil =>
    -- Without options the services stay as they are.
    have same := List.modify_id index services
    exact congrArg (fun services => Progress.mk (withServices model services) _ seen) same.symm
  | cons entry rest ih =>
    obtain ⟨isOption, later⟩ := List.forall_mem_cons.1 areOptions
    -- The line must not end with a brace, or it would be taken for the opening of a block.
    obtain ⟨c, last, noBrace⟩ := Nix.exists_getLast?_format isOption.readable
    have nonempty := List.ne_nil_of_mem (List.mem_of_mem_getLast? last)
    have trimmed := Text.trim_eq_self_iff.1 (Nix.trim_format isOption.readable)
    have single := said_assign isOption.isKey.begins nonempty trimmed.2
    have whole : (assignment entry.1.toList (Nix.format entry.2)).getLast? = some c := by
      rw [getLast?_assignment _ nonempty, last]
    have inserted : readServiceLine (assignment entry.1.toList (Nix.format entry.2)) =
        fun service => { service with options := service.options.insert entry.1 entry.2 } :=
      funext fun service => readServiceLine_option service isOption.isKey isOption.notEnable
        isOption.readable
    rw [List.flatMap_cons, after_append, optionLine, isOption.current,
      after_serviceLine model services index single (closes_assignment _ isOption.isKey)
        (opens_of_getLast? whole noBrace), inserted, ih _ later, List.modify_modify_eq]
    rfl

/-- The service of a name is entered: it is looked up or added, and then changed in its place. -/
theorem modify_claimService {services : List Service} (service : Service)
    (distinct : DistinctBy Service.name services) :
    (claimService services service.name).2.modify (claimService services service.name).1
        (reconfigured service) = withService services service := by
  unfold claimService
  cases found : services.findIdx? (·.name == service.name) with
  | none =>
    have absent : services.any (·.name == service.name) = false := by
      simpa [List.any_eq_false] using List.findIdx?_eq_none_iff.1 found
    -- A new service has no options of its own that could stay.
    have filled : Table.empty.overlay service.options = service.options :=
      Table.ofList_entries service.options
    rw [withService, entered, absent, if_neg Bool.false_ne_true]
    dsimp only
    rw [modify_concat, reconfigured, Service.named]
    dsimp only
    rw [filled, configured]
  | some index =>
    -- A service that is known is changed in its place.
    have present : services.any (·.name == service.name) = true := by
      rw [← List.findIdx?_isSome, found]
      rfl
    rw [withService, entered, present, if_pos rfl]
    exact modify_of_findIdx? _ distinct found

/-- The lines of a service are read back. -/
theorem after_serviceLines {service : Service} {services : List Service} (model : Model)
    (isService : IsService renames service) (distinct : DistinctBy Service.name services) :
    after renames placeholder (serviceLines renames service)
        ⟨withServices model services, .top, seen⟩ =
      ⟨withServices model (withService services service), .top, seen⟩ := by
  rw [← modify_claimService service distinct]
  generalize claimed : claimService services service.name = claim
  obtain ⟨index, others⟩ := claim
  rw [serviceLines, isService.current]
  split
  · rename_i none
    have begins := isService.isPath.isPath.begins.append ".enable".toList
    -- Without options nothing is laid over those that are known.
    have switched : reconfigured service = fun known => { known with enabled := true } := by
      funext known
      rw [reconfigured, Table.overlay, List.isEmpty_iff.1 none]
      rfl
    rw [after_single (said_switchOn begins), readTop,
      classify_serviceEnable isService.isPath (isService.noHardwareBefore none)]
    dsimp only
    rw [enableService]
    simp only [withServices, adjusted, withSystem, claimed, switched]
  · have opened : after renames placeholder (line (service.name.toList ++ " = \x7b".toList))
        ⟨withServices model services, .top, seen⟩ =
          ⟨withServices model others, .service index 0, seen⟩ := by
      rw [after_single (said_opening isService.isPath.isPath.begins), readTop,
        classify_serviceStart isService.isPath isService.noHardware]
      dsimp only
      rw [openService]
      simp only [withServices, adjusted, withSystem, claimed]
    have path : IsPath "enable".toList := by decide
    have switched : readServiceLine (assignment "enable".toList "true".toList) =
        fun known => { known with enabled := true } := rfl
    have closed (model : Model) (index : Nat) :
        after renames placeholder (line "\x7d;".toList) ⟨model, .service index 0, seen⟩ =
          ⟨model, .top, seen⟩ := rfl
    rw [block, after_append, after_append, after_indent, opened, after_append,
      after_serviceLine model others index (said_switchOn path.begins) rfl rfl, switched,
      after_optionLines model _ index isService.options, closed, List.modify_modify_eq]
    rfl

/-- The lines of services are read back, in their order. -/
theorem after_services {services : List Service} (model : Model)
    (areServices : ∀ service ∈ services, IsService renames service)
    (distinct : DistinctBy Service.name model.system.services) :
    after renames placeholder
        (services.flatMap fun service => blank ++ serviceLines renames service) ⟨model, .top, seen⟩ =
      ⟨withServices model (services.foldl withService model.system.services), .top, seen⟩ := by
  induction services generalizing model with
  | nil => rfl
  | cons service rest ih =>
    obtain ⟨isService, later⟩ := List.forall_mem_cons.1 areServices
    -- The names stay apart with each service that is entered.
    have still : DistinctBy Service.name (withService model.system.services service) :=
      distinct.entered service (fun _ _ => rfl) fun _ => rfl
    have read := @after_serviceLines renames placeholder seen service model.system.services model
      isService distinct
    rw [List.flatMap_cons, after_append, after_append, after_blank]
    exact (congrArg _ read).trans (ih (withServices model _) later still)

/-- What is written about a service stands on lines of a region. -/
structure ServiceFits (renames : Renames) (service : Service) : Prop where
  name : FitsLine (renames.service service.name).toList
  options : ∀ entry ∈ service.options.entries,
    FitsLine (renames.option service.name entry.1).toList ∧ LiteralFits entry.2

/-- A service that can be read back is written on lines of a region. -/
theorem IsService.fits {service : Service} (isService : IsService renames service) :
    ServiceFits renames service := by
  -- Paths hold neither line feeds nor hash signs.
  have plain {path : List Char} (isPath : ∀ c ∈ path, Text.isPathChar c = true) : FitsLine path :=
    (isPlain_of_forall rfl rfl isPath).fits
  refine ⟨isService.current.symm ▸ plain isService.isPath.onPath, fun entry among => ?_⟩
  have isOption := isService.options entry among
  exact ⟨isOption.current.symm ▸ plain isOption.isKey.onPath, isOption.fits⟩

/-- The lines of a service fit into a region. -/
theorem allFit_serviceLines {service : Service} (fits : ServiceFits renames service) :
    AllFit (serviceLines renames service) := by
  have options : AllFit (service.options.entries.flatMap (optionLine renames service.name)) :=
    allFit_flatMap.2 fun entry among => allFit_assign_of_fits (fits.options entry among).1
      (fitsLine_format (fits.options entry among).2)
  rw [serviceLines]
  split
  · -- Without options the name is followed by the switch, and else by a brace.
    exact allFit_switchOn (fits.name.append_ending (by decide) (by decide))
  · exact allFit_block.2 ⟨fits.name.append_ending (by decide) (by decide),
      allFit_append.2 ⟨allFit_switchOn (IsPlain.fits (by decide)), options⟩,
      IsPlain.fits (by decide)⟩

end NixKeeper.Files.SystemFile
