import NixKeeper.CommandLine.Arguments
import NixKeeper.Document.Json.Printer
import NixKeeper.Model.Edit
import NixKeeper.Nix.Literal
import NixKeeper.Nix.OptionScan
import NixKeeper.Sync.Session

/-! What the commands of the program do, and what they print. -/

namespace NixKeeper.CommandLine

/-- What a run of the program leaves behind: an exit code and two streams of text. -/
structure Outcome where
  code : Nat
  output : String
  errors : String
deriving DecidableEq

namespace Outcome

/-- A run that succeeds. -/
def success (output : String) : Outcome :=
  ⟨0, output, ""⟩

/-- A run that fails after some output. -/
def failure (message : String) (output : String) : Outcome :=
  ⟨1, output, "error: " ++ message ++ "\n"⟩

/-- A run whose arguments make no sense. -/
def usage : Outcome :=
  ⟨2, "", "error: unknown or missing arguments\n"⟩

end Outcome

/-- Lines of output. -/
def unlines (lines : List String) : String :=
  String.join (lines.map (· ++ "\n"))

/-- Texts with a comma between neighbours. -/
def listed (texts : List String) : String :=
  ", ".intercalate texts

/-- The services that are switched on. -/
def enabledServices (model : Model) : List String :=
  (model.system.services.filter (·.enabled)).map (·.name)

/-- What the program says of itself. -/
def introduction : String :=
  unlines ["nixforge NixOS configuration manager", "", "Run nixforge --help for available commands."]

/-- The commands of the program. -/
def help : String :=
  -- Each line is a command with its arguments.
  unlines [
    "Usage: nixforge [--dir DIR] [--verbose] [COMMAND]", "",
    "  status [--json]",
    "  render manifest|system|home",
    "  sync [--dry-run] [--json]",
    "  check [--json]",
    "  import",
    "  scan-options FILE [--prefix PREFIX] [--json]",
    "  package add|remove NAME [--user USER]",
    "  service toggle NAME",
    "  service set NAME KEY VALUE",
    "  service unset NAME KEY",
    "  source add NAME URL",
    "  source remove NAME"]

/-- The version of the program. -/
def version : String :=
  unlines ["nixforge 0.1.0"]

/-- The document of a summary. -/
def summaryDocument (root : Path) (loaded : Loaded) (status : CheckStatus) : Document :=
  -- Packages are counted here, and not listed.
  let model := loaded.model
  .table [
    ("root", .text root.text),
    ("source", .text loaded.source.message),
    ("hostname", .text model.system.hostname),
    ("nix_version", .text model.nixVersion),
    ("users", .ofTexts (model.users.map (·.username))),
    ("system_packages", .integer model.system.packages.length),
    ("enabled_services", .ofTexts (enabledServices model)),
    ("sources", .ofTexts (model.sources.map (·.name))),
    ("status", .text status.name)]

/-- The lines of a summary that list the services that are switched on. -/
def serviceSummary : List String → List String
  -- Without a service the line says how to get one.
  | [] => ["  None (use nixforge service toggle to add)"]
  | names => names.map ("  + " ++ ·)

/-- The words for the state of the files. -/
def statusMessage : CheckStatus → String
  -- Each status has words of its own for the person who asks.
  | .healthy => "in sync"
  | .missing => "not written yet"
  | .drifted => "drifted"
  | .broken => "snapshot unreadable"

/-- The text of a summary. -/
def summaryText (root : Path) (loaded : Loaded) (status : CheckStatus) : String :=
  -- The same facts as in the document, as lines to be read.
  let model := loaded.model
  unlines ([
    "NixForge Status", "",
    "Path:      " ++ root.text,
    "Loaded:    " ++ loaded.source.message,
    "Hostname:  " ++ model.system.hostname,
    "Channel:   " ++ model.nixVersion,
    "Users:     " ++ listed (model.users.map (·.username)),
    "Packages:  " ++ toString model.system.packages.length, "",
    "Enabled Services:"] ++ serviceSummary (enabledServices model) ++
    ["", "Files:     " ++ statusMessage status])

/-- The document of a report of a sync. -/
def syncDocument (report : SyncReport) : Document :=
  -- The flag is the stored one, as the engine left it.
  .table [("success", .bool report.success), ("actions", .ofTexts report.actions),
    ("errors", .ofTexts report.errors)]

/-- The text of a report of a sync. -/
def syncText (dryRun : Bool) (report : SyncReport) : String :=
  -- A rehearsal says so first, and a failure lists the errors instead of the actions.
  unlines ((if dryRun then ["=> Dry run, nothing was written."] else []) ++
    if report.success then
      if report.actions.isEmpty then ["OK Already synchronized. No changes needed."]
      else "OK Synchronization complete:" :: report.actions.map ("   + " ++ ·)
    else "ERROR Synchronization failed:" :: report.errors.map ("   ! " ++ ·))

/-- The mark before a file that departs from the model. -/
def driftMark (drift : Drift) : String :=
  if drift.status = .missing then "-" else "!"

/-- The text of a report of a check. -/
def checkText (report : CheckReport) : String :=
  -- The issues are listed for drift, and the parse error for a broken snapshot.
  match report.status with
  | .healthy => unlines ["OK Files match the model."]
  | .missing | .drifted =>
    unlines (report.issues.map (fun (path, drift) =>
      "   " ++ driftMark drift ++ " " ++ path ++ ": " ++ drift.message) ++
      ["", "Run nixforge sync to repair."])
  | .broken =>
    unlines ("BROKEN Snapshot is unreadable:" ::
      report.snapshotError.toList.map ("   ! " ++ ·))

/-- The lines about one option of a module. -/
def optionLines (hint : OptionHint) : List String :=
  -- A description and an example are written only where the declaration has them.
  (hint.name ++ " (" ++ hint.kind.name ++ ")") ::
    (if hint.description = "" then [] else ["    " ++ hint.description]) ++
    hint.sample.toList.map ("    example: " ++ ·)

/-- The text about the options of a module. -/
def optionsText (hints : List OptionHint) : String :=
  -- Without a declaration one line says so.
  if hints.isEmpty then unlines ["=> No option declarations found."]
  else unlines (hints.flatMap optionLines)

/-- A document as output. -/
def documentText (document : Document) : String :=
  Json.pretty document ++ "\n"

/-- The value that the text of an option stands for: a literal, or else the text itself. -/
def optionValue (raw : String) : Literal :=
  -- Whatever is no literal is meant as a text without its quotes.
  (Nix.parse? raw.toList).getD (.text raw)

/-- The edit of the model that a change makes. -/
def Change.edit : Change → Edit
  -- A package given without a user is one of the system.
  | addPackage name none => .addSystemPackage ⟨name, ""⟩
  | addPackage name (some user) => .addUserPackage user ⟨name, ""⟩
  | removePackage name none => .removeSystemPackage name
  | removePackage name (some user) => .removeUserPackage user name
  | toggleService name => .toggleService (.named name)
  | setOption name key value => .setServiceOption name key (optionValue value)
  | unsetOption name key => .removeServiceOption name key
  | addSource name url => .addSource ⟨name, url⟩
  | removeSource name => .removeSource name

/-- What is said about a change, given the answer of its edit; some answers are failures. -/
def Change.message : Change → Bool → Except String String
  -- The answer of the edit decides between the two texts, where it can go both ways.
  | addPackage name _, true => .ok ("Added package " ++ name)
  | addPackage name _, false => .ok ("Package " ++ name ++ " already present")
  | removePackage name _, true => .ok ("Removed package " ++ name)
  | removePackage name _, false => .error ("Package " ++ name ++ " is not installed")
  | toggleService name, true => .ok ("Service " ++ name ++ " enabled")
  | toggleService name, false => .ok ("Service " ++ name ++ " disabled")
  | setOption name key value, _ => .ok ("Set " ++ name ++ "." ++ key ++ " = " ++ value)
  | unsetOption name key, true => .ok ("Removed " ++ name ++ "." ++ key)
  | unsetOption name key, false => .error (name ++ " has no option " ++ key)
  | addSource name _, _ => .ok ("Added source " ++ name)
  | removeSource name, true => .ok ("Removed source " ++ name)
  | removeSource name, false => .error ("No source named " ++ name)

/-- The changed model, if it is valid, and what is said about the change. -/
def Change.apply (change : Change) (model : Model) : Except String (Model × String) := do
  -- The edit, the words about it and the rules are checked in this order.
  let edited ← (Edit.apply model change.edit).mapError ModelError.message
  let message ← change.message (edited.answer.getD true)
  edited.model.validate.mapError ModelError.message
  return (edited.model, message)

variable {σ : Type} [Storage σ]

/-- Saves a model and then says something. -/
def save (session : Session σ) (model : Model) (lines : List String) : Outcome × σ :=
  -- The words are said only if the model has been saved.
  match session.saveSnapshot model with
  | (.ok _, session) => (.success (unlines lines), session.store)
  | (.error error, session) => (.failure error.message "", session.store)

/-- Changes the model of a place and saves it. -/
def runEdit (session : Session σ) (model : Model) (change : Change) : Outcome × σ :=
  -- A refused edit leaves the store as it was.
  match change.apply model with
  | .error message => (.failure message "", session.store)
  | .ok (model, message) =>
    save session model ["OK " ++ message, "Run nixforge sync to write the Nix files."]

/-- Reads the files of a place into the initial model and saves it. -/
def runImport (session : Session σ) : Outcome × σ :=
  -- What the snapshot says is left aside.
  match session.importFiles .initial with
  | .error error => (.failure error.message "", session.store)
  | .ok model =>
    match model.validate with
    | .error error => (.failure error.message "", session.store)
    | .ok () =>
      save session model ["OK Imported " ++ model.system.hostname ++ " (" ++
        toString model.users.length ++ " users, " ++
        toString model.system.packages.length ++ " packages, " ++
        toString (enabledServices model).length ++ " services)."]

/-- Brings the files of a place in step with its model. -/
def runSync (session : Session σ) (model : Model) (dryRun json : Bool) : Outcome × σ :=
  match session.sync model dryRun with
  | (.error error, session) => (.failure error.message "", session.store)
  | (.ok report, session) =>
    let output := if json then documentText (syncDocument report) else syncText dryRun report
    -- The report is printed even if some of it has failed.
    if report.success then (.success output, session.store)
    else
      (.failure ("Sync finished with " ++ toString report.errors.length ++ " error(s)") output,
        session.store)

/-- Compares the files of a place with its model. -/
def runCheck (session : Session σ) (model : Model) (json : Bool) : Outcome :=
  -- A check only reads, so the store is not handed on.
  match session.check model with
  | .error error => .failure error.message ""
  | .ok report =>
    .success (if json then documentText report.document else checkText report)

/-- Sums up what is known about a place. -/
def runStatus (session : Session σ) (loaded : Loaded) (json : Bool) : Outcome :=
  -- The status of the files is that of a check.
  match session.check loaded.model with
  | .error error => .failure error.message ""
  | .ok report =>
    .success (if json then documentText (summaryDocument session.root loaded report.status)
      else summaryText session.root loaded report.status)

/-- Lists the options that a module declares. -/
def runScan (store : σ) (file path : String) (json : Bool) : Outcome :=
  -- The file is looked for from the working folder, not in the directory of the machine.
  match Storage.read store (.ofText file) with
  | .error error => .failure error.message ""
  | .ok source =>
    let hints := Nix.scanOptions source.toList path.toList
    .success (if json then documentText (.list (hints.map OptionHint.document))
      else optionsText hints)

/-- Runs a command that needs the model of a place. -/
def runLoaded (session : Session σ) (loaded : Loaded) : Command → Outcome × σ
  -- Only a sync, an edit and an import hand on another store.
  | .status json => (runStatus session loaded json, session.store)
  | .render kind => (.success (session.generate loaded.model kind), session.store)
  | .sync dryRun json => runSync session loaded.model dryRun json
  | .check json => (runCheck session loaded.model json, session.store)
  | .edit change => runEdit session loaded.model change
  | .importFiles => runImport session
  | .scanOptions file path json => (runScan session.store file path json, session.store)

/-- Runs a command in a place. -/
def runIn (store : σ) (root : Path) (command : Command) : Outcome × σ :=
  match command with
  -- This command needs no settings, so faulty ones do not matter.
  | .scanOptions file path json => (runScan store file path json, store)
  | command =>
    match Session.start store root with
    | .error error => (.failure error.message "", store)
    | .ok session =>
      match command with
      | .importFiles => runImport session
      | command =>
        -- All other commands begin with the model of the place.
        match session.load with
        | (.error error, session) => (.failure error.message "", session.store)
        | (.ok loaded, session) => runLoaded session loaded command

/-- The directory of an invocation: the given one, or a hidden one in the home of the user. -/
def rootOf (environment : Environment) (invocation : Invocation) : Option Path :=
  -- Without a home there may be no directory at all.
  match invocation.directory with
  | some directory => some (.ofText directory)
  | none => environment.home.map fun home => (Path.ofText home).join ".nixforge"

/-- Runs the program with its arguments. -/
def run (environment : Environment) (arguments : List String) (store : σ) : Outcome × σ :=
  match readInvocation environment arguments with
  | .error .usage => (.usage, store)
  | .error .help => (.success help, store)
  | .error .version => (.success version, store)
  | .ok invocation =>
    match invocation.command with
    | none => (.success introduction, store)
    | some command =>
      -- The directory is settled before the command begins.
      match rootOf environment invocation with
      | none => (.failure "Cannot determine home directory; pass --dir" "", store)
      | some root => runIn store root command

end NixKeeper.CommandLine
