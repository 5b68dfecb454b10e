import NixKeeper.CommandLine.Level
import NixKeeper.Files.Kind

/-! The commands of the program, read from a command line. -/

namespace NixKeeper.CommandLine

/-- A change of the model that a command makes. -/
inductive Change where
  | addPackage (name : String) (user : Option String)
  | removePackage (name : String) (user : Option String)
  | toggleService (name : String)
  | setOption (name key value : String)
  | unsetOption (name key : String)
  | addSource (name url : String)
  | removeSource (name : String)
deriving DecidableEq

/-- A command of the program. -/
inductive Command where
  | status (json : Bool)
  | render (kind : FileKind)
  | sync (dryRun json : Bool)
  | check (json : Bool)
  | importFiles
  | scanOptions (file path : String) (json : Bool)
  | edit (change : Change)
deriving DecidableEq

/-- What is set around the program. -/
structure Environment where
  /-- The home of the user. -/
  home : Option String
  /-- The directory that takes the place of the usual one. -/
  directory : Option String

/-- A command and the directory it is meant for; without a command the program introduces itself. -/
structure Invocation where
  directory : Option String
  command : Option Command
deriving DecidableEq

/-- The option for the directory, which every command has. -/
def directorySwitch : Switch :=
  ⟨"dir", some 'd', true⟩

/-- The option for more output, which every command has. -/
def verboseSwitch : Switch :=
  ⟨"verbose", some 'v', false⟩

/-- The option for output to be read by programs. -/
def jsonSwitch : Switch :=
  ⟨"json", none, false⟩

/-- The option for a user. -/
def userSwitch : Switch :=
  ⟨"user", some 'u', true⟩

/-- A command with options beside those of every command, and with a number of words. -/
def leafShape (switches : List Switch) (words : Nat) : Shape :=
  ⟨switches ++ [directorySwitch, verboseSwitch], words, false, false⟩

/-- A command that has others below it. -/
def branchShape (hasVersion : Bool) : Shape :=
  ⟨[directorySwitch, verboseSwitch], 0, true, hasVersion⟩

/--
The directory given on a level.

An empty directory is refused, and so is an empty one from outside where none is given.
-/
def givenDirectory (environment : Environment) (level : Level) : Except Stop (Option String) :=
  match level.value? "dir" with
  -- The directory given here hides the one from outside.
  | some value => if value = "" then .error .usage else .ok (some value)
  | none => if environment.directory = some "" then .error .usage else .ok none

/-- The level of a command with its directory. -/
def readShape (environment : Environment) (shape : Shape) (arguments : List String) :
    Except Stop (Level × Option String) := do
  -- The level is read whole before the directory is looked for.
  let level ← readLevel shape .empty none arguments
  return (level, ← givenDirectory environment level)

/-- A command without others below it, which needs all of its words. -/
def readLeaf (environment : Environment) (switches : List Switch) (words : Nat)
    (arguments : List String) : Except Stop (Level × Option String) := do
  let (level, directory) ← readShape environment (leafShape switches words) arguments
  -- Too many words have been refused already, so only missing ones are left.
  if level.words.length = words then return (level, directory) else throw .usage

/-- A change of packages. -/
def readPackage (environment : Environment) (name : String) (arguments : List String) :
    Except Stop (Change × Option String) := do
  let (level, directory) ← readLeaf environment [userSwitch] 1 arguments
  -- A package may be given for one user, and without one it is for the system.
  match name, level.words with
  | "add", [package] => return (.addPackage package (level.value? "user"), directory)
  | "remove", [package] => return (.removePackage package (level.value? "user"), directory)
  | _, _ => throw .usage

/-- A change of services. -/
def readService (environment : Environment) (name : String) (arguments : List String) :
    Except Stop (Change × Option String) := do
  -- The number of words depends on what is to be done.
  let words := match name with
    | "toggle" => 1
    | "set" => 3
    | _ => 2
  let (level, directory) ← readLeaf environment [] words arguments
  match name, level.words with
  | "toggle", [service] => return (.toggleService service, directory)
  | "set", [service, key, value] => return (.setOption service key value, directory)
  | "unset", [service, key] => return (.unsetOption service key, directory)
  | _, _ => throw .usage

/-- A change of sources. -/
def readSource (environment : Environment) (name : String) (arguments : List String) :
    Except Stop (Change × Option String) := do
  -- Only adding has a second word, the address.
  let words := if name = "add" then 2 else 1
  let (level, directory) ← readLeaf environment [] words arguments
  match name, level.words with
  | "add", [source, url] => return (.addSource source url, directory)
  | "remove", [source] => return (.removeSource source, directory)
  | _, _ => throw .usage

/--
What asking for help on a command comes to, given the commands there are.

Help is asked for by names that lead from one command to the next; a name that leads nowhere makes no
sense.
-/
def helpOn (commands : List (String × List String)) : List String → Stop
  | [] => .help
  | name :: rest =>
    match commands.lookup name with
    -- Commands stand at most two deep, so those below have none below themselves.
    | some below => helpOn (below.map (·, [])) rest
    | none => .usage

/-- The names of the changes of packages, services and sources. -/
def changeNames : List (String × List String) :=
  -- Each of these words has commands of its own below it.
  [
    ("package", ["add", "remove"]),
    ("service", ["toggle", "set", "unset"]),
    ("source", ["add", "remove"])
  ]

/-- The names of the changes below a command. -/
def changesOf (command : String) : List String :=
  (changeNames.lookup command).getD []

/-- All commands, each with those that stand below it; help is a command on either level. -/
def commandNames : List (String × List String) :=
  -- The first words stand alone, and the others are followed by a word of their own.
  ["status", "render", "sync", "check", "import", "scan-options", "help"].map (·, []) ++
    changeNames.map fun (name, below) => (name, below ++ ["help"])

/-- A change that stands below the name of what is changed. -/
def readChange (environment : Environment) (names : List String)
    (read : Environment → String → List String → Except Stop (Change × Option String))
    (arguments : List String) : Except Stop (Command × Option String) := do
  -- The directory between the two names counts if there is none behind them.
  let (level, outer) ← readShape environment (branchShape false) arguments
  match level.below with
  | some ("help", topics) => throw (helpOn ((names ++ ["help"]).map (·, [])) topics)
  | some (name, rest) =>
    if names.contains name then
      let (change, inner) ← read environment name rest
      return (.edit change, inner.orElse fun _ => outer)
    else throw .usage
  | none => throw .usage

/-- The command of a name with its arguments. -/
def readCommand (environment : Environment) (name : String) (arguments : List String) :
    Except Stop (Command × Option String) :=
  match name with
  | "status" => do
    let (level, directory) ← readLeaf environment [jsonSwitch] 0 arguments
    return (.status (level.has "json"), directory)
  | "render" => do
    let (level, directory) ← readLeaf environment [] 1 arguments
    match level.words.head?.bind FileKind.ofName? with
    | some kind => return (.render kind, directory)
    | none => throw .usage
  | "sync" => do
    let (level, directory) ←
      readLeaf environment [⟨"dry-run", none, false⟩, jsonSwitch] 0 arguments
    return (.sync (level.has "dry-run") (level.has "json"), directory)
  | "check" => do
    let (level, directory) ← readLeaf environment [jsonSwitch] 0 arguments
    return (.check (level.has "json"), directory)
  | "import" => do
    let (_, directory) ← readLeaf environment [] 0 arguments
    return (.importFiles, directory)
  | "scan-options" => do
    let (level, directory) ←
      readLeaf environment [⟨"prefix", some 'p', true⟩, jsonSwitch] 1 arguments
    match level.words with
    | [file] =>
      -- An empty path names no file.
      if file = "" then throw .usage
      return (.scanOptions file ((level.value? "prefix").getD "") (level.has "json"), directory)
    | _ => throw .usage
  | "package" => readChange environment (changesOf name) readPackage arguments
  | "service" => readChange environment (changesOf name) readService arguments
  | "source" => readChange environment (changesOf name) readSource arguments
  | "help" => .error (helpOn commandNames arguments)
  | _ => .error .usage

/--
The invocation that a command line stands for.

The directory may be given on every level; the innermost one counts, and then the one from outside.
-/
def readInvocation (environment : Environment) (arguments : List String) :
    Except Stop Invocation := do
  let level ← readLevel (branchShape true) .empty none arguments
  match level.below with
  | none =>
    let outer ← givenDirectory environment level
    return ⟨outer.orElse fun _ => environment.directory, none⟩
  | some (name, rest) =>
    let (command, inner) ← readCommand environment name rest
    -- The command is read first, so that its faults are told before those of the directory.
    let outer ← givenDirectory environment level
    return ⟨(inner.orElse fun _ => outer).orElse fun _ => environment.directory, some command⟩

end NixKeeper.CommandLine
