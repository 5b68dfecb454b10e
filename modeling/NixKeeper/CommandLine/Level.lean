import NixKeeper.Text.Search

/-!
One level of a command line: the options of a command, and the words between them.

A level ends where the name of a command below it stands; everything behind that name belongs to the
next level.
-/

namespace NixKeeper.CommandLine

/-- An option, which stands alone or before a value. -/
structure Switch where
  long : String
  short : Option Char
  takesValue : Bool

/-- Why the reading of a command line ends early. -/
inductive Stop where
  /-- The arguments make no sense. -/
  | usage
  /-- Help is asked for. -/
  | help
  /-- The version is asked for. -/
  | version
deriving DecidableEq

/-- What has been found on a level. -/
structure Level where
  /-- The options by their long names, with their values; an option without a value has none. -/
  options : List (String × Option String)
  /-- The words that are no options. -/
  words : List String
  /-- The name of the command below, and the arguments behind it. -/
  below : Option (String × List String)

namespace Level

/-- A level on which nothing has been found. -/
def empty : Level :=
  ⟨[], [], none⟩

/-- The option has been given. -/
def has (level : Level) (name : String) : Bool :=
  level.options.any (·.1 == name)

/-- The value of an option. -/
def value? (level : Level) (name : String) : Option String :=
  (level.options.lookup name).join

/-- Adds an option, which may not be given twice. -/
def addOption (level : Level) (name : String) (value : Option String) : Except Stop Level :=
  -- Each option says one thing, which a second mention could contradict.
  if level.has name then .error .usage
  else .ok { level with options := level.options ++ [(name, value)] }

/-- Adds a word, unless there are as many as allowed. -/
def addWord (level : Level) (limit : Nat) (word : String) : Except Stop Level :=
  -- One word too many is an error, and not another argument.
  if limit ≤ level.words.length then .error .usage
  else .ok { level with words := level.words ++ [word] }

end Level

/-- What a command accepts. -/
structure Shape where
  switches : List Switch
  /-- The number of words. -/
  words : Nat
  /-- A command stands below. -/
  hasCommands : Bool
  /-- The command has a version of its own to show. -/
  hasVersion : Bool

/-- An argument is read as an option. -/
def isOption (argument : List Char) : Bool :=
  match argument with
  -- A single hyphen is a word.
  | '-' :: _ :: _ => true
  | _ => false

/-- What an argument asks for: options that are complete, and one that still needs a value. -/
structure Request where
  level : Level
  pending : Option String

/-- Reads a long option after its two hyphens. -/
def readLong (shape : Shape) (level : Level) (argument : List Char) : Except Stop Request :=
  -- Everything behind the first equals sign is the value, even if it is empty.
  let (name, value) := match Text.splitFirst ['='] argument with
    | some (name, value) => (String.ofList name, some (String.ofList value))
    | none => (String.ofList argument, none)
  match shape.switches.find? (·.long == name) with
  | some switch =>
    match switch.takesValue, value with
    | true, some value => (level.addOption name (some value)).map (⟨·, none⟩)
    | true, none => if level.has name then .error .usage else .ok ⟨level, some name⟩
    | false, none => (level.addOption name none).map (⟨·, none⟩)
    -- An option that stands alone has no use for a value.
    | false, some _ => .error .usage
  | none =>
    -- Help and version end the reading at once, whatever stands behind them.
    if name = "help" ∧ value.isNone then .error .help
    else if name = "version" ∧ value.isNone ∧ shape.hasVersion then .error .version
    else .error .usage

/-- Reads short options after their hyphen; the first that takes a value takes the rest as its value. -/
def readShort (shape : Shape) (level : Level) : List Char → Except Stop Request
  | [] => .ok ⟨level, none⟩
  | c :: rest =>
    match shape.switches.find? (·.short == some c) with
    | some switch =>
      if switch.takesValue then
        match rest with
        -- Nothing is left in this argument, so the next one is the value.
        | [] => if level.has switch.long then .error .usage else .ok ⟨level, some switch.long⟩
        | '=' :: value =>
          (level.addOption switch.long (some (String.ofList value))).map (⟨·, none⟩)
        | value => (level.addOption switch.long (some (String.ofList value))).map (⟨·, none⟩)
      else
        match level.addOption switch.long none with
        | .ok level => readShort shape level rest
        | .error stop => .error stop
    | none =>
      if c = 'h' then .error .help
      else if c = 'V' ∧ shape.hasVersion then .error .version
      else .error .usage

/-- Reads an argument that is an option or several. -/
def readOption (shape : Shape) (level : Level) : List Char → Except Stop Request
  -- Two dashes begin a long option and one begins a short one.
  | '-' :: '-' :: argument => readLong shape level argument
  | '-' :: argument => readShort shape level argument
  | _ => .error .usage

/-- Reads the words behind two hyphens that stand alone, none of which is an option or a command. -/
def readWords (shape : Shape) (level : Level) : List String → Except Stop Level
  -- Each of them counts towards the limit.
  | [] => .ok level
  | word :: rest =>
    match level.addWord shape.words word with
    | .ok level => readWords shape level rest
    | .error stop => .error stop

/-- Reads the arguments of a level; an option that needs a value takes the next argument. -/
def readLevel (shape : Shape) (level : Level) (pending : Option String) :
    List String → Except Stop Level
  | [] => if pending.isSome then .error .usage else .ok level
  | argument :: rest =>
    match pending with
    | some name =>
      -- An option cannot be the value of the one before it.
      if isOption argument.toList then .error .usage
      else
        match level.addOption name (some argument) with
        | .ok level => readLevel shape level none rest
        | .error stop => .error stop
    | none =>
      -- Two hyphens alone end the options.
      if argument = "--" then readWords shape level rest
      else if isOption argument.toList then
        match readOption shape level argument.toList with
        | .ok request => readLevel shape request.level request.pending rest
        | .error stop => .error stop
      -- The first word is the name of a command, and the rest is left to that command.
      else if shape.hasCommands then .ok { level with below := some (argument, rest) }
      else
        match level.addWord shape.words argument with
        | .ok level => readLevel shape level none rest
        | .error stop => .error stop

end NixKeeper.CommandLine
