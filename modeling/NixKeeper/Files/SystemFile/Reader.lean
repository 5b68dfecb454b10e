import NixKeeper.Decimal.Integer
import NixKeeper.Files.Statement

/-!
What the file with the settings of the machine says about the model.

Every line is read by itself, in a context that tells which list or block is open. A line that no
rule recognises is passed over.
-/

namespace NixKeeper.Files.SystemFile

/-- What a line outside of lists and blocks says. -/
inductive Meaning where
  | hostname (value : String)
  | timezone (value : String)
  | locale (value : String)
  | keyboardLayout (value : String)
  | hardwarePreset (name : String)
  | experimentalFeatures (features : List String)
  | swapSize (size : UInt32)
  | userStart (name : String)
  | serviceStart (name : String)
  | packagesStart
  | serviceEnable (name : String)
  | bootloader (loader : Bootloader)
  | nothing
deriving DecidableEq

/-- The layout of the keyboard, under its current path or its former one. -/
def keyboardLayout? (clean : List Char) : Option String :=
  -- The new path counts before the old one.
  (assignedText? "services.xserver.xkb.layout" clean).orElse fun _ =>
    assignedText? "services.xserver.layout" clean

/-- The name of a hardware module at the head of a text. -/
def hardwareAt? (text : List Char) : Option String := do
  -- The words and at least one character of a name have to stand here.
  let rest ← "inputs.nixos-hardware.nixosModules.".toList.isPrefixOf? text
  let name := rest.takeWhile Text.isNameChar
  if name.isEmpty then none else some (String.ofList name)

/-- The first hardware module that a line names anywhere. -/
def hardwarePreset? (clean : List Char) : Option String :=
  Text.findFirst hardwareAt? clean

/--
The size of the swap file in gibibytes from its size in mebibytes, rounded to the nearest.

The sum has sixty-four bits and wraps around, as in a build that does not check for overflow: of the
512 greatest sizes nothing is left. A build that checks stops at such a line instead.
-/
def swapGibibytes (mebibytes : UInt64) : UInt32 :=
  -- Half a gibibyte is added before the division, and this is the sum that may wrap around.
  let gibibytes := (mebibytes + 512) / 1024
  -- A size beyond thirty-two bits is cut back to the greatest one.
  if gibibytes ≤ 0xFFFFFFFF then gibibytes.toUInt32 else 0xFFFFFFFF

/-- What a size says; less than a gibibyte is not the size of a swap file. -/
def swapMeaning? (clean : List Char) : Option Meaning := do
  -- Sizes of other things may stand there too, but these are smaller.
  let mebibytes ← (assigned? "size" clean).bind Decimal.readUInt64?
  return if 1024 ≤ mebibytes then .swapSize (swapGibibytes mebibytes) else .nothing

/-- The name of a user whose block a line opens. -/
def userStart? (clean : List Char) : Option String := do
  -- The name ends at the first character that is not one of a name.
  let rest ← "users.users.".toList.isPrefixOf? clean
  let name ← assigns? Text.isNameChar "\x7b" rest
  return String.ofList name

/-- The path of a service whose block a line opens. -/
def serviceStart? (clean : List Char) : Option String := do
  let name ← assigns? Text.isPathChar "\x7b" clean
  -- The path has to lead below the services.
  let below ← "services.".toList.isPrefixOf? name
  if below.isEmpty then none else some (String.ofList name)

/-- What switching a path on says. -/
def enableMeaning (path : List Char) : Meaning :=
  -- Only the boot loaders and the services are switched by paths that matter here.
  if path = "boot.loader.systemd-boot.enable".toList then .bootloader .systemdBoot
  else if path = "boot.loader.grub.enable".toList then .bootloader .grub
  else
    match Text.between? [] ".enable".toList path with
    | some service =>
      if "services.".toList.isPrefixOf service then .serviceEnable (String.ofList service)
      else .nothing
    | none => .nothing

/-- The rules for a line outside of lists and blocks; the first that applies counts. -/
def rules : List (List Char → Option Meaning) :=
  [
    -- No line is read twice, so the order decides where two rules apply.
    fun clean => (assignedText? "networking.hostName" clean).map .hostname,
    fun clean => (assignedText? "time.timeZone" clean).map .timezone,
    fun clean => (assignedText? "i18n.defaultLocale" clean).map .locale,
    fun clean => (keyboardLayout? clean).map .keyboardLayout,
    fun clean => (hardwarePreset? clean).map .hardwarePreset,
    fun clean => ((assigned? "nix.settings.experimental-features" clean).bind
      Nix.parseList?).map .experimentalFeatures,
    swapMeaning?,
    fun clean => (userStart? clean).map .userStart,
    fun clean => (serviceStart? clean).map .serviceStart,
    fun clean =>
      if "environment.systemPackages".toList.isPrefixOf clean then some .packagesStart else none,
    fun clean => (assigns? Text.isPathChar "true" clean).map enableMeaning
  ]

/-- What a line outside of lists and blocks says. -/
def classify (clean : List Char) : Meaning :=
  (rules.findSome? (· clean)).getD .nothing

/-- The list or block that is open, with the number of blocks that are open inside it. -/
inductive Context where
  | top
  | packages
  /-- The block of the user at an index; without an index the block says nothing. -/
  | user (index : Option Nat) (depth : Nat)
  /-- The block of the service at an index. -/
  | service (index depth : Nat)
deriving DecidableEq

/-- The model read so far, the open context, and the users whose blocks have been read. -/
structure Progress where
  model : Model
  context : Context
  seen : List String

/--
The index of the user of a name, and the users with that user among them.

A user who stands alone under the placeholder name takes the new name; otherwise a new user is added.
-/
def claimUser (users : List User) (name placeholder : String) : Nat × List User :=
  match users.findIdx? (·.username == name) with
  | some index => (index, users)
  | none =>
    match users with
    | [only] =>
      -- The settings of the placeholder pass over to the user who has a name.
      if only.username = placeholder then (0, [{ only with username := name, description := name }])
      else (1, [only, .named name])
    | _ => (users.length, users ++ [.named name])

/-- The index of the service of a name, and the services with that service among them. -/
def claimService (services : List Service) (name : String) : Nat × List Service :=
  match services.findIdx? (·.name == name) with
  | some index => (index, services)
  -- A service whose block is read stays off until a line switches it on.
  | none => (services.length, services ++ [{ Service.named name with enabled := false }])

/-- The model with other system settings. -/
def withSystem (progress : Progress) (change : System → System) : Progress :=
  { progress with model := { progress.model with system := change progress.model.system } }

/-- Adds the packages in a part of the list, which is left if the part closes it. -/
def readPackages (renames : Renames) (progress : Progress) (part : List Char × Bool) : Progress :=
  let packages := collectPackages renames progress.model.system.packages part.1
  -- The bracket that ends the list leads out of it.
  { withSystem progress fun system => { system with packages } with
    context := if part.2 then .top else .packages }

/-- Opens the block of a user; a second block of the same user says nothing. -/
def openUser (placeholder : String) (progress : Progress) (name : String) : Progress :=
  -- The first block of a user has said everything.
  if progress.seen.contains name then { progress with context := .user none 0 }
  else
    let (index, users) := claimUser progress.model.users name placeholder
    { model := { progress.model with users }
      context := .user (some index) 0
      seen := progress.seen ++ [name] }

/-- Opens the block of a service. -/
def openService (progress : Progress) (name : String) : Progress :=
  -- A service that is new is entered, and the block that follows is its own.
  let (index, services) := claimService progress.model.system.services name
  { withSystem progress fun system => { system with services } with context := .service index 0 }

/-- Switches a service on. -/
def enableService (progress : Progress) (name : String) : Progress :=
  -- A service that is new is entered before it is switched on.
  let (index, services) := claimService progress.model.system.services name
  withSystem progress fun system =>
    { system with services := services.modify index fun service => { service with enabled := true } }

/-- Reads a line outside of lists and blocks. -/
def readTop (renames : Renames) (placeholder : String) (progress : Progress)
    (statement : Statement) : Progress :=
  -- The first rule that applies decides, and every other line is passed over.
  match classify statement.clean with
  | .hostname hostname => withSystem progress fun system => { system with hostname }
  | .timezone timezone => withSystem progress fun system => { system with timezone }
  | .locale locale => withSystem progress fun system => { system with locale }
  | .keyboardLayout keyboardLayout =>
    withSystem progress fun system => { system with keyboardLayout }
  | .hardwarePreset name =>
    withSystem progress fun system => { system with hardwarePreset := some name }
  | .experimentalFeatures experimentalFeatures =>
    withSystem progress fun system => { system with experimentalFeatures }
  | .swapSize swapSize => withSystem progress fun system => { system with swapSize }
  | .bootloader bootloader => withSystem progress fun system => { system with bootloader }
  | .serviceEnable name => enableService progress name
  | .serviceStart name => openService progress name
  | .packagesStart => readPackages renames progress (listOpening statement.raw)
  | .userStart name => openUser placeholder progress name
  | .nothing => progress

/-- The hash of a password, under either of the paths for it. -/
def password? (clean : List Char) : Option String :=
  -- The initial password counts where no hashed one is on the line.
  ((assigned? "hashedPassword" clean).orElse fun _ => assigned? "initialPassword" clean).bind
    Nix.unquote?

/-- A user after a line of the user's block. -/
def readUserLine (clean : List Char) (user : User) : User :=
  match assignedText? "description" clean with
  | some description => { user with description }
  | none =>
    match password? clean with
    -- Both paths fill the same field, and the last line counts.
    | some password => { user with hashedPassword := some password }
    | none =>
      match (assigned? "extraGroups" clean).bind Nix.parseList? with
      | some extraGroups => { user with extraGroups }
      | none =>
        match assigned? "shell" clean with
        | some shell => { user with shell := String.ofList shell }
        | none => user

/-- A character of an option's key, which may be quoted. -/
def isKeyChar (c : Char) : Bool :=
  Text.isPathChar c || c == '"'

/-- The key and the value of an option. -/
def option? (clean : List Char) : Option (String × List Char) := do
  -- The key is all that can be taken, and a value has to follow the equals sign.
  let key := clean.takeWhile isKeyChar
  if key.isEmpty then none
  let rest ← ['='].isPrefixOf? (Text.trimStart (clean.dropWhile isKeyChar))
  let value := Text.trimStart rest
  if value.isEmpty then none else some (String.ofList key, value)

/-- A service after a line of its block; an option that is no literal stays unset. -/
def readServiceLine (clean : List Char) (service : Service) : Service :=
  match option? clean with
  | none => service
  | some (key, value) =>
    if key = enableOption then { service with enabled := Text.trim value == "true".toList }
    else
      match Nix.parse? value with
      -- A later line of the same key replaces an earlier one.
      | some literal => { service with options := service.options.insert key literal }
      | none => service

/-- The context inside a block after a line that opens or closes a block in it. -/
def nested (clean : List Char) (depth : Nat) (inside : Nat → Context) : Option Context :=
  -- A brace at the beginning closes, even if another one opens at the end of the line.
  if closes clean then
    match depth with
    | 0 => some .top
    | depth + 1 => some (inside depth)
  else if opens clean then some (inside (depth + 1))
  else none

/-- Reads a line in the block of a user. -/
def readUser (progress : Progress) (index : Option Nat) (depth : Nat) (clean : List Char) :
    Progress :=
  match nested clean depth (.user index), index with
  | some context, _ => { progress with context }
  | none, some index =>
    -- Lines of inner blocks say nothing.
    if depth = 0 then
      { progress with model :=
        { progress.model with users := progress.model.users.modify index (readUserLine clean) } }
    else progress
  | none, none => progress

/-- Reads a line in the block of a service. -/
def readService (progress : Progress) (index depth : Nat) (clean : List Char) : Progress :=
  -- Braces inside the block are counted, and only lines of the block itself are read.
  match nested clean depth (.service index) with
  | some context => { progress with context }
  | none =>
    if depth = 0 then
      withSystem progress fun system =>
        { system with services := system.services.modify index (readServiceLine clean) }
    else progress

/-- Reads a line in the context that is open. -/
def readStatement (renames : Renames) (placeholder : String) (progress : Progress)
    (statement : Statement) : Progress :=
  -- Where the reader stands decides who reads the line.
  match progress.context with
  | .top => readTop renames placeholder progress statement
  | .packages => readPackages renames progress (listLine statement.raw)
  | .user index depth => readUser progress index depth statement.clean
  | .service index depth => readService progress index depth statement.clean

/-- The model with what the file says; the placeholder name may be taken over by its first user. -/
def read (renames : Renames) (placeholder : String) (text : List Char) (model : Model) : Model :=
  -- Reading starts outside of all lists and blocks.
  ((statements text).foldl (readStatement renames placeholder) ⟨model, .top, []⟩).model

end NixKeeper.Files.SystemFile
