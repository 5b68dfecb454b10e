import NixKeeper.Files.SystemFile.Reader
import NixKeeper.Proofs.Files.Assignment

/-! What the generated lines of the system file are taken for, outside of lists and blocks. -/

namespace NixKeeper.Files.SystemFile

/-- The words before the name of a hardware module. -/
def hardwareWords : List Char :=
  "inputs.nixos-hardware.nixosModules.".toList

/-- A text without the words names no hardware module. -/
theorem hardwarePreset?_eq_none {clean : List Char} (absent : ¬ hardwareWords <:+: clean) :
    hardwarePreset? clean = none := by
  refine Text.findFirst_eq_none fun rest ending => ?_
  -- Wherever a name is found, the words stand before it.
  cases named : hardwareAt? rest with
  | none => rfl
  | some name =>
    obtain ⟨after, begins, -⟩ := Option.bind_eq_some_iff.1 named
    have front : hardwareWords <+: rest := ⟨after, List.append_eq_of_isPrefixOf?_eq_some begins⟩
    exact absurd (front.isInfix.trans ending.isInfix) absent

/-- The words do not stand in a text with fewer points. -/
theorem not_infix_of_count {text : List Char} (few : text.count '.' < 3) :
    ¬ hardwareWords <:+: text := by
  intro within
  -- The words themselves have three points.
  have points : hardwareWords.count '.' = 3 := by decide
  have bounded := within.sublist.count_le '.'
  omega

/-- A line that assigns no text tells no layout of the keyboard. -/
theorem keyboardLayout?_eq_none {clean : List Char}
    (noText : ∀ path, assignedText? path clean = none) : keyboardLayout? clean = none := by
  -- Both paths of the layout assign a text.
  rw [keyboardLayout?, noText, noText]
  rfl

/-- A line that ends neither a text nor a list is judged by the later rules. -/
theorem classify_of_last {clean : List Char} {c : Char} (last : clean.getLast? = some c)
    (shown : Text.isBlank c = false) (noEquals : c ≠ '=') (noQuote : c ≠ '"') (noBracket : c ≠ ']')
    (noHardware : hardwarePreset? clean = none) :
    classify clean = ((rules.drop 6).findSome? (· clean)).getD .nothing := by
  -- The first six rules look for a quoted text or a list, which the last character rules out.
  have noText (path : String) : assignedText? path clean = none :=
    assignedText?_eq_none path last shown noEquals noQuote
  have noLayout := keyboardLayout?_eq_none noText
  have noList : (assigned? "nix.settings.experimental-features" clean).bind Nix.parseList? = none :=
    bind_parseList?_eq_none _ last shown noEquals noBracket
  simp only [classify, rules, List.findSome?_cons, noText, noLayout, noHardware, noList,
    Option.map_none, List.drop_succ_cons, List.drop_zero]

/-- The name of the machine. -/
theorem classify_hostname (value : String) :
    classify (assignment "networking.hostName".toList (Nix.quote value.toList)) =
      .hostname value := by
  -- The rule for the hostname is the first.
  have path : IsPath "networking.hostName".toList := by decide
  have read := assignedText?_own value path
  simp only [classify, rules, List.findSome?_cons, read, Option.map_some, Option.getD_some]

/-- The zone of the machine's clock. -/
theorem classify_timezone (value : String) :
    classify (assignment "time.timeZone".toList (Nix.quote value.toList)) = .timezone value := by
  have path : IsPath "time.timeZone".toList := by decide
  have apart {other : String} (otherIsPath : IsPath other.toList) :=
    assignedText?_other value.toList path otherIsPath
  -- The rules before it ask for other paths.
  have hostname := @apart "networking.hostName" (by decide) (by decide)
  have timezone := assignedText?_own value path
  simp only [classify, rules, List.findSome?_cons, hostname, timezone, Option.map_none,
    Option.map_some, Option.getD_some]

/-- The locale of the machine. -/
theorem classify_locale (value : String) :
    classify (assignment "i18n.defaultLocale".toList (Nix.quote value.toList)) = .locale value := by
  have path : IsPath "i18n.defaultLocale".toList := by decide
  have apart {other : String} (otherIsPath : IsPath other.toList) :=
    assignedText?_other value.toList path otherIsPath
  -- The rules before it ask for other paths.
  have hostname := @apart "networking.hostName" (by decide) (by decide)
  have timezone := @apart "time.timeZone" (by decide) (by decide)
  have locale := assignedText?_own value path
  simp only [classify, rules, List.findSome?_cons, hostname, timezone, locale, Option.map_none,
    Option.map_some, Option.getD_some]

/-- The layout of the keyboard, under its current path. -/
theorem classify_keyboardLayout (value : String) :
    classify (assignment "services.xserver.xkb.layout".toList (Nix.quote value.toList)) =
      .keyboardLayout value := by
  have path : IsPath "services.xserver.xkb.layout".toList := by decide
  -- The rules before it ask for other paths.
  have apart {other : String} (otherIsPath : IsPath other.toList) :=
    assignedText?_other value.toList path otherIsPath
  have hostname := @apart "networking.hostName" (by decide) (by decide)
  have timezone := @apart "time.timeZone" (by decide) (by decide)
  have locale := @apart "i18n.defaultLocale" (by decide) (by decide)
  have layout := assignedText?_own value path
  simp only [classify, rules, List.findSome?_cons, hostname, timezone, locale, keyboardLayout?, layout,
    Option.orElse_some, Option.map_none, Option.map_some, Option.getD_some]

/-- No words for a hardware module reach over a blank. -/
theorem not_infix_assignment {path value : List Char} (noPath : ¬ hardwareWords <:+: path)
    (noValue : ¬ hardwareWords <:+: value) : ¬ hardwareWords <:+: assignment path value := by
  -- The words have no blank, and blanks stand on both sides of the equals sign.
  have noSpace : ' ' ∉ hardwareWords := by decide
  have noEquals : ¬ hardwareWords <:+: ['='] := not_infix_of_count (by decide)
  have shape : assignment path value = path ++ ' ' :: (['='] ++ ' ' :: value) := by
    simp [assignment]
  rw [shape, Text.infix_append_cons_iff noSpace, Text.infix_append_cons_iff noSpace]
  rintro (inPath | inEquals | inValue)
  · exact noPath inPath
  · exact noEquals inEquals
  · exact noValue inValue

/-- The name of a hardware module among the imports. -/
theorem classify_hardwarePreset {preset : String} (nonempty : preset.toList ≠ [])
    (named : ∀ c ∈ preset.toList, Text.isNameChar c = true) :
    classify (hardwareWords ++ preset.toList) = .hardwarePreset preset := by
  obtain ⟨c, last⟩ : ∃ c, preset.toList.getLast? = some c :=
    ⟨_, List.getLast?_eq_some_getLast nonempty⟩
  have isName := named c (List.mem_of_mem_getLast? last)
  have whole : (hardwareWords ++ preset.toList).getLast? = some c := by
    rw [List.getLast?_append_of_ne_nil _ nonempty, last]
  have noEquals : c ≠ '=' := Text.ne_of_class isName rfl
  have noQuote : c ≠ '"' := Text.ne_of_class isName rfl
  -- A line that ends with a character of a name assigns no text.
  have noText (path : String) : assignedText? path (hardwareWords ++ preset.toList) = none :=
    assignedText?_eq_none path whole (Text.isBlank_of_isNameChar isName) noEquals noQuote
  have noLayout := keyboardLayout?_eq_none noText
  have front : hardwareWords.isPrefixOf? (hardwareWords ++ preset.toList) = some preset.toList :=
    List.isPrefixOf?_eq_some_iff_append_eq.2 rfl
  have letters : preset.toList.takeWhile Text.isNameChar = preset.toList :=
    List.takeWhile_eq_self_iff.2 named
  have present : preset.toList.isEmpty = false := by simpa using nonempty
  have body : (if (preset.toList.takeWhile Text.isNameChar).isEmpty then none
      else some (String.ofList (preset.toList.takeWhile Text.isNameChar))) = some preset := by
    rw [letters, present, if_neg Bool.false_ne_true, String.ofList_toList]
  -- The words stand at the very beginning, so the search ends there.
  have found : hardwareAt? (hardwareWords ++ preset.toList) = some preset := by
    unfold hardwareAt?
    exact Option.bind_eq_some_iff.2 ⟨preset.toList, front, body⟩
  have read : hardwarePreset? (hardwareWords ++ preset.toList) = some preset :=
    Text.findFirst_of_some found
  simp only [classify, rules, List.findSome?_cons, noText, noLayout, read, Option.map_none,
    Option.map_some, Option.getD_some]

/-- A path that leads neither to a boot loader nor below the services switches nothing on. -/
theorem enableMeaning_eq_nothing {path : List Char} (noBoot : path.head? ≠ some 'b')
    (noService : ¬ "services.".toList <+: path) : enableMeaning path = .nothing := by
  have apart (word : List Char) (boot : word.head? = some 'b') : path ≠ word :=
    fun same => noBoot (same ▸ boot)
  rw [enableMeaning, if_neg (apart _ (by decide)), if_neg (apart _ (by decide))]
  cases between : Text.between? [] ".enable".toList path with
  | none => rfl
  | some service =>
    -- What is switched on begins as the path does.
    have starts : service <+: path := by
      rw [Text.eq_of_between? between]
      exact List.prefix_append _ _
    exact if_neg fun below => noService ((List.isPrefixOf_iff_prefix.1 below).trans starts)

/-- What is switched on below the services is a service. -/
theorem enableMeaning_service {service : List Char} (below : "services.".toList <+: service) :
    enableMeaning (service ++ ".enable".toList) = .serviceEnable (String.ofList service) := by
  have between : Text.between? [] ".enable".toList (service ++ ".enable".toList) = some service :=
    Text.between?_append [] service ".enable".toList
  -- The two fixed words are not below the services.
  have apart (word : List Char) (noService : word.head? ≠ some 's') :
      service ++ ".enable".toList ≠ word := by
    obtain ⟨rest, rfl⟩ := below
    exact fun same => noService (same ▸ rfl)
  rw [enableMeaning, if_neg (apart _ (by decide)), if_neg (apart _ (by decide)), between]
  exact if_pos (List.isPrefixOf_iff_prefix.2 below)

/-- Whatever a line below the inputs assigns is assigned to a path below the inputs. -/
theorem eq_of_assigns?_inputs {rest name : List Char} {value : String}
    (assigned : assigns? Text.isPathChar value ("inputs.".toList ++ rest) = some name) :
    name = "inputs.".toList ++ rest.takeWhile Text.isPathChar := by
  -- The prefix is on the path, so it is taken whole.
  rw [eq_takeWhile_of_assigns? assigned]
  exact List.takeWhile_append_of_pos (List.all_eq_true.1 (by decide))

/-- A line that begins with the inputs of the manifest can only name a hardware module. -/
theorem classify_inputs (rest : List Char) :
    classify ("inputs.".toList ++ rest) = .nothing ∨
      ∃ name, classify ("inputs.".toList ++ rest) = .hardwarePreset name := by
  -- The paths that the rules ask for begin with other letters.
  have unread (path : String) (apart : path.toList.isPrefixOf? ("inputs.".toList ++ rest) = none) :
      assigned? path ("inputs.".toList ++ rest) = none := by
    rw [assigned?, apart]
    rfl
  have hostname : assignedText? "networking.hostName" ("inputs.".toList ++ rest) = none := by
    rw [assignedText?, unread _ rfl, Option.bind_none]
  have timezone : assignedText? "time.timeZone" ("inputs.".toList ++ rest) = none := by
    rw [assignedText?, unread _ rfl, Option.bind_none]
  have locale : assignedText? "i18n.defaultLocale" ("inputs.".toList ++ rest) = none := by
    rw [assignedText?, unread _ rfl, Option.bind_none]
  have layout : keyboardLayout? ("inputs.".toList ++ rest) = none := by
    rw [keyboardLayout?, assignedText?, unread _ rfl, assignedText?, unread _ rfl]
    rfl
  have features := unread "nix.settings.experimental-features" rfl
  have swap : swapMeaning? ("inputs.".toList ++ rest) = none := by
    rw [swapMeaning?, unread _ rfl]
    rfl
  have user : userStart? ("inputs.".toList ++ rest) = none := rfl
  have packages : "environment.systemPackages".toList.isPrefixOf ("inputs.".toList ++ rest) = false :=
    rfl
  have service : serviceStart? ("inputs.".toList ++ rest) = none := by
    rw [serviceStart?]
    cases assigned : assigns? Text.isPathChar "\x7b" ("inputs.".toList ++ rest) with
    | none => rfl
    | some name =>
      rw [eq_of_assigns?_inputs assigned]
      rfl
  have meaning (name : List Char) : enableMeaning ("inputs.".toList ++ name) = .nothing := by
    refine enableMeaning_eq_nothing (fun same => by cases same) ?_
    rintro ⟨tail, same⟩
    cases same
  simp only [classify, rules, List.findSome?_cons, hostname, timezone, locale, layout, features, swap,
    user, service, packages, Option.map_none, Option.bind_none, Bool.false_eq_true, if_false]
  -- What is left are the module and the switch, which would have to end with fixed words.
  cases hardwarePreset? ("inputs.".toList ++ rest) with
  | some name => exact .inr ⟨name, rfl⟩
  | none =>
    left
    cases assigned : assigns? Text.isPathChar "true" ("inputs.".toList ++ rest) with
    | none => rfl
    | some name =>
      rw [Option.map_some, eq_of_assigns?_inputs assigned, meaning]
      rfl

/-- The features that are tried out. -/
theorem classify_experimentalFeatures {features : List String}
    (noBackslash : ∀ feature ∈ features, '\\' ∉ feature.toList)
    (noHardware : ∀ feature ∈ features, ¬ hardwareWords <:+: feature.toList) :
    classify (assignment "nix.settings.experimental-features".toList (Nix.formatList features)) =
      .experimentalFeatures features := by
  have path : IsPath "nix.settings.experimental-features".toList := by decide
  have last : (assignment "nix.settings.experimental-features".toList
      (Nix.formatList features)).getLast? = some ']' := by
    rw [getLast?_assignment _ (Nix.formatList_ne_nil features),
      Nix.getLast?_formatList]
  have noText (other : String) : assignedText? other
      (assignment "nix.settings.experimental-features".toList (Nix.formatList features)) = none :=
    assignedText?_eq_none other last rfl (by decide) (by decide)
  have noLayout := keyboardLayout?_eq_none noText
  -- The words could only stand inside of one feature.
  have noWords : ¬ hardwareWords <:+: Nix.formatList features := fun within => by
    have letter : 'i' ∈ hardwareWords := by decide
    obtain ⟨feature, among, inFeature⟩ := Nix.infix_of_infix_formatList (by decide) (by decide)
      (fun covered => absurd (covered letter) (by decide)) within
    exact noHardware feature among inFeature
  have noPath : ¬ hardwareWords <:+: "nix.settings.experimental-features".toList :=
    not_infix_of_count (by decide)
  have noPreset := hardwarePreset?_eq_none (not_infix_assignment noPath noWords)
  have read : (assigned? "nix.settings.experimental-features" (assignment
      "nix.settings.experimental-features".toList (Nix.formatList features))).bind Nix.parseList? =
        some features := by
    rw [assigned?_assignment _ _ path path, if_pos rfl, Option.bind_some, Nix.trim_formatList,
      Nix.parseList?_formatList noBackslash]
  simp only [classify, rules, List.findSome?_cons, noText, noLayout, noPreset, read, Option.map_none,
    Option.map_some, Option.getD_some]

/-- The size in gibibytes as a number: the sum is that of sixty-four bits, and the quotient is cut back. -/
theorem toNat_swapGibibytes (mebibytes : UInt64) :
    (swapGibibytes mebibytes).toNat = min ((mebibytes.toNat + 512) % UInt64.size / 1024) 0xFFFFFFFF := by
  have quotient : ((mebibytes + 512) / 1024).toNat = (mebibytes.toNat + 512) % UInt64.size / 1024 := by
    rw [UInt64.toNat_div, UInt64.toNat_add]
    rfl
  rw [swapGibibytes, ← quotient]
  -- A quotient of thirty-two bits stays what it is, and a greater one becomes the greatest of them.
  split
  · rename_i fits
    have fits : ((mebibytes + 512) / 1024).toNat ≤ 0xFFFFFFFF := UInt64.le_iff_toNat_le.1 fits
    rw [UInt64.toNat_toUInt32, Nat.min_eq_left fits, Nat.mod_eq_of_lt (Nat.lt_succ_of_le fits)]
  · rename_i exceeds
    have exceeds : 0xFFFFFFFF < ((mebibytes + 512) / 1024).toNat :=
      UInt64.lt_iff_toNat_lt.1 (UInt64.not_le.1 exceeds)
    rw [Nat.min_eq_right exceeds.le]
    rfl

/-- Of the sizes that are taken for those of a swap file, exactly the 512 greatest wrap around to none. -/
theorem swapGibibytes_eq_zero_iff {mebibytes : UInt64} (large : 1024 ≤ mebibytes) :
    swapGibibytes mebibytes = 0 ↔ UInt64.size - 512 ≤ mebibytes.toNat := by
  have bound := mebibytes.toNat_lt_size
  have large : 1024 ≤ mebibytes.toNat := UInt64.le_iff_toNat_le.1 large
  -- Without wrapping around the sum is large enough for one gibibyte.
  rw [← UInt32.toNat_inj, toNat_swapGibibytes]
  change _ = 0 ↔ _
  simp only [UInt64.size] at bound ⊢
  omega

/-- A whole number of gibibytes is not changed by rounding. -/
theorem swapGibibytes_mul (size : UInt32) :
    swapGibibytes (UInt64.ofNat (size.toNat * 1024)) = size := by
  have small : size.toNat < 2 ^ 32 := size.toNat_lt
  -- Half a gibibyte more neither wraps around nor fills another gibibyte.
  have exact : (UInt64.ofNat (size.toNat * 1024)).toNat = size.toNat * 1024 :=
    UInt64.toNat_ofNat_of_lt' (by simp only [UInt64.size]; omega)
  rw [← UInt32.toNat_inj, toNat_swapGibibytes, exact, UInt64.size]
  omega

/-- The size of a swap file in mebibytes is read back in gibibytes. -/
theorem swapMeaning?_size {size : UInt32} (positive : size ≠ 0) :
    swapMeaning? (assignment "size".toList (Decimal.ofNat (size.toNat * 1024))) =
      some (.swapSize size) := by
  have path : IsPath "size".toList := by decide
  have shown (d : Char) (within : d ∈ Decimal.ofNat (size.toNat * 1024)) : Text.isBlank d = false :=
    Text.isBlank_of_isDigit (Decimal.isDigit_of_mem_ofNat within)
  have trimmed : Text.trim (Decimal.ofNat (size.toNat * 1024)) = Decimal.ofNat (size.toNat * 1024) :=
    Text.trim_eq_self_iff.2 ⟨fun d first => shown d (List.mem_of_mem_head? first),
      fun d last => shown d (List.mem_of_mem_getLast? last)⟩
  have small := size.toNat_lt_size
  -- A size of 32 bits is within 64 bits even in mebibytes.
  have fits : size.toNat * 1024 < UInt64.size := by
    simp only [UInt32.size, UInt64.size] at small ⊢
    omega
  have number : Decimal.readUInt64? (Decimal.ofNat (size.toNat * 1024)) =
      some (UInt64.ofNat (size.toNat * 1024)) := by
    rw [Decimal.readUInt64?, Decimal.readUnsigned?_ofNat, Option.filter_some,
      if_pos (by simpa using fits), Option.map_some]
  -- One gibibyte is the least size that is taken for that of a swap file.
  have large : 1 ≤ size.toNat :=
    Nat.one_le_iff_ne_zero.2 fun zero => positive (UInt32.toNat_inj.1 zero)
  have enough : 1024 ≤ UInt64.ofNat (size.toNat * 1024) := by
    rw [UInt64.le_iff_toNat_le, UInt64.toNat_ofNat_of_lt' fits]
    change 1024 ≤ size.toNat * 1024
    omega
  rw [swapMeaning?, assigned?_assignment _ _ path path, if_pos rfl, Option.bind_some, trimmed, number,
    Option.bind_eq_bind, Option.bind_some, if_pos enough, swapGibibytes_mul]
  rfl

/-- The size of the swap file, of which there is at least a gibibyte. -/
theorem classify_swapSize {size : UInt32} (positive : size ≠ 0) :
    classify (assignment "size".toList (Decimal.ofNat (size.toNat * 1024))) = .swapSize size := by
  have nonempty := Decimal.ofNat_ne_nil (size.toNat * 1024)
  have digits : ∀ d ∈ Decimal.ofNat (size.toNat * 1024), d.isDigit = true := fun _ within =>
    Decimal.isDigit_of_mem_ofNat within
  obtain ⟨c, last⟩ : ∃ c, (Decimal.ofNat (size.toNat * 1024)).getLast? = some c :=
    ⟨_, List.getLast?_eq_some_getLast nonempty⟩
  have digit := digits c (List.mem_of_mem_getLast? last)
  -- Digits neither name a hardware module nor end like a text or a block.
  have noWords : ¬ hardwareWords <:+: Decimal.ofNat (size.toNat * 1024) := fun within =>
    Text.not_mem_of_class digits (by decide : 'i'.isDigit = false) (within.subset (by decide))
  have noPath : ¬ hardwareWords <:+: "size".toList := not_infix_of_count (by decide)
  have whole : (assignment "size".toList (Decimal.ofNat (size.toNat * 1024))).getLast? = some c := by
    rw [getLast?_assignment _ nonempty, last]
  rw [classify_of_last whole (Text.isBlank_of_isDigit digit) (Text.ne_of_class digit rfl)
    (Text.ne_of_class digit rfl) (Text.ne_of_class digit rfl)
    (hardwarePreset?_eq_none (not_infix_assignment noPath noWords))]
  simp only [rules, List.drop_succ_cons, List.drop_zero, List.findSome?_cons, swapMeaning?_size positive,
    Option.getD_some]

/-- A username: characters of names, at least one. -/
structure IsUsername (name : String) : Prop where
  nonempty : name.toList ≠ []
  named : ∀ c ∈ name.toList, Text.isNameChar c = true

/-- A line that opens the block of a user. -/
theorem classify_userStart {name : String} (isUsername : IsUsername name) :
    classify (assignment ("users.users.".toList ++ name.toList) "\x7b".toList) = .userStart name := by
  have last : (assignment ("users.users.".toList ++ name.toList) "\x7b".toList).getLast? =
      some '{' := by
    rw [getLast?_assignment _ (by decide)]
    decide
  -- The path has two points, and the words have three.
  have noPoint : name.toList.count '.' = 0 :=
    List.count_eq_zero.2 (Text.not_mem_of_class isUsername.named rfl)
  have noPath : ¬ hardwareWords <:+: "users.users.".toList ++ name.toList := by
    refine not_infix_of_count ?_
    rw [List.count_append, noPoint]
    decide
  have noValue : ¬ hardwareWords <:+: "\x7b".toList := not_infix_of_count (by decide)
  have noSwap : swapMeaning? (assignment ("users.users.".toList ++ name.toList) "\x7b".toList) = none :=
    rfl
  have front : "users.users.".toList.isPrefixOf?
      (assignment ("users.users.".toList ++ name.toList) "\x7b".toList) =
        some (assignment name.toList "\x7b".toList) := rfl
  have block : assigns? Text.isNameChar "\x7b" (assignment name.toList "\x7b".toList) =
      some name.toList := by
    rw [assigns?_assignment _ _ isUsername.nonempty isUsername.named rfl]
    rfl
  have read : userStart? (assignment ("users.users.".toList ++ name.toList) "\x7b".toList) =
      some name := by
    rw [userStart?, front, Option.bind_eq_bind, Option.bind_some, block,
      Option.bind_some, String.ofList_toList]
    rfl
  rw [classify_of_last last rfl (by decide) (by decide) (by decide)
    (hardwarePreset?_eq_none (not_infix_assignment noPath noValue))]
  simp only [rules, List.drop_succ_cons, List.drop_zero, List.findSome?_cons, noSwap, read,
    Option.map_some, Option.getD_some]

/-- The path of a service, which leads below the services. -/
structure IsServicePath (name : List Char) : Prop where
  below : ∃ c rest, name = "services.".toList ++ c :: rest
  onPath : ∀ c ∈ name, Text.isPathChar c = true

/-- The path of a service is a path. -/
theorem IsServicePath.isPath {name : List Char} (isService : IsServicePath name) : IsPath name := by
  obtain ⟨c, rest, shape⟩ := isService.below
  -- The part below the prefix has a first character.
  exact ⟨by simp [shape], isService.onPath⟩

/-- An assignment below the services is about no swap file, no user and no package. -/
theorem unread_of_below {path value : List Char} (below : "services.".toList <+: path) :
    swapMeaning? (assignment path value) = none ∧ userStart? (assignment path value) = none ∧
      "environment.systemPackages".toList.isPrefixOf (assignment path value) = false := by
  obtain ⟨rest, rfl⟩ := below
  -- The path begins with another word, which is seen in its first letters.
  exact ⟨rfl, rfl, rfl⟩

/-- A service stands below the services. -/
theorem IsServicePath.prefix_name {name : List Char} (isService : IsServicePath name) :
    "services.".toList <+: name := by
  -- The prefix stands in front of the part below.
  obtain ⟨c, rest, shape⟩ := isService.below
  exact ⟨c :: rest, shape.symm⟩

/-- A line that opens the block of a service. -/
theorem classify_serviceStart {name : String} (isService : IsServicePath name.toList)
    (noHardware : ¬ hardwareWords <:+: name.toList) :
    classify (assignment name.toList "\x7b".toList) = .serviceStart name := by
  have last : (assignment name.toList "\x7b".toList).getLast? = some '{' := by
    rw [getLast?_assignment _ (by decide)]
    decide
  have noValue : ¬ hardwareWords <:+: "\x7b".toList := not_infix_of_count (by decide)
  -- Only the rule for blocks of services applies to a path that is assigned a brace.
  have block : assigns? Text.isPathChar "\x7b" (assignment name.toList "\x7b".toList) =
      some name.toList := by
    rw [assigns?_assignment _ _ isService.isPath.nonempty isService.onPath rfl]
    rfl
  obtain ⟨noSwap, noUser, -⟩ := @unread_of_below _ "\x7b".toList isService.prefix_name
  obtain ⟨c, rest, shape⟩ := isService.below
  have front : "services.".toList.isPrefixOf? name.toList = some (c :: rest) :=
    List.isPrefixOf?_eq_some_iff_append_eq.2 shape.symm
  have read : serviceStart? (assignment name.toList "\x7b".toList) = some name := by
    rw [serviceStart?, block, Option.bind_eq_bind, Option.bind_some, front,
      Option.bind_some, List.isEmpty_cons, if_neg Bool.false_ne_true, String.ofList_toList]
  rw [classify_of_last last rfl (by decide) (by decide) (by decide)
    (hardwarePreset?_eq_none (not_infix_assignment noHardware noValue))]
  simp only [rules, List.drop_succ_cons, List.drop_zero, List.findSome?_cons, noSwap, noUser, read,
    Option.map_none, Option.map_some, Option.getD_some]

/-- The words stand before a point only if they stand before what follows the point. -/
theorem not_infix_enable {name : List Char} (noHardware : ¬ hardwareWords <:+: name ++ ['.']) :
    ¬ hardwareWords <:+: name ++ ".enable".toList := by
  -- The words end with a point, so they end at the last one or before it.
  have shape : name ++ ".enable".toList = (name ++ ['.']) ++ "enable".toList := by simp
  have last : hardwareWords.getLast? = some '.' := by decide
  rw [shape, Text.infix_append_iff_of_last_not_mem ?_ (by decide)]
  · exact noHardware
  · rw [last]
    rintro c ⟨⟩
    decide

/-- A line that switches a service on. -/
theorem classify_serviceEnable {name : String} (isService : IsServicePath name.toList)
    (noHardware : ¬ hardwareWords <:+: name.toList ++ ['.']) :
    classify (assignment (name.toList ++ ".enable".toList) "true".toList) = .serviceEnable name := by
  have last : (assignment (name.toList ++ ".enable".toList) "true".toList).getLast? = some 'e' := by
    rw [getLast?_assignment _ (by decide)]
    decide
  have noValue : ¬ hardwareWords <:+: "true".toList := not_infix_of_count (by decide)
  have isPath : IsPath (name.toList ++ ".enable".toList) := by
    refine ⟨List.append_ne_nil_of_right_ne_nil _ (by decide), fun c within => ?_⟩
    rcases List.mem_append.1 within with inName | inWord
    · exact isService.onPath c inName
    · exact List.all_eq_true.1 (by decide) c inWord
  -- What is assigned is no brace, so the line opens no block.
  have noBlock : serviceStart? (assignment (name.toList ++ ".enable".toList) "true".toList) = none := by
    have different : ¬ Text.trimStart "true".toList = "\x7b".toList := by decide
    rw [serviceStart?, assigns?_assignment _ _ isPath.nonempty isPath.onPath rfl, if_neg different]
    rfl
  have switched : assigns? Text.isPathChar "true"
      (assignment (name.toList ++ ".enable".toList) "true".toList) =
        some (name.toList ++ ".enable".toList) := by
    rw [assigns?_assignment _ _ isPath.nonempty isPath.onPath rfl]
    rfl
  obtain ⟨noSwap, noUser, noPackages⟩ := @unread_of_below _ "true".toList
    (isService.prefix_name.trans (List.prefix_append name.toList ".enable".toList))
  have meaning := enableMeaning_service isService.prefix_name
  rw [String.ofList_toList] at meaning
  rw [classify_of_last last rfl (by decide) (by decide) (by decide)
    (hardwarePreset?_eq_none (not_infix_assignment (not_infix_enable noHardware) noValue))]
  simp only [rules, List.drop_succ_cons, List.drop_zero, List.findSome?_cons, noSwap, noUser, noBlock,
    noPackages, switched, meaning, Option.map_none, Option.map_some, Option.getD_some,
    Bool.false_eq_true, if_false]

/-- A line that switches a program on. -/
theorem classify_program {program : List Char} (noPoint : '.' ∉ program) :
    classify (assignment ("programs.".toList ++ program ++ ".enable".toList) "true".toList) =
      .nothing := by
  have last : (assignment ("programs.".toList ++ program ++ ".enable".toList)
      "true".toList).getLast? = some 'e' := by
    rw [getLast?_assignment _ (by decide)]
    decide
  have noValue : ¬ hardwareWords <:+: "true".toList := not_infix_of_count (by decide)
  have noPath : ¬ hardwareWords <:+: "programs.".toList ++ program ++ ".enable".toList := by
    refine not_infix_of_count ?_
    rw [List.count_append, List.count_append, List.count_eq_zero.2 noPoint]
    decide
  have noSwap : swapMeaning? (assignment ("programs.".toList ++ program ++ ".enable".toList)
      "true".toList) = none := rfl
  have noUser : userStart? (assignment ("programs.".toList ++ program ++ ".enable".toList)
      "true".toList) = none := rfl
  have noPackages : "environment.systemPackages".toList.isPrefixOf
      (assignment ("programs.".toList ++ program ++ ".enable".toList) "true".toList) = false := rfl
  -- On a path or not, what is switched on is no brace.
  have noBlock : serviceStart? (assignment ("programs.".toList ++ program ++ ".enable".toList)
      "true".toList) = none := by
    have unread : assigns? Text.isPathChar "\x7b" (assignment
        ("programs.".toList ++ program ++ ".enable".toList) "true".toList) = none := by
      by_cases onPath : ∀ c ∈ program, Text.isPathChar c = true
      · rw [assigns?_program_of_onPath _ onPath, if_neg (by decide)]
      · exact assigns?_program _ onPath (by decide)
    rw [serviceStart?, unread]
    rfl
  have meaning : enableMeaning ("programs.".toList ++ program ++ ".enable".toList) = .nothing := by
    refine enableMeaning_eq_nothing (fun same => by cases same) ?_
    rintro ⟨tail, same⟩
    cases same
  rw [classify_of_last last rfl (by decide) (by decide) (by decide)
    (hardwarePreset?_eq_none (not_infix_assignment noPath noValue))]
  simp only [rules, List.drop_succ_cons, List.drop_zero, List.findSome?_cons, noSwap, noUser, noBlock,
    noPackages, Option.map_none, Bool.false_eq_true, if_false]
  by_cases onPath : ∀ c ∈ program, Text.isPathChar c = true
  · rw [assigns?_program_of_onPath _ onPath, if_pos rfl]
    exact meaning
  · rw [assigns?_program _ onPath (by decide)]
    rfl

/-- A line that means something has its meaning from one of the rules. -/
theorem exists_rule_of_classify {clean : List Char} {meaning : Meaning}
    (told : classify clean = meaning) (something : meaning ≠ .nothing) :
    ∃ rule ∈ rules, rule clean = some meaning := by
  rw [classify] at told
  -- Without a rule that applies the line means nothing.
  cases found : rules.findSome? (· clean) with
  | none =>
    rw [found] at told
    exact absurd told.symm something
  | some other =>
    rw [found, Option.getD_some] at told
    exact List.exists_of_findSome?_eq_some (told ▸ found)

/-- What a meaning that holds a name was read from. -/
def Meaning.ReadFrom (clean : List Char) : Meaning → Prop
  -- Only these two meanings carry a text that the pattern restricts.
  | .hardwarePreset name => hardwarePreset? clean = some name
  | .userStart name => userStart? clean = some name
  | _ => True

/-- A name in the meaning of a line was read by one rule alone. -/
theorem readFrom_of_classify {clean : List Char} {meaning : Meaning}
    (classified : classify clean = meaning) (something : meaning ≠ .nothing) : meaning.ReadFrom clean := by
  obtain ⟨rule, among, told⟩ := exists_rule_of_classify classified something
  have built {α : Type} {read : Option α} {build : α → Meaning}
      (told : read.map build = some meaning)
      (each : ∀ value, read = some value → (build value).ReadFrom clean) : meaning.ReadFrom clean := by
    obtain ⟨value, found, rfl⟩ := Option.map_eq_some_iff.1 told
    exact each value found
  -- The other rules have meanings of their own.
  simp only [rules, List.mem_cons, List.not_mem_nil, or_false] at among
  rcases among with rfl | rfl | rfl | rfl | rfl | rfl | rfl | rfl | rfl | rfl | rfl
  · exact built told fun _ _ => trivial
  · exact built told fun _ _ => trivial
  · exact built told fun _ _ => trivial
  · exact built told fun _ _ => trivial
  · exact built told fun _ found => found
  · exact built told fun _ _ => trivial
  · obtain ⟨mebibytes, -, given⟩ := Option.bind_eq_some_iff.1 told
    split at given <;> cases given <;> trivial
  · exact built told fun _ found => found
  · exact built told fun _ _ => trivial
  · dsimp only at told
    split at told <;> cases told
    trivial
  · refine built told fun path _ => ?_
    rw [enableMeaning]
    split
    · trivial
    · split
      · trivial
      · split
        · split <;> trivial
        · trivial

/-- A line opens the block of a user by one rule alone. -/
theorem userStart?_of_classify {clean : List Char} {name : String}
    (meaning : classify clean = .userStart name) : userStart? clean = some name :=
  -- Only one rule gives the beginning of a user block.
  readFrom_of_classify meaning nofun

/-- A line that opens the block of a user names the user. -/
theorem ne_empty_of_classify {clean : List Char} {name : String}
    (meaning : classify clean = .userStart name) : name ≠ "" := by
  -- The rule that opens a block of a user asks for a name with a character.
  obtain ⟨rest, -, given⟩ := Option.bind_eq_some_iff.1 (userStart?_of_classify meaning)
  obtain ⟨letters, assigned, same⟩ := Option.bind_eq_some_iff.1 given
  rintro rfl
  have empty : letters = [] := by simpa using congrArg (Option.map String.toList) same
  exact ne_nil_of_assigns? assigned empty

/-- A line that names a hardware module does not leave the name empty. -/
theorem ne_empty_of_classify_hardwarePreset {clean : List Char} {name : String}
    (meaning : classify clean = .hardwarePreset name) : name ≠ "" := by
  have found : hardwarePreset? clean = some name := readFrom_of_classify meaning nofun
  obtain ⟨text, -, known⟩ := Text.exists_of_findFirst found
  obtain ⟨rest, -, given⟩ := Option.bind_eq_some_iff.1 known
  -- The pattern asks for at least one character of a name.
  dsimp only at given
  split at given
  · cases given
  · rename_i nonempty
    obtain rfl := Option.some.inj given
    simpa using nonempty

end NixKeeper.Files.SystemFile
