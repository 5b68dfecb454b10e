import NixKeeper.Proofs.Files.Statement
import NixKeeper.Proofs.Nix.Reading

/-! What a generated assignment is read as. -/

namespace NixKeeper.Files

/-- The path of an assignment: characters of paths, at least one. -/
structure IsPath (path : List Char) : Prop where
  nonempty : path ≠ []
  onPath : ∀ c ∈ path, Text.isPathChar c = true

instance (path : List Char) : Decidable (IsPath path) :=
  decidable_of_iff (path ≠ [] ∧ path.all Text.isPathChar = true)
    ⟨fun both => ⟨both.1, List.all_eq_true.1 both.2⟩,
      fun isPath => ⟨isPath.1, List.all_eq_true.2 isPath.2⟩⟩

/-- The statement without its semicolon. -/
def assignment (path value : List Char) : List Char :=
  path ++ " = ".toList ++ value

/-- A path is plain. -/
theorem IsPath.isPlain {path : List Char} (isPath : IsPath path) : IsPlain path :=
  -- Neither a hash sign nor a line feed is a character of a path.
  @isPlain_of_forall Text.isPathChar path rfl rfl isPath.onPath

/-- A path may begin with a name. -/
theorem IsPath.of_name_append {name path : List Char} (named : ∀ c ∈ name, Text.isNameChar c = true)
    (isPath : IsPath path) : IsPath (name ++ path) := by
  refine ⟨List.append_ne_nil_of_right_ne_nil _ isPath.nonempty, fun c within => ?_⟩
  -- Every character of a name is also one of a path.
  rcases List.mem_append.1 within with inName | inPath
  · rw [Text.isPathChar, named c inName, Bool.true_or]
  · exact isPath.onPath c inPath

/-- Only one semicolon is dropped. -/
theorem dropSemicolon_concat (text : List Char) : dropSemicolon (text ++ [';']) = text := by
  -- The function looks at the reversed text, which begins with the semicolon.
  simp [dropSemicolon]

/-- A text that does not end with a semicolon stays as it is. -/
theorem dropSemicolon_of_ne {text : List Char} (unclosed : text.getLast? ≠ some ';') :
    dropSemicolon text = text := by
  rw [dropSemicolon]
  split
  · -- The reversed text would begin with the semicolon.
    rename_i rest reversed
    rw [← List.head?_reverse, reversed] at unclosed
    exact absurd rfl unclosed
  · rfl

/-- A semicolon is dropped behind a text that does not end with one. -/
theorem dropSemicolon_append {first : List Char} (second : List Char)
    (unclosed : first.getLast? ≠ some ';') :
    dropSemicolon (first ++ second) = first ++ dropSemicolon second := by
  rcases List.eq_nil_or_concat second with rfl | ⟨before, last, rfl⟩
  · rw [List.append_nil, dropSemicolon_of_ne unclosed]
    exact (List.append_nil first).symm
  · -- The last character of the second text is also the last one of both.
    rw [List.concat_eq_append]
    by_cases closed : last = ';'
    · rw [closed, dropSemicolon_concat, ← List.append_assoc, dropSemicolon_concat]
    · have open_ : (before ++ [last]).getLast? ≠ some ';' := by simpa using closed
      have whole : (first ++ (before ++ [last])).getLast? ≠ some ';' := by simpa using closed
      rw [dropSemicolon_of_ne whole, dropSemicolon_of_ne open_]

/-- What is said to be assigned is assigned to the characters of a name. -/
theorem eq_takeWhile_of_assigns? {isNamed : Char → Bool} {value : String} {clean name : List Char}
    (assigned : assigns? isNamed value clean = some name) : name = clean.takeWhile isNamed := by
  rw [assigns?] at assigned
  -- Only one branch gives a name, and it gives the characters that were taken.
  split at assigned
  · cases assigned
  · obtain ⟨rest, -, given⟩ := Option.bind_eq_some_iff.1 assigned
    split at given
    · exact (Option.some.inj given).symm
    · cases given

/-- Nothing is assigned to an empty name. -/
theorem ne_nil_of_assigns? {isNamed : Char → Bool} {value : String} {clean name : List Char}
    (assigned : assigns? isNamed value clean = some name) : name ≠ [] := by
  rw [eq_takeWhile_of_assigns? assigned]
  -- An empty name would have been refused.
  intro empty
  rw [assigns?, empty] at assigned
  cases assigned

/-- A text that begins with a character of a path. -/
def BeginsOnPath (text : List Char) : Prop :=
  ∃ c, text.head? = some c ∧ Text.isPathChar c = true

/-- A path begins with a character of a path. -/
theorem IsPath.begins {path : List Char} (isPath : IsPath path) : BeginsOnPath path := by
  obtain ⟨c, path, rfl⟩ := List.exists_cons_of_ne_nil isPath.nonempty
  exact ⟨c, rfl, isPath.onPath c List.mem_cons_self⟩

/-- A path goes on with characters of paths. -/
theorem IsPath.append {path rest : List Char} (isPath : IsPath path)
    (onPath : ∀ c ∈ rest, Text.isPathChar c = true) : IsPath (path ++ rest) :=
  -- What is put behind a path may be empty, since the path is not.
  ⟨List.append_ne_nil_of_left_ne_nil isPath.nonempty _, List.forall_mem_append.2 ⟨isPath.onPath, onPath⟩⟩

/-- What stands behind the first character does not matter. -/
theorem BeginsOnPath.append {text : List Char} (begins : BeginsOnPath text) (rest : List Char) :
    BeginsOnPath (text ++ rest) := by
  -- The first character of both is that of the first text.
  obtain ⟨c, head, onPath⟩ := begins
  obtain ⟨tail, rfl⟩ := List.head?_eq_some_iff.1 head
  exact ⟨c, rfl, onPath⟩

/-- A text that begins with a character of a path, and does not end with a blank, is a statement. -/
theorem statement?_of_begins {text : List Char} (begins : BeginsOnPath text)
    (shown : ∀ c ∈ text.getLast?, Text.isBlank c = false) :
    statement? text = some ⟨text, Text.trimEnd (dropSemicolon text)⟩ := by
  obtain ⟨c, head, onPath⟩ := begins
  -- Nothing is trimmed, and a character of a path begins no comment.
  have trimmed : Text.trim text = text := by
    refine Text.trim_eq_self_iff.2 ⟨?_, shown⟩
    rw [head]
    rintro d ⟨⟩
    exact Text.isBlank_of_isPathChar onPath
  obtain ⟨rest, rfl⟩ := List.head?_eq_some_iff.1 head
  have noHash : c ≠ '#' := Text.ne_of_class onPath rfl
  have noSlash : '/' ≠ c := (Text.ne_of_class onPath rfl).symm
  have noComment : ['/', '*'].isPrefixOf (c :: rest) = false := by
    simp [List.isPrefixOf, noSlash]
  have isOne : isStatement (c :: rest) = true := by
    simp [isStatement, noHash, noComment]
  rw [statement?, trimmed, if_pos isOne]

/-- The last character of an assignment is that of its value. -/
theorem getLast?_assignment (path : List Char) {value : List Char} (nonempty : value ≠ []) :
    (assignment path value).getLast? = value.getLast? := by
  -- The value stands last.
  rw [assignment, List.getLast?_append_of_ne_nil _ nonempty]

/-- A text that does not end with an opening brace opens no block. -/
theorem opens_of_getLast? {clean : List Char} {c : Char} (last : clean.getLast? = some c)
    (other : c ≠ '{') : opens clean = false := by
  rw [opens, last]
  simpa using other

/-- No block is closed by an assignment. -/
theorem closes_assignment {path : List Char} (value : List Char) (isPath : IsPath path) :
    closes (assignment path value) = false := by
  obtain ⟨c, rest, rfl⟩ := List.exists_cons_of_ne_nil isPath.nonempty
  have onPath := isPath.onPath c List.mem_cons_self
  -- The line begins with a character of a path, which is no brace.
  have other : c ≠ '}' := Text.ne_of_class onPath rfl
  rw [closes, assignment, List.cons_append, List.cons_append, List.head?_cons]
  simpa using other

/-- A generated assignment is a statement. -/
theorem statement?_assignment_semicolon {path value : List Char} (begins : BeginsOnPath path)
    (nonempty : value ≠ []) (shown : ∀ c ∈ value.getLast?, Text.isBlank c = false) :
    statement? (assignment path value ++ [';']) =
      some ⟨assignment path value ++ [';'], assignment path value⟩ := by
  have whole : BeginsOnPath (assignment path value ++ [';']) := by
    rw [assignment, List.append_assoc, List.append_assoc]
    exact begins.append _
  have last : (assignment path value ++ [';']).getLast? = some ';' := List.getLast?_concat
  -- Behind the dropped semicolon no blank is left, since the value ends with none.
  have kept : Text.trimEnd (assignment path value) = assignment path value :=
    Text.trimEnd_eq_self_iff.2 (by rwa [getLast?_assignment path nonempty])
  rw [statement?_of_begins whole (Text.forall_getLast?_of_eq last rfl), dropSemicolon_concat, kept]

/-- The first line of a generated block is a statement. -/
theorem statement?_assignment {path value : List Char} (begins : BeginsOnPath path)
    (nonempty : value ≠ []) (shown : ∀ c ∈ value.getLast?, Text.isBlank c = false)
    (unclosed : value.getLast? ≠ some ';') :
    statement? (assignment path value) = some ⟨assignment path value, assignment path value⟩ := by
  have whole : BeginsOnPath (assignment path value) := by
    rw [assignment, List.append_assoc]
    exact begins.append _
  -- The value ends with neither a blank nor a semicolon, so nothing is dropped.
  have last := getLast?_assignment path nonempty
  have kept : Text.trimEnd (assignment path value) = assignment path value :=
    Text.trimEnd_eq_self_iff.2 (by rwa [last])
  rw [statement?_of_begins whole (by rwa [last]), dropSemicolon_of_ne (by rwa [last]), kept]

/-- The first line of a generated block says what is opened. -/
theorem said_opening {path : List Char} (begins : BeginsOnPath path) :
    said (line (path ++ " = \x7b".toList)) =
      [⟨assignment path "\x7b".toList, assignment path "\x7b".toList⟩] := by
  have brace : "\x7b".toList.getLast? = some '{' := by decide
  -- Such a line is an assignment of an opening brace.
  have opening : path ++ " = \x7b".toList = assignment path "\x7b".toList := by
    simp [assignment]
  rw [opening, said_line, statement?_assignment begins (by decide)
    (Text.forall_getLast?_of_eq brace rfl) (by decide)]
  rfl

/-- An assignment says what it assigns. -/
theorem said_assign {path value : List Char} (begins : BeginsOnPath path) (nonempty : value ≠ [])
    (shown : ∀ c ∈ value.getLast?, Text.isBlank c = false) :
    said (assign path value) = [⟨assignment path value ++ [';'], assignment path value⟩] := by
  rw [assign, said_line, ← assignment, statement?_assignment_semicolon begins nonempty shown]
  -- The line ends with the semicolon, and the semicolon is no part of the statement.
  rfl

/-- An assignment of a text says what it assigns. -/
theorem said_assignText {path : List Char} (value : List Char) (begins : BeginsOnPath path) :
    said (assignText path value) =
      [⟨assignment path (Nix.quote value) ++ [';'], assignment path (Nix.quote value)⟩] :=
  -- A quoted text ends with its quote, which is no blank.
  said_assign begins (Nix.quote_ne_nil value) (Text.forall_getLast?_of_eq (Nix.getLast?_quote value) rfl)

/-- Switching a path on says that it is on. -/
theorem said_switchOn {path : List Char} (begins : BeginsOnPath path) :
    said (switchOn path) =
      [⟨assignment path "true".toList ++ [';'], assignment path "true".toList⟩] :=
  -- The word that switches on ends with a letter.
  said_assign begins (by decide) (@Text.forall_getLast?_of_eq "true".toList 'e' (by decide) rfl)

/-- A path is read from its own assignment, and from no other. -/
theorem assigned?_assignment {path : List Char} (other : String) (value : List Char)
    (isPath : IsPath path) (otherIsPath : IsPath other.toList) :
    assigned? other (assignment path value) =
      if other.toList = path then some (Text.trim value) else none := by
  have behind (rest : List Char) : Text.trimStart (" = ".toList ++ rest) = '=' :: ' ' :: rest := rfl
  split
  · rename_i same
    -- The path is followed by the equals sign that the assignment writes.
    have found : other.toList.isPrefixOf? (assignment path value) = some (" = ".toList ++ value) := by
      rw [same]
      exact List.isPrefixOf?_eq_some_iff_append_eq.2 (List.append_assoc _ _ _).symm
    rw [assigned?, found, Option.bind_eq_bind, Option.bind_some, behind]
    rfl
  · rename_i different
    rw [assigned?, Option.bind_eq_bind]
    cases begins : other.toList.isPrefixOf? (assignment path value) with
    | none => rfl
    | some rest =>
      have shape := List.append_eq_of_isPrefixOf?_eq_some begins
      rw [assignment, List.append_assoc, List.append_eq_append_iff] at shape
      rcases shape with ⟨longer, extended, remaining⟩ | ⟨longer, extended, remaining⟩
      · -- The other path is a part of the path, so no equals sign follows it.
        have nonempty : longer ≠ [] := by
          rintro rfl
          exact different (by rw [extended, List.append_nil])
        obtain ⟨c, longer, rfl⟩ := List.exists_cons_of_ne_nil nonempty
        have onPath := isPath.onPath c (by simp [extended])
        have kept : Text.trimStart rest = rest := Text.trimStart_eq_self_iff.2 (by
          rw [remaining]
          rintro d ⟨⟩
          exact Text.isBlank_of_isPathChar onPath)
        have noEquals : ['='].isPrefixOf? rest = none := by
          rw [Text.isPrefixOf?_eq_none_iff, remaining, List.cons_append, List.cons_prefix_cons]
          exact fun begins => Text.ne_of_class onPath rfl begins.1.symm
        rw [Option.bind_some, kept, noEquals]
        rfl
      · -- The other path would reach behind the path, where a blank stands.
        cases longer with
        | nil => exact absurd (by rw [extended, List.append_nil]) different
        | cons c longer =>
          have blank : c = ' ' := (List.cons.inj remaining).1.symm
          have onPath := otherIsPath.onPath c (by simp [extended])
          exact absurd blank (Text.ne_of_class onPath rfl)

/-- A text is read from its own assignment, and from no other. -/
theorem assignedText?_assignment {path : List Char} (other : String) (value : List Char)
    (isPath : IsPath path) (otherIsPath : IsPath other.toList) :
    assignedText? other (assignment path (Nix.quote value)) =
      if other.toList = path then some (String.ofList value) else none := by
  rw [assignedText?, assigned?_assignment other _ isPath otherIsPath]
  -- The value is found under its own path only, and then it is the quoted text.
  split
  · rw [Option.bind_some, Nix.trim_quote, Nix.unquote?_quote]
  · rfl

/-- A text is read from the assignment to its own path. -/
theorem assignedText?_own {path : String} (value : String) (isPath : IsPath path.toList) :
    assignedText? path (assignment path.toList (Nix.quote value.toList)) = some value := by
  -- Under its own path the text is found as it was quoted.
  rw [assignedText?_assignment path _ isPath isPath, if_pos rfl, String.ofList_toList]

/-- No text is read from the assignment to another path. -/
theorem assignedText?_other {path : List Char} {other : String} (value : List Char)
    (isPath : IsPath path) (otherIsPath : IsPath other.toList) (different : other.toList ≠ path) :
    assignedText? other (assignment path (Nix.quote value)) = none := by
  -- Another path does not match, whatever is assigned.
  rw [assignedText?_assignment other _ isPath otherIsPath, if_neg different]

/-- The path of an assignment ends at the blank before the equals sign. -/
theorem takeWhile_assignment {inPath : Char → Bool} {path : List Char} (value : List Char)
    (within : ∀ c ∈ path, inPath c = true) (space : inPath ' ' = false) :
    (assignment path value).takeWhile inPath = path := by
  -- The path ends at the space before the equals sign.
  rw [assignment, List.append_assoc, List.takeWhile_append_of_pos within]
  simp [space]

/-- Behind the path of an assignment stand the equals sign and the value. -/
theorem dropWhile_assignment {inPath : Char → Bool} {path : List Char} (value : List Char)
    (within : ∀ c ∈ path, inPath c = true) (space : inPath ' ' = false) :
    (assignment path value).dropWhile inPath = " = ".toList ++ value := by
  -- What is left behind the path begins with that space.
  rw [assignment, List.append_assoc, List.dropWhile_append_of_pos within]
  simp [space]

/-- A name is read from an assignment of the given value. -/
theorem assigns?_assignment {isNamed : Char → Bool} {path : List Char} (value : String)
    (actual : List Char) (nonempty : path ≠ []) (named : ∀ c ∈ path, isNamed c = true)
    (space : isNamed ' ' = false) :
    assigns? isNamed value (assignment path actual) =
      if Text.trimStart actual = value.toList then some path else none := by
  -- The name ends at the space before the equals sign.
  have behind : Text.trimStart (" = ".toList ++ actual) = '=' :: ' ' :: actual := rfl
  have present : path.isEmpty = false := by simpa using nonempty
  rw [assigns?, takeWhile_assignment actual named space, dropWhile_assignment actual named space,
    behind]
  simp only [present, Bool.false_eq_true, if_false]
  rfl

/-- No name is assigned a value if a character behind the name does not belong to the value. -/
theorem assigns?_eq_none {isNamed : Char → Bool} {value : String} {clean : List Char} {c : Char}
    (within : c ∈ clean.dropWhile isNamed) (shown : Text.isBlank c = false) (other : c ≠ '=')
    (absent : c ∉ value.toList) : assigns? isNamed value clean = none := by
  have stays (text : List Char) (inText : c ∈ text) : c ∈ Text.trimStart text :=
    Text.mem_dropWhile_of_mem inText shown
  rw [assigns?]
  cases (clean.takeWhile isNamed).isEmpty with
  | true => rfl
  | false =>
    cases equals : ['='].isPrefixOf? (Text.trimStart (clean.dropWhile isNamed)) with
    | none => rfl
    | some rest =>
      -- The character is passed over neither as a blank nor as the equals sign.
      have shape := List.append_eq_of_isPrefixOf?_eq_some equals
      have inRest : c ∈ rest := by
        have inWhole := stays _ within
        rw [← shape, List.singleton_append, List.mem_cons] at inWhole
        exact inWhole.resolve_left other
      have different : ¬ Text.trimStart rest = value.toList := fun same =>
        absent (same ▸ stays _ inRest)
      simp [different]

/-- A program that is switched on under another name than a path is no path that is assigned. -/
theorem assigns?_program {program : List Char} (value : String)
    (offPath : ¬ ∀ c ∈ program, Text.isPathChar c = true) (noPoint : '.' ∉ value.toList) :
    assigns? Text.isPathChar value
      (assignment ("programs.".toList ++ program ++ ".enable".toList) "true".toList) = none := by
  obtain ⟨c, within, other⟩ : ∃ c ∈ program, Text.isPathChar c = false := by
    simpa using offPath
  have shape : assignment ("programs.".toList ++ program ++ ".enable".toList) "true".toList =
      "programs.".toList ++ program ++ ".enable = true".toList := by
    simp [assignment]
  have inFront := Text.mem_dropWhile_of_mem (List.mem_append_right "programs.".toList within) other
  have nonempty : (("programs.".toList ++ program).dropWhile Text.isPathChar).isEmpty = false := by
    simpa using List.ne_nil_of_mem inFront
  -- The path ends inside of the program, so the point behind it is still to come.
  have point : '.' ∈ ("programs.".toList ++ program ++ ".enable = true".toList).dropWhile
      Text.isPathChar := by
    rw [List.dropWhile_append, nonempty, if_neg Bool.false_ne_true]
    exact List.mem_append_right _ (by decide)
  rw [shape]
  exact assigns?_eq_none point rfl (by decide) noPoint

/-- A program that is switched on under a path is a path that is switched on. -/
theorem assigns?_program_of_onPath {program : List Char} (value : String)
    (onPath : ∀ c ∈ program, Text.isPathChar c = true) :
    assigns? Text.isPathChar value
      (assignment ("programs.".toList ++ program ++ ".enable".toList) "true".toList) =
        if "true".toList = value.toList then
          some ("programs.".toList ++ program ++ ".enable".toList)
        else none := by
  -- The switch of a program is a path as a whole.
  have isPath : ∀ c ∈ "programs.".toList ++ program ++ ".enable".toList,
      Text.isPathChar c = true := by
    intro c within
    rcases List.mem_append.1 within with inFront | inBack
    · rcases List.mem_append.1 inFront with inWord | inProgram
      · exact List.all_eq_true.1 (by decide) c inWord
      · exact onPath c inProgram
    · exact List.all_eq_true.1 (by decide) c inBack
  exact assigns?_assignment value _ (List.append_ne_nil_of_right_ne_nil _ (by decide)) isPath rfl

/-- What is assigned ends where the statement ends. -/
theorem getLast?_of_assigned? {path : String} {clean value : List Char} {c : Char}
    (last : clean.getLast? = some c) (shown : Text.isBlank c = false) (other : c ≠ '=')
    (assigned : assigned? path clean = some value) : value.getLast? = some c := by
  rw [assigned?, Option.bind_eq_bind] at assigned
  obtain ⟨rest, begins, assigned⟩ := Option.bind_eq_some_iff.1 assigned
  obtain ⟨behind, equals, same⟩ := Option.bind_eq_some_iff.1 assigned
  -- The last character stays the last one of each rest, up to the value.
  have front := List.append_eq_of_isPrefixOf?_eq_some begins
  have back := List.append_eq_of_isPrefixOf?_eq_some equals
  have restNonempty : rest ≠ [] := by
    rintro rfl
    cases back
  have atRest : rest.getLast? = some c := by
    rwa [← front, List.getLast?_append_of_ne_nil _ restNonempty] at last
  have atEquals := Text.getLast?_trimStart atRest shown
  rw [← back] at atEquals
  have behindNonempty : behind ≠ [] := by
    rintro rfl
    exact other (Option.some.inj atEquals).symm
  rw [List.getLast?_append_of_ne_nil _ behindNonempty] at atEquals
  have atBehind := Text.getLast?_trimStart atEquals shown
  rw [← Option.some.inj same, Text.trim, Text.trimEnd_eq_self_iff.2
    (Text.forall_getLast?_of_eq atBehind shown), atBehind]

/-- What a statement assigns lies between no delimiters if the statement ends with none. -/
theorem between?_trim_eq_none {path : String} {clean value : List Char} {c delimiter : Char}
    (opening : List Char) (last : clean.getLast? = some c) (shown : Text.isBlank c = false)
    (other : c ≠ '=') (different : c ≠ delimiter) (assigned : assigned? path clean = some value) :
    Text.between? opening [delimiter] (Text.trim value) = none := by
  have atValue := getLast?_of_assigned? last shown other assigned
  have atTrimmed := Text.getLast?_trimStart atValue shown
  rw [Text.trim, Text.trimEnd_eq_self_iff.2 (Text.forall_getLast?_of_eq atTrimmed shown)]
  -- A text between delimiters would end with the closing one.
  cases between : Text.between? opening [delimiter] (Text.trimStart value) with
  | none => rfl
  | some inside =>
    rw [Text.eq_of_between? between, List.getLast?_concat] at atTrimmed
    exact absurd (Option.some.inj atTrimmed).symm different

/-- A statement that does not end with a quote assigns no text. -/
theorem assignedText?_eq_none {clean : List Char} {c : Char} (path : String)
    (last : clean.getLast? = some c) (shown : Text.isBlank c = false) (other : c ≠ '=')
    (noQuote : c ≠ '"') : assignedText? path clean = none := by
  rw [assignedText?, Option.bind_eq_none_iff]
  intro value assigned
  rw [Nix.unquote?, between?_trim_eq_none ['"'] last shown other noQuote assigned, Option.bind_none]

/-- A statement that does not end with a bracket assigns no list. -/
theorem bind_parseList?_eq_none {clean : List Char} {c : Char} (path : String)
    (last : clean.getLast? = some c) (shown : Text.isBlank c = false) (other : c ≠ '=')
    (noBracket : c ≠ ']') : (assigned? path clean).bind Nix.parseList? = none := by
  rw [Option.bind_eq_none_iff]
  intro value assigned
  rw [Nix.parseList?, between?_trim_eq_none ['['] last shown other noBracket assigned,
    Option.bind_none]

end NixKeeper.Files
