import NixKeeper.Proofs.Files.SystemFile.Switches

/-!
Blocks inside the blocks of users and services.

Nothing in such a block is read, however deep it goes, and it ends at its own closing brace. So a file
without it says the same, and the lines behind it are read as if it were not there.
-/

namespace NixKeeper.Files

/-- The statements in the body of a region, or in a part of it that consists of whole lines. -/
def statementsOf (body : List Char) : List Statement :=
  (Text.lines body).filterMap statement?

/-- Behind a line feed the statements are those of another text. -/
theorem statementsOf_append {front : List Char} (ended : front.getLast? = some '\n')
    (rest : List Char) : statementsOf (front ++ rest) = statementsOf front ++ statementsOf rest := by
  obtain ⟨before, rfl⟩ := List.getLast?_eq_some_iff.1 ended
  -- The line feed ends the last line of the front, and the empty line behind it says nothing.
  have cut (rest : List Char) :
      Text.lines (before ++ '\n' :: rest) = Text.lines before ++ Text.lines rest :=
    List.splitOnP_append_cons _ _ (by simp)
  have silent : (Text.lines []).filterMap statement? = [] := rfl
  have whole := cut rest
  have alone := cut []
  simp only [statementsOf, List.append_assoc, List.singleton_append, whole, alone,
    List.filterMap_append, silent, List.append_nil]

namespace SystemFile

/-- A line opens a block and closes none. -/
structure OpensBlock (statement : Statement) : Prop where
  unclosed : closes statement.clean = false
  opening : opens statement.clean = true

/-- A line neither closes nor opens a block. -/
structure IsOrdinary (statement : Statement) : Prop where
  unclosed : closes statement.clean = false
  unopened : opens statement.clean = false

/-- The lines inside a block: ordinary ones, and whole blocks. -/
inductive IsInside : List Statement → Prop where
  | nil : IsInside []
  | ordinary {statement : Statement} {rest : List Statement} (isOrdinary : IsOrdinary statement)
      (later : IsInside rest) : IsInside (statement :: rest)
  | block {opening closing : Statement} {inside rest : List Statement} (begins : OpensBlock opening)
      (isInside : IsInside inside) (ends : closes closing.clean = true) (later : IsInside rest) :
      IsInside (opening :: inside ++ closing :: rest)

/-- The lines of a block, from the one that opens it to the one that closes it. -/
inductive IsInnerBlock : List Statement → Prop where
  | mk {opening closing : Statement} {inside : List Statement} (begins : OpensBlock opening)
      (isInside : IsInside inside) (ends : closes closing.clean = true) :
      IsInnerBlock (opening :: inside ++ [closing])

/-- The contexts in the block of one user or service, by the number of blocks open inside it. -/
inductive IsBlockContext : (Nat → Context) → Prop where
  | user (index : Option Nat) : IsBlockContext (.user index)
  | service (index : Nat) : IsBlockContext (.service index)

variable {renames : Renames} {placeholder : String} {now : Progress} {statement : Statement}
  {within : Nat → Context} {depth : Nat} {found : List Statement}

/-- A line that opens or closes a block inside the block of a user or a service says nothing else. -/
theorem readStatement_of_nested (isBlock : IsBlockContext within) {next : Context}
    (context : now.context = within depth)
    (change : nested statement.clean depth within = some next) :
    readStatement renames placeholder now statement = { now with context := next } := by
  -- Users and services are read by different functions, which treat braces alike.
  cases isBlock with
  | user index => simp only [readStatement, context, readUser, change]
  | service index => simp only [readStatement, context, readService, change]

/-- An ordinary line of an inner block says nothing. -/
theorem readStatement_of_inside (isBlock : IsBlockContext within)
    (context : now.context = within (depth + 1)) (isOrdinary : IsOrdinary statement) :
    readStatement renames placeholder now statement = now := by
  have plain : (closes statement.clean || opens statement.clean) = false := by
    simp [isOrdinary.unclosed, isOrdinary.unopened]
  -- Only at depth zero is a line looked at that neither opens nor closes a block.
  have stays : nested statement.clean (depth + 1) within = none := nested_eq_none_iff.2 plain
  cases isBlock with
  | user index =>
    cases index <;> simp [readStatement, context, readUser, stays]
  | service index => simp [readStatement, context, readService, stays]

/-- The line that opens an inner block leads one block deeper. -/
theorem readStatement_of_opens (isBlock : IsBlockContext within)
    (context : now.context = within depth) (begins : OpensBlock statement) :
    readStatement renames placeholder now statement =
      { now with context := within (depth + 1) } := by
  -- The line opens a block and does not close it, so the depth grows by one.
  refine readStatement_of_nested isBlock context ?_
  simp [nested, begins.unclosed, begins.opening]

/-- The line that closes an inner block leads back to the block around it. -/
theorem readStatement_of_closes (isBlock : IsBlockContext within)
    (context : now.context = within (depth + 1)) (ends : closes statement.clean = true) :
    readStatement renames placeholder now statement = { now with context := within depth } := by
  -- The closing brace is looked for first, so the depth falls by one.
  refine readStatement_of_nested isBlock context ?_
  simp [nested, ends]

/-- The lines inside an inner block say nothing, and its closing line is still to come. -/
theorem foldl_of_isInside (isBlock : IsBlockContext within) (isInside : IsInside found)
    (context : now.context = within (depth + 1)) :
    found.foldl (readStatement renames placeholder) now = now := by
  -- By the structure of the lines; a block among them is one deeper and leads back.
  induction isInside generalizing now depth with
  | nil => rfl
  | ordinary isOrdinary later ih =>
    rw [List.foldl_cons, readStatement_of_inside isBlock context isOrdinary, ih context]
  | block begins isInside ends later inner outer =>
    rw [List.cons_append, List.foldl_cons, readStatement_of_opens isBlock context begins,
      List.foldl_append, inner rfl, List.foldl_cons, readStatement_of_closes isBlock rfl ends,
      ← context]
    exact outer context

/-- An inner block says nothing, and the lines behind it are read in the block that it stands in. -/
theorem foldl_of_isInnerBlock (isBlock : IsBlockContext within) (isInner : IsInnerBlock found)
    (context : now.context = within depth) :
    found.foldl (readStatement renames placeholder) now = now := by
  -- The first line opens the block, and the last one leads back to where it was opened.
  cases isInner with
  | mk begins isInside ends =>
    rw [List.cons_append, List.foldl_cons, readStatement_of_opens isBlock context begins,
      List.foldl_append, foldl_of_isInside isBlock isInside rfl, List.foldl_cons, List.foldl_nil,
      readStatement_of_closes isBlock rfl ends, ← context]

/-- A scope is the body of a user's or a service's block, with no block open inside it. -/
inductive Scope.IsBlockBody : Scope → Prop where
  | user : IsBlockBody (.user 0)
  | service (name : String) : IsBlockBody (.service name 0)

/-- What a reading has come to behind some lines. -/
def progressBehind (renames : Renames) (placeholder : String) (base : Model)
    (found : List Statement) : Progress :=
  -- The text is read from its beginning, outside of blocks.
  found.foldl (readStatement renames placeholder) ⟨base, .top, []⟩

/-- Behind lines that lead into the body of a block, every reading is in that block. -/
theorem exists_blockContext (body : (found.foldl Scope.next .top).IsBlockBody) (base : Model) :
    ∃ within, IsBlockContext within ∧
      (progressBehind renames placeholder base found).context = within 0 := by
  -- The scope is that of a reading of the model to begin with, and no other reading differs in kind.
  have distinct : DistinctBy Service.name Model.initial.system.services :=
    List.pairwise_singleton _ _
  have begins : Tracks .top ⟨.initial, .top, []⟩ := ⟨distinct, .top rfl⟩
  obtain ⟨⟨-, comes⟩, -⟩ := @tracks_foldl renames placeholder _ _ begins found
  have start : Alike ⟨base, .top, []⟩ ⟨.initial, .top, []⟩ := ⟨rfl, rfl⟩
  obtain ⟨-, alike⟩ := @alike_foldl renames placeholder found _ _ start
  change (progressBehind renames placeholder base found).context.outline = _ at alike
  generalize found.foldl Scope.next .top = scope at body comes
  -- The outline leaves out which user or which service it is, and keeps the depth.
  cases body with
  | user =>
    cases comes with
    | @user index _ context =>
      rw [context] at alike
      cases here : (progressBehind renames placeholder base found).context with
      | user other depth =>
        obtain ⟨-, rfl⟩ : other.map (fun _ => 0) = index.map (fun _ => 0) ∧ depth = 0 := by
          simpa [here, Context.outline] using alike
        exact ⟨_, .user other, rfl⟩
      | _ => simp [here, Context.outline] at alike
  | service name =>
    cases comes with
    | service context _ =>
      rw [context] at alike
      cases here : (progressBehind renames placeholder base found).context with
      | service other depth =>
        obtain rfl : depth = 0 := by simpa [here, Context.outline] using alike
        exact ⟨_, .service other, rfl⟩
      | _ => simp [here, Context.outline] at alike

/-- A block stands on whole lines of a region, directly in the block of a user or of a service. -/
structure HoldsInnerBlock (region : Managed.Region) (head block tail : List Char) : Prop where
  body : region.body = head ++ block ++ tail
  begins : head.getLast? = some '\n'
  /-- Only the closing marker may stand on the last line of the block. -/
  ends : block.getLast? = some '\n' ∨ tail = []
  inBlock : ((statementsOf head).foldl Scope.next .top).IsBlockBody
  isInner : IsInnerBlock (statementsOf block)

variable {region : Managed.Region} {head block tail : List Char}

/-- The statements of the region are those before, in and behind the block. -/
theorem HoldsInnerBlock.statementsOf_body (holds : HoldsInnerBlock region head block tail) :
    statementsOf region.body = statementsOf head ++ statementsOf block ++ statementsOf tail := by
  -- Each of the three parts ends where a line does.
  have behind : statementsOf (block ++ tail) = statementsOf block ++ statementsOf tail := by
    rcases holds.ends with ended | nothing
    · exact statementsOf_append ended tail
    · have silent : statementsOf [] = [] := rfl
      simp [nothing, silent]
  rw [holds.body, List.append_assoc, statementsOf_append holds.begins, behind, List.append_assoc]

/-- Nothing becomes a marker when a block is taken out of a region. -/
theorem HoldsInnerBlock.locate_without (holds : HoldsInnerBlock region head block tail)
    {text : List Char} (located : Managed.locate text = some region) :
    Managed.locate (region.before ++ Managed.beginMarker ++ (head ++ tail) ++ Managed.endMarker ++
      region.after) = some { region with body := head ++ tail } := by
  obtain ⟨-, noBegin, noEnd, noEndInside⟩ := Managed.locate_eq_some_iff.1 located
  refine Managed.locate_eq_some_iff.2 ⟨rfl, noBegin, noEnd, fun within => noEndInside ?_⟩
  obtain ⟨before, rfl⟩ := List.getLast?_eq_some_iff.1 holds.begins
  -- A marker lies on one side of the line feed before the block.
  rw [List.append_assoc, List.singleton_append,
    Text.infix_append_cons_iff Managed.lineFeed_not_mem_endMarker] at within
  rw [holds.body]
  rcases within with inHead | inTail
  · exact inHead.trans ⟨[], '\n' :: (block ++ tail), by simp⟩
  · exact inTail.trans (List.suffix_append _ _).isInfix

/--
A block inside the block of a user or of a service says nothing.

A file without it says the same about every model, and the line behind it is read where its first line
was to be read.
-/
theorem read_without_innerBlock {text : List Char} (located : Managed.locate text = some region)
    (holds : HoldsInnerBlock region head block tail) (renames : Renames) (placeholder : String)
    (base : Model) :
    read renames placeholder (region.before ++ Managed.beginMarker ++ (head ++ tail) ++
        Managed.endMarker ++ region.after) base = read renames placeholder text base ∧
      progressBehind renames placeholder base (statementsOf head ++ statementsOf block) =
        progressBehind renames placeholder base (statementsOf head) := by
  obtain ⟨within, isBlock, context⟩ := @exists_blockContext renames placeholder _ holds.inBlock base
  have silent : progressBehind renames placeholder base (statementsOf head ++ statementsOf block) =
      progressBehind renames placeholder base (statementsOf head) := by
    rw [progressBehind, List.foldl_append]
    exact foldl_of_isInnerBlock isBlock holds.isInner context
  refine ⟨?_, silent⟩
  have whole : statements text = statementsOf head ++ statementsOf block ++ statementsOf tail :=
    (statements_of_locate located).trans holds.statementsOf_body
  have without : statements (region.before ++ Managed.beginMarker ++ (head ++ tail) ++
      Managed.endMarker ++ region.after) = statementsOf head ++ statementsOf tail :=
    (statements_of_locate (holds.locate_without located)).trans
      (statementsOf_append holds.begins tail)
  -- Both readings come to the same before the lines of the tail, which they have in common.
  rw [progressBehind, progressBehind] at silent
  rw [read, read, whole, without, List.foldl_append, List.foldl_append (l := _ ++ _), silent]

/-- The lines of a user's block up to an inner block. -/
def blockHead : List Char :=
  "\n  users.users.ada = \x7b\n    shell = pkgs.zsh;\n".toList

/-- An inner block whose lines look as if they were about the user. -/
def lookalikeBlock : List Char :=
  -- The block has a setting of the user in it, and a brace in a comment.
  "    openssh = \x7b\n      shell = pkgs.fish;\n      keys = \x7b\n\n        # \x7d;\n".toList ++
    "        description = \"Key\";\n      \x7d;\n    \x7d // \x7b\n".toList

/-- The lines of a user's block behind an inner block. -/
def blockTail : List Char :=
  "    description = \"Ada\";\n  \x7d;\n".toList

/-- A region with an inner block in the block of a user. -/
def lookalikeRegion : Managed.Region :=
  ⟨"\x7b\n".toList, blockHead ++ lookalikeBlock ++ blockTail, "\n\x7d\n".toList⟩

/-- Lines of an inner block that look as if they were about the user say nothing. -/
theorem read_without_innerBlock_lookalike :
    Managed.locate ("\x7b\n".toList ++ lookalikeRegion.managed ++ "\n\x7d\n".toList) =
        some lookalikeRegion ∧
      HoldsInnerBlock lookalikeRegion blockHead lookalikeBlock blockTail ∧
      read .builtin placeholderName ("\x7b\n".toList ++ Managed.beginMarker ++
          (blockHead ++ blockTail) ++ Managed.endMarker ++ "\n\x7d\n".toList) .initial =
        read .builtin placeholderName
          ("\x7b\n".toList ++ lookalikeRegion.managed ++ "\n\x7d\n".toList) .initial := by
  have located : Managed.locate ("\x7b\n".toList ++ lookalikeRegion.managed ++
      "\n\x7d\n".toList) = some lookalikeRegion := by decide +kernel
  have inBlock : (statementsOf blockHead).foldl Scope.next .top = .user 0 := by decide
  have lines : statementsOf lookalikeBlock =
      ["openssh = \x7b", "shell = pkgs.fish;", "keys = \x7b", "description = \"Key\";", "\x7d;",
        "\x7d // \x7b"].map fun line =>
          ⟨line.toList, Text.trimEnd (dropSemicolon line.toList)⟩ := by decide
  have isInner : IsInnerBlock (statementsOf lookalikeBlock) := by
    rw [lines]
    -- The block holds an ordinary line and a block with another one.
    refine @IsInnerBlock.mk _ _ [_, _, _, _] ⟨by decide, by decide⟩
      (.ordinary ⟨by decide, by decide⟩ ?_) (by decide)
    exact @IsInside.block _ _ [_] [] ⟨by decide, by decide⟩
      (.ordinary ⟨by decide, by decide⟩ .nil) (by decide) .nil
  have holds : HoldsInnerBlock lookalikeRegion blockHead lookalikeBlock blockTail :=
    ⟨rfl, by decide, .inl (by decide), inBlock ▸ .user, isInner⟩
  exact ⟨located, holds, (read_without_innerBlock located holds .builtin placeholderName .initial).1⟩

end SystemFile

end NixKeeper.Files
