import Mathlib.Data.List.Infix
import NixKeeper.Nix.OptionScan
import NixKeeper.Proofs.Managed.Block
import NixKeeper.Proofs.Text.Blank
import NixKeeper.Proofs.Text.Search

/-!
The scan for options does not look across the end of a declaration.

The recognisers stop at a character that they cannot pass, so what follows it is left over unread.
-/

namespace NixKeeper.Nix

open Managed (byteLength endsEscaped extractBlock splitBlock)

/-! What a recogniser leaves of a text that goes on behind a character it cannot pass. -/

section Seam

variable {seam : Char}

/-- An assignment to a word does not reach a character that stands in none of its parts. -/
theorem afterAssigned?_append_cons {word : List Char} (free : seam ∉ word) (noEquals : seam ≠ '=')
    (shown : Text.isBlank seam = false) (front rest : List Char) :
    afterAssigned? word (front ++ seam :: rest) =
      (afterAssigned? word front).map (· ++ seam :: rest) := by
  -- Each part is looked for in what the part before it has left, which still ends before the seam.
  have trimmed (text : List Char) :
      Text.trimStart (text ++ seam :: rest) = Text.trimStart text ++ seam :: rest :=
    Text.dropWhile_append_of_head text shown
  rw [afterAssigned?, afterAssigned?, Text.isPrefixOf?_append_cons free]
  cases word.isPrefixOf? front with
  | none => rfl
  | some behind =>
    simp only [Option.bind_eq_bind, Option.map_some, Option.bind_some]
    rw [trimmed, Text.isPrefixOf?_append_cons (by simpa using noEquals)]
    cases ['='].isPrefixOf? (Text.trimStart behind) with
    | none => rfl
    | some value => exact congrArg some (trimmed value)

/-- A declaration does not reach a character that stands in none of its parts. -/
theorem declared?_append_cons {function : List Char} (outside : isOptionChar seam = false)
    (noEquals : seam ≠ '=') (shown : Text.isBlank seam = false) (free : seam ∉ function)
    (noQualifier : seam ∉ "lib.".toList) (front rest : List Char) :
    declared? function (front ++ seam :: rest) =
      (declared? function front).map fun (name, after) => (name, after ++ seam :: rest) := by
  -- The name is taken from the front, so the assignment to it is looked for there as well.
  have named : seam ∉ front.takeWhile isOptionChar := fun within =>
    Bool.false_ne_true (outside.symm.trans (List.mem_takeWhile_imp within))
  rw [declared?, declared?, Text.takeWhile_append_of_head _ outside]
  dsimp only
  split
  · rfl
  · rw [afterAssigned?_append_cons named noEquals shown]
    cases afterAssigned? (front.takeWhile isOptionChar) front with
    | none => rfl
    | some behind =>
      -- The qualifier is dropped in the same way, whether it stands there or not.
      have qualifier : ("lib.".toList.isPrefixOf? (behind ++ seam :: rest)).getD
          (behind ++ seam :: rest) =
            ("lib.".toList.isPrefixOf? behind).getD behind ++ seam :: rest := by
        rw [Text.isPrefixOf?_append_cons noQualifier]
        cases "lib.".toList.isPrefixOf? behind <;> rfl
      simp only [Option.bind_eq_bind, Option.map_some, Option.bind_some]
      rw [qualifier, Text.isPrefixOf?_append_cons free]
      cases function.isPrefixOf? (("lib.".toList.isPrefixOf? behind).getD behind) with
      | none => rfl
      | some value =>
        have trimmed : Text.trimStart (value ++ seam :: rest) =
            Text.trimStart value ++ seam :: rest := Text.dropWhile_append_of_head value shown
        simp only [Option.map_some, Option.bind_some, Option.pure_def, trimmed]

/-- Neither kind of declaration reaches a semicolon or a closing brace. -/
theorem declared?_append_end (isEnd : seam = ';' ∨ seam = '}') {function : List Char}
    (known : function = "mkEnableOption".toList ∨ function = "mkOption".toList)
    (front rest : List Char) :
    declared? function (front ++ seam :: rest) =
      (declared? function front).map fun (name, after) => (name, after ++ seam :: rest) := by
  -- Heads are made of names, blanks, an equals sign and one of two words, and the end is in none of them.
  have free : seam ∉ function := by
    rcases known with rfl | rfl
    all_goals rcases isEnd with rfl | rfl <;> decide
  rcases isEnd with rfl | rfl
  · exact declared?_append_cons (by decide) (by decide) (by decide) free (by decide) front rest
  · exact declared?_append_cons (by decide) (by decide) (by decide) free (by decide) front rest

end Seam

/-- A text in quotes on one line does not reach beyond the end of the line. -/
theorem lineText?_append_cons (front rest : List Char) :
    lineText? (front ++ '\n' :: rest) =
      (lineText? front).map fun (inside, after) => (inside, after ++ '\n' :: rest) := by
  -- The text begins on the line, and a line feed inside would spoil it.
  rw [lineText?, lineText?, Text.isPrefixOf?_append_cons (by decide)]
  cases ['"'].isPrefixOf? front with
  | none => rfl
  | some behind =>
    have nonempty : ['"', ';'] ≠ [] := List.cons_ne_nil _ _
    simp only [Option.bind_eq_bind, Option.map_some, Option.bind_some]
    cases inFront : Text.splitFirst ['"', ';'] behind with
    | some cut =>
      -- The first end of the text stays the first one, whatever follows the line.
      obtain ⟨inside, after⟩ := cut
      obtain ⟨rfl, first⟩ := (Text.splitFirst_eq_some_iff nonempty).1 inFront
      have same : Text.splitFirst ['"', ';'] (inside ++ ['"', ';'] ++ after ++ '\n' :: rest) =
          some (inside, after ++ '\n' :: rest) :=
        (Text.splitFirst_eq_some_iff nonempty).2 ⟨by simp, first⟩
      rw [same, Option.bind_some, Option.bind_some]
      dsimp only
      split <;> rfl
    | none =>
      -- An end that is found behind the line has the line feed before it.
      rw [Text.splitFirst_eq_none_iff nonempty] at inFront
      cases beyond : Text.splitFirst ['"', ';'] (behind ++ '\n' :: rest) with
      | none => rfl
      | some cut =>
        obtain ⟨inside, after⟩ := cut
        obtain ⟨whole, -⟩ := (Text.splitFirst_eq_some_iff nonempty).1 beyond
        have crossed : '\n' ∈ inside := by
          refine Decidable.byContradiction fun free => inFront ?_
          have before : inside ++ ['"', ';'] <+: behind :=
            Text.prefix_of_not_mem (by simpa using free) whole
          exact (List.suffix_append _ _).isInfix.trans before.isInfix
        simp [crossed]

/-- Nothing is declared where no name begins. -/
theorem declared?_cons_of_outside {c : Char} (outside : isOptionChar c = false)
    (function rest : List Char) : declared? function (c :: rest) = none := by
  -- The longest name that stands there is empty.
  rw [declared?, List.takeWhile_cons_of_neg (by simp [outside])]
  rfl

/-! A text that ends like a declaration is recognised in the same way, whatever follows it. -/

/-- The text ends with a semicolon or a closing brace before a line feed. -/
def EndsDeclaration (text : List Char) : Prop :=
  [';', '\n'] <:+ text ∨ ['}', '\n'] <:+ text

instance (text : List Char) : Decidable (EndsDeclaration text) :=
  inferInstanceAs (Decidable (_ ∨ _))

/-- More text behind another one is left over and changes nothing else that is recognised. -/
def Extends {α : Type} (recognise : List Char → Option (α × List Char)) (text more : List Char) :
    Prop :=
  -- What is found is found again, and the text that is added stands behind it.
  recognise (text ++ more) = (recognise text).map fun (value, after) => (value, after ++ more)

namespace EndsDeclaration

variable {text : List Char}

/-- Before the line feed stands a character that no head of a declaration passes. -/
theorem exists_front (ends : EndsDeclaration text) :
    ∃ front seam, (seam = ';' ∨ seam = '}') ∧ text = front ++ [seam, '\n'] := by
  rcases ends with ⟨front, rfl⟩ | ⟨front, rfl⟩
  · exact ⟨front, ';', .inl rfl, rfl⟩
  · exact ⟨front, '}', .inr rfl, rfl⟩

/-- An ending of the text is shorter than its last two characters, or ends like it. -/
theorem of_suffix {ending : List Char} (ends : EndsDeclaration text) (suffix : ending <:+ text)
    (nonempty : ending ≠ []) : EndsDeclaration ending ∨ ending = ['\n'] := by
  -- Of two endings of one text the shorter one is an ending of the other.
  have compare : ∀ seam, [seam, '\n'] <:+ text → [seam, '\n'] <:+ ending ∨ ending = ['\n'] := by
    intro seam last
    rcases List.suffix_or_suffix_of_suffix last suffix with longer | shorter
    · exact .inl longer
    · rcases List.suffix_cons_iff.1 shorter with rfl | shorter
      · exact .inl (List.suffix_refl _)
      · rcases List.suffix_cons_iff.1 shorter with rfl | nothing
        · exact .inr rfl
        · exact absurd (List.suffix_nil.1 nothing) nonempty
  rcases ends with last | last
  · exact (compare ';' last).imp_left .inl
  · exact (compare '}' last).imp_left .inr

/-- The head of a switch ends before the seam, and its description on the same line. -/
theorem extends_switch? (ends : EndsDeclaration text) (more : List Char) :
    Extends switch? text more := by
  obtain ⟨front, seam, isEnd, rfl⟩ := ends.exists_front
  have described : ∀ after rest, lineText? (after ++ seam :: '\n' :: rest) =
      (lineText? (after ++ [seam])).map fun (inside, behind) => (inside, behind ++ '\n' :: rest) := by
    intro after rest
    rw [← lineText?_append_cons, List.append_assoc, List.singleton_append]
  rw [Extends, List.append_assoc, List.cons_append, List.singleton_append]
  simp only [switch?, declared?_append_end isEnd (.inl rfl), Option.bind_eq_bind, Option.bind_map, Option.map_bind]
  refine congrArg _ (funext fun found => ?_)
  simp only [Function.comp_apply, described]
  -- Both sides leave the same text on the line, with the line feed and the rest behind it.
  cases lineText? (found.2 ++ [seam]) with
  | none => rfl
  | some parts => simp

/-- The head of an option ends before the seam. -/
theorem extends_optionHead? (ends : EndsDeclaration text) (more : List Char) :
    Extends optionHead? text more := by
  obtain ⟨front, seam, isEnd, rfl⟩ := ends.exists_front
  -- Both texts leave what the front leaves, each with its own rest behind it.
  have heads : ∀ rest, optionHead? (front ++ seam :: rest) =
      (optionHead? front).map fun (name, body) => (name, body ++ seam :: rest) := by
    intro rest
    have opens : seam ∉ ['{'] := by
      rcases isEnd with rfl | rfl <;> decide
    simp only [optionHead?, declared?_append_end isEnd (.inr rfl), Option.bind_eq_bind,
      Option.bind_map, Option.map_bind]
    refine congrArg _ (funext fun found => ?_)
    simp only [Function.comp_apply, Text.isPrefixOf?_append_cons opens]
    cases ['{'].isPrefixOf? found.2 with
    | none => rfl
    | some body => rfl
  rw [Extends, List.append_assoc, List.cons_append, List.singleton_append, heads, heads,
    Option.map_map]
  refine congrArg (Option.map · _) (funext fun found => ?_)
  simp

end EndsDeclaration

/-- A word assigned to leaves an ending of the text. -/
theorem suffix_of_afterAssigned? {word text rest : List Char}
    (found : afterAssigned? word text = some rest) : rest <:+ text := by
  -- Every step drops something at the beginning of the text.
  simp only [afterAssigned?, Option.bind_eq_bind, Option.bind_eq_some_iff, Option.pure_def,
    Option.some.injEq] at found
  obtain ⟨behind, begins, value, equals, rfl⟩ := found
  have behindWord : behind <:+ text := ⟨word, List.append_eq_of_isPrefixOf?_eq_some begins⟩
  have behindEquals : value <:+ Text.trimStart behind :=
    ⟨['='], List.append_eq_of_isPrefixOf?_eq_some equals⟩
  exact (List.dropWhile_suffix _).trans
    (behindEquals.trans ((List.dropWhile_suffix _).trans behindWord))

/-- A declaration leaves an ending of the text. -/
theorem suffix_of_declared? {function text name after : List Char}
    (found : declared? function text = some (name, after)) : after <:+ text := by
  rw [declared?] at found
  dsimp only at found
  split at found
  · contradiction
  · simp only [Option.bind_eq_bind, Option.bind_eq_some_iff, Option.pure_def, Option.some.injEq,
      Prod.mk.injEq] at found
    obtain ⟨value, assigned, behind, applied, -, rfl⟩ := found
    -- Each step cuts something off at the front.
    have unqualified : ("lib.".toList.isPrefixOf? value).getD value <:+ value := by
      cases qualified : "lib.".toList.isPrefixOf? value with
      | none => exact List.suffix_refl _
      | some rest => exact ⟨_, List.append_eq_of_isPrefixOf?_eq_some qualified⟩
    have behindFunction : behind <:+ ("lib.".toList.isPrefixOf? value).getD value :=
      ⟨function, List.append_eq_of_isPrefixOf?_eq_some applied⟩
    exact (List.dropWhile_suffix _).trans
      (behindFunction.trans (unqualified.trans (suffix_of_afterAssigned? assigned)))

/-- The head of an option ends with the brace that opens its block. -/
theorem exists_of_optionHead? {text name body : List Char}
    (found : optionHead? text = some (name, body)) : ∃ head, text = head ++ '{' :: body := by
  simp only [optionHead?, Option.bind_eq_bind, Option.bind_eq_some_iff, Option.pure_def,
    Option.some.injEq, Prod.mk.injEq] at found
  obtain ⟨⟨_, rest⟩, declares, _, opens, rfl, rfl⟩ := found
  -- What is declared is followed by the brace.
  obtain ⟨head, rfl⟩ := suffix_of_declared? declares
  exact ⟨head, congrArg (head ++ ·) (List.append_eq_of_isPrefixOf?_eq_some opens).symm⟩

/-- Every block that is opened by the head of an option is closed within the text. -/
def BlocksClosed (text : List Char) : Prop :=
  -- Every block that a declaration opens in the text is closed in it.
  ∀ front head name body, text = front ++ head ++ body →
    optionHead? (head ++ body) = some (name, body) →
    (extractBlock text (byteLength (front ++ head))).isSome = true

/-- The blocks of the options are closed if those are whose heads begin at some character. -/
theorem blocksClosed_iff {text : List Char} :
    BlocksClosed text ↔ ∀ ending ∈ text.tails, ∀ found ∈ optionHead? ending,
      (splitBlock 0 false false found.2).isSome = true := by
  -- The head ends with a brace, so no backslash stands before the block.
  have behindHead : ∀ front head body : List Char,
      (extractBlock (front ++ head ++ '{' :: body) (byteLength (front ++ (head ++ ['{'])))).isSome =
        (splitBlock 0 false false body).isSome := by
    intro front head body
    have cut : front ++ head ++ '{' :: body = front ++ (head ++ ['{']) ++ body := by simp
    have unescaped : endsEscaped false (front ++ (head ++ ['{'])) = false := by
      simp [endsEscaped, ← List.append_assoc]
    rw [cut, Managed.extractBlock_append, unescaped, Option.isSome_map]
  constructor
  · rintro closed ending within ⟨name, body⟩ found
    obtain ⟨front, rfl⟩ := (List.mem_tails _ _).1 within
    obtain ⟨head, rfl⟩ := exists_of_optionHead? found
    rw [← behindHead front head body, List.append_assoc]
    exact closed front (head ++ ['{']) name body (by simp) (by simpa using found)
  · rintro closed front head name body rfl found
    -- A head at an offset is one at the beginning of an ending of the text.
    obtain ⟨before, whole⟩ := exists_of_optionHead? found
    obtain rfl : head = before ++ ['{'] := by
      rw [← List.singleton_append, ← List.append_assoc] at whole
      exact List.append_cancel_right whole
    have ofBlock := closed _ ((List.mem_tails _ _).2 ⟨front, (List.append_assoc _ _ _).symm⟩) _ found
    rwa [← behindHead front before body, List.append_assoc, ← List.singleton_append,
      ← List.append_assoc before, ← List.append_assoc] at ofBlock

instance (text : List Char) : Decidable (BlocksClosed text) :=
  decidable_of_iff _ blocksClosed_iff.symm

/-- What is recognised from some character of a text on does not depend on what follows the text. -/
structure Settled (text : List Char) : Prop where
  /-- A switch is recognised within the text. -/
  switch : ∀ ending, ending <:+ text → ending ≠ [] → ∀ more, Extends switch? ending more
  /-- The head of an option is recognised within the text. -/
  head : ∀ ending, ending <:+ text → ending ≠ [] → ∀ more, Extends optionHead? ending more
  /-- The block behind the head of an option is closed within the text. -/
  block : ∀ ending, ending <:+ text → ∀ found ∈ optionHead? ending,
    (splitBlock 0 false false found.2).isSome = true

/-- A text that ends like a declaration and closes its blocks is settled. -/
theorem EndsDeclaration.settled {text : List Char} (ends : EndsDeclaration text)
    (closed : BlocksClosed text) : Settled text where
  switch ending suffix nonempty more := by
    -- An ending of the text ends like it, or is the closing character alone.
    rcases ends.of_suffix suffix nonempty with ends | rfl
    · exact ends.extends_switch? more
    · rw [Extends, switch?, switch?, List.singleton_append, declared?_cons_of_outside (by decide),
        declared?_cons_of_outside (by decide)]
      rfl
  head ending suffix nonempty more := by
    rcases ends.of_suffix suffix nonempty with ends | rfl
    · exact ends.extends_optionHead? more
    · rw [Extends, optionHead?, optionHead?, List.singleton_append,
        declared?_cons_of_outside (by decide), declared?_cons_of_outside (by decide)]
      rfl
  block ending suffix found within :=
    blocksClosed_iff.1 closed ending ((List.mem_tails _ _).2 suffix) found within

/-- The endings of a settled text are settled. -/
theorem Settled.of_suffix {text ending : List Char} (settled : Settled text) (suffix : ending <:+ text) :
    Settled ending where
  -- A rest of the ending is a rest of the text.
  switch later within := settled.switch later (within.trans suffix)
  head later within := settled.head later (within.trans suffix)
  block later within := settled.block later (within.trans suffix)

/-- The hint of an option does not depend on what follows its block. -/
theorem optionHint_map {path more : List Char} {found : Option (List Char × List Char)}
    (closed : ∀ head ∈ found, (splitBlock 0 false false head.2).isSome = true) :
    optionHint path (found.map fun (name, body) => (name, body ++ more)) = optionHint path found := by
  -- A closed block ends at the same brace, whatever follows it.
  cases found with
  | none => rfl
  | some head =>
    obtain ⟨name, body⟩ := head
    obtain ⟨⟨inside, after⟩, block⟩ := Option.isSome_iff_exists.1 (closed _ rfl)
    rw [Option.map_some, optionHint, optionHint]
    simp only [block, Managed.splitBlock_append_iff.2 block]

/-- The count of characters to skip does not depend on what follows the text. -/
theorem skipAfter_map {α : Type} {skip : Nat} {rest more : List Char} {found : Option (α × List Char)} :
    skipAfter skip (rest ++ more) (found.map fun (value, after) => (value, after ++ more)) =
      skipAfter skip rest found := by
  -- Both the rest and what is left over of it become longer by as much.
  cases found with
  | none => rfl
  | some pair =>
    rw [Option.map_some, skipAfter, skipAfter, List.length_append, List.length_append,
      Nat.add_sub_add_right]

/-- No more characters are skipped than are left. -/
theorem skipAfter_le {α : Type} {skip : Nat} {rest : List Char} (found : Option (α × List Char))
    (bound : skip ≤ rest.length + 1) : skipAfter skip rest found ≤ rest.length := by
  -- Either one character less is skipped, or all up to where the find ends.
  cases found with
  | none =>
    rw [skipAfter]
    omega
  | some pair => exact Nat.sub_le _ _

/-- The scan of a settled text is finished before the scan of what follows. -/
theorem scanFrom_append {path text : List Char} {switchSkip optionSkip : Nat}
    (settled : Settled text) (switchBound : switchSkip ≤ text.length)
    (optionBound : optionSkip ≤ text.length) (more : List Char) :
    scanFrom path switchSkip optionSkip (text ++ more) =
      scanFrom path switchSkip optionSkip text ++ scanFrom path 0 0 more := by
  -- The scan of both texts takes the same steps up to the seam.
  induction text generalizing switchSkip optionSkip with
  | nil =>
    -- At the seam nothing is left to skip, since all that was found ends before it.
    obtain rfl := Nat.le_zero.1 switchBound
    obtain rfl := Nat.le_zero.1 optionBound
    rfl
  | cons c rest ih =>
    have whole := List.suffix_refl (c :: rest)
    -- What is found at the first character is found before the seam as well.
    have switches : (if switchSkip = 0 then switch? (c :: (rest ++ more)) else none) =
        (if switchSkip = 0 then switch? (c :: rest) else none).map
          fun (value, after) => (value, after ++ more) := by
      split
      · exact settled.switch _ whole (List.cons_ne_nil c rest) more
      · rfl
    have heads : (if optionSkip = 0 then optionHead? (c :: (rest ++ more)) else none) =
        (if optionSkip = 0 then optionHead? (c :: rest) else none).map
          fun (value, after) => (value, after ++ more) := by
      split
      · exact settled.head _ whole (List.cons_ne_nil c rest) more
      · rfl
    have closed : ∀ head ∈ if optionSkip = 0 then optionHead? (c :: rest) else none,
        (splitBlock 0 false false head.2).isSome = true := by
      split
      · exact settled.block _ whole
      · simp
    rw [List.cons_append, scanFrom, scanFrom, switches, heads]
    generalize (if switchSkip = 0 then switch? (c :: rest) else none) = switch
    generalize (if optionSkip = 0 then optionHead? (c :: rest) else none) = head at closed
    have hinted : switchHint path (switch.map fun (value, after) => (value, after ++ more)) =
        switchHint path switch := by
      cases switch <;> rfl
    dsimp only
    rw [hinted, optionHint_map closed, skipAfter_map, skipAfter_map,
      ih (settled.of_suffix (List.suffix_cons c rest)) (skipAfter_le switch switchBound)
        (skipAfter_le head optionBound)]
    simp only [List.append_assoc]

/--
The options of two texts one behind the other are those of the first text and then those of the second.

The first text ends like a declaration and closes the blocks of its options.
Nothing in the second text, not even an open block or a stray quote, changes what the first one declares.
-/
theorem scanOptions_append {text : List Char} (ends : EndsDeclaration text)
    (closed : BlocksClosed text) (more path : List Char) :
    scanOptions (text ++ more) path = scanOptions text path ++ scanOptions more path :=
  -- The declarations of the text end within it, so the scan is behind them where the rest begins.
  scanFrom_append (ends.settled closed) (Nat.zero_le _) (Nat.zero_le _) more

/-- Three options, one of them inside another, keep their places before a text with an open block. -/
theorem scanOptions_append_unbalanced :
    let text := ("enable = lib.mkEnableOption \"frob\";\n" ++
      "sets = mkOption \x7b a = \x7b port = lib.mkOption \x7b default = \"\x7d\"; \x7d; \x7d; \x7d;\n").toList
    let more := "late = mkOption \x7b on = mkEnableOption \"on\"; \" \x7d".toList
    let path := "services.frob".toList
    (scanOptions text path).map OptionHint.name =
        ["services.frob.enable", "services.frob.sets", "services.frob.port"] ∧
      EndsDeclaration text ∧ BlocksClosed text ∧
      scanOptions (text ++ more) path = scanOptions text path ++ scanOptions more path := by
  intro text more path
  -- The text that is added has braces and quotes without an end.
  have ends : EndsDeclaration text := by decide
  have closed : BlocksClosed text := by decide +kernel
  exact ⟨by decide +kernel, ends, closed, scanOptions_append ends closed more path⟩

end NixKeeper.Nix
