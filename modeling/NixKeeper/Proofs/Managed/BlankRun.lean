import NixKeeper.Managed.BlankRun
import NixKeeper.Proofs.Text.Blank
import NixKeeper.Proofs.Text.Search

/-! What joining blank lines leaves of a text, and when it changes nothing. -/

namespace NixKeeper.Managed

/-- The number of line feeds among the blanks at the head of a text. -/
def leadingBreaks (text : List Char) : Nat :=
  (text.takeWhile Text.isBlank).count '\n'

/-- Three line feeds stand somewhere with nothing but blanks between them. -/
def HasBlankRun (text : List Char) : Prop :=
  ∃ run, run <:+: text ∧ run.all Text.isBlank ∧ 3 ≤ run.count '\n'

/-- A line feed is one of the blanks at the head of a text. -/
theorem takeWhile_lineFeed_cons (rest : List Char) :
    ('\n' :: rest).takeWhile Text.isBlank = '\n' :: rest.takeWhile Text.isBlank := by
  -- A line feed is blank.
  have blank : Text.isBlank '\n' = true := by decide
  rw [List.takeWhile_cons, if_pos blank]

/-- A line feed at the head of a text counts among the leading ones. -/
@[simp] theorem leadingBreaks_lineFeed_cons (rest : List Char) :
    leadingBreaks ('\n' :: rest) = leadingBreaks rest + 1 := by
  -- The line feed is taken and counted.
  rw [leadingBreaks, takeWhile_lineFeed_cons, List.count_cons_self, leadingBreaks]

/-- Any other character adds no line feed, and it hides those behind it unless it is blank. -/
theorem leadingBreaks_cons_of_ne {c : Char} (other : c ≠ '\n') (rest : List Char) :
    leadingBreaks (c :: rest) = if Text.isBlank c then leadingBreaks rest else 0 := by
  -- The character is not counted, and ends the run unless it is blank.
  cases blank : Text.isBlank c <;> simp [leadingBreaks, blank, other]

/-- A run of blanks begins at the head of a text or further on. -/
theorem hasBlankRun_cons_iff {c : Char} {rest : List Char} :
    HasBlankRun (c :: rest) ↔ 3 ≤ leadingBreaks (c :: rest) ∨ HasBlankRun rest := by
  constructor
  · rintro ⟨run, within, blank, many⟩
    rcases List.infix_cons_iff.1 within with begins | later
    · -- A run at the head is part of the longest stretch of blanks there.
      refine .inl (Nat.le_trans many (List.Sublist.count_le _ (List.IsPrefix.sublist ?_)))
      obtain ⟨behind, shape⟩ := begins
      rw [← shape, List.takeWhile_append_of_pos (by simpa using blank)]
      exact List.prefix_append run _
    · exact .inr ⟨run, later, blank, many⟩
  · rintro (atHead | ⟨run, within, blank, many⟩)
    · exact ⟨_, (List.takeWhile_prefix _).isInfix, by simp, atHead⟩
    · exact ⟨run, List.infix_cons within, blank, many⟩

/-- Blanks at the head of a text make a run if they hold three line feeds. -/
theorem hasBlankRun_of_leadingBreaks {text : List Char} (many : 3 ≤ leadingBreaks text) :
    HasBlankRun text :=
  -- The run is at the beginning.
  ⟨_, (List.takeWhile_prefix _).isInfix, by simp, many⟩

/-- A text that begins with too few line feeds is left alone at its head. -/
theorem blankRun?_eq_none {text : List Char}
    (few : text.head? = some '\n' → leadingBreaks text < 3) : blankRun? text = none := by
  rw [blankRun?.eq_def]
  -- Only a line feed at the head starts the count of the pattern.
  split
  · rename_i rest
    have count := few rfl
    rw [leadingBreaks, takeWhile_lineFeed_cons] at count
    rw [if_neg (Nat.not_le.2 count)]
  · rfl

/-- A run of line feeds is replaced up to its last one; the blanks behind that one stay. -/
theorem blankRun?_eq_some {rest : List Char} (many : 3 ≤ leadingBreaks ('\n' :: rest)) :
    ∃ run after, '\n' :: rest = run ++ after ∧
      blankRun? (run ++ after) = some (['\n', '\n'], after) ∧
      3 ≤ run.length ∧ leadingBreaks after = 0 := by
  -- The blanks at the head are the run and an indentation without line feeds.
  obtain ⟨indentation, cutting, noBreak⟩ :=
    Text.exists_dropEndWhile_append (· != '\n') ('\n' :: rest.takeWhile Text.isBlank)
  change _ = upToLastBreak _ ++ _ at cutting
  have noBreak : '\n' ∉ indentation := fun within => by simpa using noBreak _ within
  have allBlank : ∀ c ∈ indentation, Text.isBlank c = true := by
    intro c within
    have inBlanks : c ∈ ('\n' :: rest).takeWhile Text.isBlank := by
      rw [takeWhile_lineFeed_cons, cutting]
      exact List.mem_append_right _ within
    exact List.mem_takeWhile_imp inBlanks
  have whole : '\n' :: rest = upToLastBreak ('\n' :: rest.takeWhile Text.isBlank) ++
      (indentation ++ rest.dropWhile Text.isBlank) := by
    rw [← List.append_assoc, ← cutting, List.cons_append, List.takeWhile_append_dropWhile]
  rw [leadingBreaks, takeWhile_lineFeed_cons] at many
  refine ⟨_, _, whole, ?_, ?_, ?_⟩
  · rw [← whole, blankRun?, if_pos many, whole, List.drop_left]
  · -- All line feeds of the blanks stand in the run.
    rw [cutting, List.count_append, List.count_eq_zero.2 noBreak] at many
    exact Nat.le_trans many List.count_le_length
  · rw [leadingBreaks, List.takeWhile_append_of_pos allBlank, Text.takeWhile_dropWhile_self,
      List.append_nil, List.count_eq_zero.2 noBreak]

/--
A text and what is left of it where blank lines are joined.

A run of blanks from a line feed to its last line feed gives way to two line feeds.
-/
inductive Collapse : List Char → List Char → Prop where
  /-- Nothing is left to read. -/
  | done : Collapse [] []
  /-- A character stays unless it is the first line feed of a run. -/
  | keep {c : Char} {rest result : List Char} (few : c = '\n' → leadingBreaks (c :: rest) < 3)
      (later : Collapse rest result) : Collapse (c :: rest) (c :: result)
  /-- A run is joined, and no line feed stands among the blanks behind it. -/
  | join {run after result : List Char} (many : 3 ≤ leadingBreaks (run ++ after))
      (long : 3 ≤ run.length) (ending : leadingBreaks after = 0) (later : Collapse after result) :
      Collapse (run ++ after) ('\n' :: '\n' :: result)

/-- Joining blank lines does what the relation describes. -/
theorem collapse_collapseBlankLines (text : List Char) : Collapse text (collapseBlankLines text) := by
  -- Every step leaves a shorter text, by one character or by a whole run.
  induction size : text.length using Nat.strongRecOn generalizing text with
  | ind size ih =>
    subst size
    cases text with
    | nil => exact .done
    | cons c rest =>
      by_cases few : c = '\n' → leadingBreaks (c :: rest) < 3
      · rw [collapseBlankLines, Text.substituteAll_cons_of_none
          (blankRun?_eq_none (by simpa using few))]
        exact .keep few (ih rest.length (by simp) rest rfl)
      · -- A run is left behind as a whole, and the rest is shorter by its length.
        obtain ⟨rfl, many⟩ := Classical.not_imp.1 few
        obtain ⟨run, after, whole, known, long, ending⟩ := blankRun?_eq_some (Nat.not_lt.1 many)
        have nonempty : run ≠ [] := List.ne_nil_of_length_pos (by omega)
        rw [whole] at many ⊢
        rw [collapseBlankLines, Text.substituteAll_append_of_some nonempty known]
        refine .join (Nat.not_lt.1 many) long ending (ih after.length ?_ after rfl)
        rw [whole, List.length_append]
        omega

namespace Collapse

variable {text result word : List Char}

/-- What is left begins a line as the text does. -/
theorem prefix_of_prefix_result (collapse : Collapse text result) (oneLine : '\n' ∉ word)
    (begins : word <+: result) : word <+: text := by
  induction collapse generalizing word with
  | done => exact begins
  | keep few later ih =>
    rcases List.prefix_cons_iff.1 begins with rfl | ⟨tail, rfl, beginsLater⟩
    · exact List.nil_prefix
    · have still := ih (fun inTail => oneLine (List.mem_cons_of_mem _ inTail)) beginsLater
      exact List.cons_prefix_cons.2 ⟨rfl, still⟩
  | join =>
    -- A replaced run begins with a line feed, which the word does not have.
    rcases List.prefix_cons_iff.1 begins with rfl | ⟨tail, rfl, -⟩
    · exact List.nil_prefix
    · simp at oneLine

/-- A word on one line of what is left stands in the text already. -/
theorem infix_of_infix_result (collapse : Collapse text result) (oneLine : '\n' ∉ word)
    (within : word <:+: result) : word <:+: text := by
  induction collapse with
  | done => exact within
  | keep few later ih =>
    rcases List.infix_cons_iff.1 within with begins | inLater
    · exact ((Collapse.keep few later).prefix_of_prefix_result oneLine begins).isInfix
    · exact List.infix_cons (ih inLater)
  | @join run after result many long ending later ih =>
    -- The two line feeds put in its place hold no part of the word.
    rw [Text.infix_cons_iff_of_not_mem oneLine, Text.infix_cons_iff_of_not_mem oneLine] at within
    exact List.infix_append_of_infix_right (ih within)

/-- Either nothing was joined and there was no run, or the text has become shorter and had one. -/
theorem settled_or_shorter (collapse : Collapse text result) :
    (result = text ∧ ¬ HasBlankRun text) ∨ (result.length < text.length ∧ HasBlankRun text) := by
  induction collapse with
  | done => exact .inl ⟨rfl, by simp [HasBlankRun]⟩
  | @keep c rest result few later ih =>
    rcases ih with ⟨rfl, none⟩ | ⟨shorter, some⟩
    · refine .inl ⟨rfl, fun run => ?_⟩
      rcases hasBlankRun_cons_iff.1 run with atHead | inRest
      · by_cases feed : c = '\n'
        · exact absurd (few feed) (Nat.not_lt.2 atHead)
        · -- A blank that is no line feed belongs to the run behind it.
          rw [leadingBreaks_cons_of_ne feed] at atHead
          split at atHead
          · exact none (hasBlankRun_of_leadingBreaks atHead)
          · omega
      · exact none inRest
    · exact .inr ⟨by simpa using shorter, hasBlankRun_cons_iff.2 (.inr some)⟩
  | @join run after result many long ending later ih =>
    refine .inr ⟨?_, hasBlankRun_of_leadingBreaks many⟩
    -- The two line feeds are fewer than the run, whatever happens to the rest.
    have bounded : result.length ≤ after.length := by
      rcases ih with ⟨rfl, -⟩ | ⟨shorter, -⟩
      · exact Nat.le_refl _
      · exact Nat.le_of_lt shorter
    simp only [List.length_append, List.length_cons]
    omega

/-- What is left begins with at most two of the line feeds that the text begins with. -/
theorem leadingBreaks_eq (collapse : Collapse text result) :
    leadingBreaks result = min (leadingBreaks text) 2 := by
  -- A joined run counts as two line feeds, and none follows it.
  induction collapse with
  | done => rfl
  | @keep c rest result few later ih =>
    by_cases feed : c = '\n'
    · subst feed
      have bounded := few rfl
      rw [leadingBreaks_lineFeed_cons] at bounded ⊢
      rw [leadingBreaks_lineFeed_cons, ih]
      omega
    · rw [leadingBreaks_cons_of_ne feed, leadingBreaks_cons_of_ne feed, ih]
      split <;> rfl
  | join many long ending later ih =>
    rw [leadingBreaks_lineFeed_cons, leadingBreaks_lineFeed_cons, ih, ending]
    omega

/-- No run is left. -/
theorem not_hasBlankRun (collapse : Collapse text result) : ¬ HasBlankRun result := by
  induction collapse with
  | done => simp [HasBlankRun]
  | @keep c rest result few later ih =>
    intro run
    rcases hasBlankRun_cons_iff.1 run with atHead | inRest
    · -- A run at the head would be the line feeds before the joining, which were too few.
      have atMost := (Collapse.keep few later).leadingBreaks_eq
      omega
    · exact ih inRest
  | join many long ending later ih =>
    have atMost := later.leadingBreaks_eq
    -- Two line feeds with none behind them are no run.
    simp only [hasBlankRun_cons_iff, leadingBreaks_lineFeed_cons, ih, or_false]
    omega

end Collapse

/-- A word on one line that stands in a text with its blank lines joined stood there before. -/
theorem infix_of_infix_collapseBlankLines {word text : List Char} (oneLine : '\n' ∉ word)
    (within : word <:+: collapseBlankLines text) : word <:+: text :=
  -- What is put in place of a run has line feeds only.
  (collapse_collapseBlankLines text).infix_of_infix_result oneLine within

/-- Joining blank lines changes nothing, or it makes the text shorter. -/
theorem collapseBlankLines_eq_or_shorter (text : List Char) :
    collapseBlankLines text = text ∨ (collapseBlankLines text).length < text.length :=
  -- A run is replaced by fewer line feeds.
  (collapse_collapseBlankLines text).settled_or_shorter.imp And.left And.left

/-- Joining blank lines changes exactly the texts that have a run of them. -/
theorem collapseBlankLines_eq_self_iff {text : List Char} :
    collapseBlankLines text = text ↔ ¬ HasBlankRun text := by
  rcases (collapse_collapseBlankLines text).settled_or_shorter with ⟨same, none⟩ | ⟨shorter, some⟩
  · exact iff_of_true same none
  · -- A shorter text is not the same one.
    refine iff_of_false (fun same => ?_) (not_not_intro some)
    rw [same] at shorter
    omega

/-- Once blank lines are joined, no run of them is left. -/
theorem not_hasBlankRun_collapseBlankLines (text : List Char) :
    ¬ HasBlankRun (collapseBlankLines text) :=
  -- The relation says so of every text that it reaches.
  (collapse_collapseBlankLines text).not_hasBlankRun

/-- Blanks on both sides of a seam do not belong together, wherever the first text is cut. -/
def AreBroken (first second : List Char) : Prop :=
  -- The blanks in front of an ending are the same with and without the second text.
  ∀ ending, ending <:+ first → ending ≠ [] →
    (ending ++ second).takeWhile Text.isBlank = ending.takeWhile Text.isBlank

/-- A text that ends with no blank is broken off from what follows. -/
theorem areBroken_of_getLast? {first : List Char} (second : List Char)
    (shown : ∀ c ∈ first.getLast?, Text.isBlank c = false) : AreBroken first second := by
  rintro ending ⟨front, rfl⟩ nonempty
  rw [List.getLast?_append_of_ne_nil _ nonempty] at shown
  rw [List.takeWhile_append]
  -- Blanks that go on across the seam would include the last character.
  split
  · rename_i whole
    have all : ∀ c ∈ ending, Text.isBlank c = true := by
      rw [← (List.takeWhile_prefix _).eq_of_length whole]
      exact fun c => List.mem_takeWhile_imp
    have last := List.getLast?_eq_some_getLast nonempty
    exact absurd (all _ (List.getLast_mem nonempty)) (by simp [shown _ last])
  · rfl

/-- A text that begins with no blank is broken off from what precedes it. -/
theorem areBroken_of_head? (first : List Char) {second : List Char}
    (shown : ∀ c ∈ second.head?, Text.isBlank c = false) : AreBroken first second := by
  intro ending _ _
  -- No blank at the head of the second text continues those before the seam.
  have none : second.takeWhile Text.isBlank = [] := by
    cases second with
    | nil => rfl
    | cons c rest => exact List.takeWhile_cons_of_neg (by simp [shown c rfl])
  rw [List.takeWhile_append, none, List.append_nil]
  split
  · rename_i whole
    exact ((List.takeWhile_prefix _).eq_of_length whole).symm
  · rfl

/-- Whether a run of blanks begins a text does not depend on what is broken off from it. -/
theorem blankRun?_append {first second : List Char}
    (same : (first ++ second).takeWhile Text.isBlank = first.takeWhile Text.isBlank)
    (nonempty : first ≠ []) :
    blankRun? (first ++ second) =
      (blankRun? first).map fun (replacement, after) => (replacement, after ++ second) := by
  obtain ⟨c, rest, rfl⟩ := List.exists_cons_of_ne_nil nonempty
  -- Only a line feed begins a run.
  by_cases feed : c = '\n'
  · subst feed
    rw [List.cons_append, takeWhile_lineFeed_cons, takeWhile_lineFeed_cons, List.cons.injEq] at same
    rw [List.cons_append, blankRun?, blankRun?, same.2]
    dsimp only
    split
    · -- The run ends within the first text.
      have bounded : (upToLastBreak ('\n' :: rest.takeWhile Text.isBlank)).length ≤
          ('\n' :: rest).length := by
        obtain ⟨ending, cutting, -⟩ :=
          Text.exists_dropEndWhile_append (· != '\n') ('\n' :: rest.takeWhile Text.isBlank)
        have lengths := congrArg List.length cutting
        have taken := (List.takeWhile_prefix Text.isBlank (l := rest)).length_le
        rw [List.length_append] at lengths
        simp only [List.length_cons] at lengths ⊢
        rw [upToLastBreak]
        omega
      rw [← List.cons_append, List.drop_append_of_le_length bounded]
      rfl
    · rfl
  · have few (text : List Char) : blankRun? (c :: text) = none :=
      blankRun?_eq_none fun isFeed => absurd (Option.some.inj isFeed) feed
    rw [List.cons_append, few, few]
    rfl

/-- Blank lines are joined on both sides of a seam by themselves, if no run goes across it. -/
theorem collapseBlankLines_append {first second : List Char} (broken : AreBroken first second) :
    collapseBlankLines (first ++ second) = collapseBlankLines first ++ collapseBlankLines second := by
  -- Every step leaves a shorter text, by one character or by a whole run.
  induction size : first.length using Nat.strongRecOn generalizing first with
  | ind size ih =>
    subst size
    cases first with
    | nil => rfl
    | cons c rest =>
      have joined := blankRun?_append (broken _ (List.suffix_refl _) (List.cons_ne_nil c rest))
        (List.cons_ne_nil c rest)
      by_cases few : c = '\n' → leadingBreaks (c :: rest) < 3
      · have unknown : blankRun? (c :: rest) = none := blankRun?_eq_none (by simpa using few)
        have later := ih rest.length (by simp)
          (fun ending isEnding => broken ending (isEnding.trans (List.suffix_cons c rest))) rfl
        rw [unknown, Option.map_none, List.cons_append] at joined
        rw [List.cons_append, collapseBlankLines, Text.substituteAll_cons_of_none joined,
          collapseBlankLines, Text.substituteAll_cons_of_none unknown]
        exact congrArg _ later
      · -- A run that begins in the first text ends there too.
        obtain ⟨rfl, many⟩ := Classical.not_imp.1 few
        obtain ⟨run, after, whole, known, long, -⟩ := blankRun?_eq_some (Nat.not_lt.1 many)
        have nonempty : run ≠ [] := List.ne_nil_of_length_pos (by omega)
        have shorter : after.length < ('\n' :: rest).length := by
          rw [whole, List.length_append]
          omega
        have later := ih after.length shorter
          (fun ending isEnding => broken ending (isEnding.trans ⟨run, whole.symm⟩)) rfl
        rw [whole, known, Option.map_some, List.append_assoc] at joined
        rw [whole, List.append_assoc, collapseBlankLines,
          Text.substituteAll_append_of_some nonempty joined, collapseBlankLines,
          Text.substituteAll_append_of_some nonempty known, List.append_assoc]
        exact congrArg _ later

end NixKeeper.Managed
