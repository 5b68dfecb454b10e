import Mathlib.Data.List.SplitBy
import NixKeeper.Proofs.Managed.BlankRun
import NixKeeper.Text.Pattern

/-!
Joining blank lines as a normal form, run of blanks by run of blanks.

The pattern for blank lines in a row matches what the runs say, however the blanks are shared out among
its repetitions, and no line that shows anything is lost.
-/

namespace NixKeeper.Managed

/-- The pattern for blank lines in a row: three line feeds with nothing but blanks between them. -/
def breaksPattern : List Text.Part :=
  [.one (· == '\n'), .many Text.isBlank, .one (· == '\n'), .many Text.isBlank, .one (· == '\n')]

/-- The maximal stretches of a text that are blank throughout or nowhere. -/
def runs (text : List Char) : List (List Char) :=
  text.splitBy fun c d => Text.isBlank c == Text.isBlank d

/-- A run with two line feeds for all from the first one to the last one, if it has three or more. -/
def joinBreaks (run : List Char) : List Char :=
  -- Only blanks stand between the first and the last line feed of a run.
  if 3 ≤ run.count '\n' then
    run.takeWhile (· != '\n') ++ ['\n', '\n'] ++ Text.afterLast '\n' run
  else run

/-- The lines of a text that are not blank throughout. -/
def visibleLines (text : List Char) : List (List Char) :=
  (Text.lines text).filter (!Text.allBlank ·)

/-- What stands behind the last line feed among the blanks at the head of a text. -/
def behindBreaks (text : List Char) : List Char :=
  text.drop (upToLastBreak (text.takeWhile Text.isBlank)).length

/-- A text ends for its last line feed where no line feed follows. -/
theorem upToLastBreak_append_cons {last : List Char} (front : List Char) (free : '\n' ∉ last) :
    upToLastBreak (front ++ '\n' :: last) = front ++ ['\n'] := by
  -- From the end backwards everything is dropped up to the line feed.
  have dropped := Text.forall_mem_reverse_of_not_mem free
  rw [upToLastBreak, Text.dropEndWhile, List.reverse_append, List.reverse_cons, List.append_assoc,
    List.dropWhile_append_of_pos dropped, List.singleton_append,
    List.dropWhile_cons_of_neg (by simp)]
  simp

/-- A text with a line feed is cut at its last one. -/
theorem exists_last_break {text : List Char} (feed : '\n' ∈ text) :
    ∃ front last, text = front ++ '\n' :: last ∧ '\n' ∉ last := by
  -- From the end backwards, the first line feed is the last one.
  obtain ⟨last, front, whole, free⟩ := List.eq_append_cons_of_mem (List.mem_reverse.2 feed)
  refine ⟨front.reverse, last.reverse, ?_, by simpa using free⟩
  rw [← List.reverse_reverse text, whole]
  simp

section Pattern

variable {c : Char} {rest : List Char} {next : List Char → Option (List Char)}

/-- A blank before other blanks with a line feed does not matter for what stands behind them. -/
theorem behindBreaks_cons_of_pos (blank : Text.isBlank c = true) (feeds : 0 < leadingBreaks rest) :
    behindBreaks (c :: rest) = behindBreaks rest := by
  obtain ⟨front, last, cutting, free⟩ := exists_last_break (List.count_pos_iff.1 feeds)
  -- The cut stands behind the last line feed, which the blank in front does not move.
  rw [behindBreaks, behindBreaks, List.takeWhile_cons_of_pos blank, cutting, ← List.cons_append,
    upToLastBreak_append_cons _ free, upToLastBreak_append_cons _ free]
  rfl

/-- A line feed that no other one follows among the blanks is the last one. -/
theorem behindBreaks_lineFeed_of_none (noFeed : leadingBreaks rest = 0) :
    behindBreaks ('\n' :: rest) = rest := by
  -- The blanks behind the line feed hold no other one.
  have free : '\n' ∉ rest.takeWhile Text.isBlank := List.count_eq_zero.1 noFeed
  have alone := upToLastBreak_append_cons [] free
  rw [List.nil_append, List.nil_append] at alone
  rw [behindBreaks, takeWhile_lineFeed_cons, alone]
  rfl

/--
Blanks before something that begins with a line feed are matched up to the last place where it fits.

If it needs as many line feeds as the count says besides its first one, it ends with the last of all.
-/
theorem matchMany?_isBlank {count : Nat} (empty : next [] = none)
    (other : ∀ c rest, c ≠ '\n' → next (c :: rest) = none)
    (feed : ∀ rest, leadingBreaks rest ≤ count → next ('\n' :: rest) =
      if leadingBreaks rest = count then some (behindBreaks ('\n' :: rest)) else none)
    (text : List Char) :
    Text.matchMany? Text.isBlank next text =
      if count < leadingBreaks text then some (behindBreaks text) else none := by
  -- A character is given back only if there are too few line feeds behind it.
  induction text with
  | nil => rw [Text.matchMany?, empty, if_neg (by simp [leadingBreaks])]
  | cons c rest ih =>
    rw [Text.matchMany?, ih]
    by_cases isFeed : c = '\n'
    · -- A line feed is kept by the repetition as long as enough of them are behind it.
      subst isFeed
      have blank : Text.isBlank '\n' = true := by decide
      rw [if_pos blank, leadingBreaks_lineFeed_cons]
      by_cases enough : count < leadingBreaks rest
      · rw [if_pos enough, if_pos (by omega), behindBreaks_cons_of_pos blank (by omega)]
        rfl
      · rw [if_neg enough]
        change next ('\n' :: rest) = _
        rw [feed rest (Nat.not_lt.1 enough)]
        exact if_congr (by omega) rfl rfl
    · rw [other c rest isFeed, leadingBreaks_cons_of_ne isFeed]
      cases blank : Text.isBlank c with
      | false => simp
      | true =>
        by_cases enough : count < leadingBreaks rest
        · simp [enough, behindBreaks_cons_of_pos blank (Nat.zero_lt_of_lt enough)]
        · simp [enough]

/-- A line feed, and behind it what goes on there. -/
def lineFeedThen (next : List Char → Option (List Char)) : List Char → Option (List Char) :=
  (Text.Part.one (· == '\n')).match? next

/-- Behind a line feed it goes on. -/
theorem lineFeedThen_cons (next : List Char → Option (List Char)) (rest : List Char) :
    lineFeedThen next ('\n' :: rest) = next rest :=
  -- The part is the line feed itself.
  rfl

/-- At any other character it does not go on. -/
theorem lineFeedThen_of_ne (next : List Char → Option (List Char)) (c : Char) (rest : List Char)
    (other : c ≠ '\n') : lineFeedThen next (c :: rest) = none := by
  -- The part fails on any other character.
  simp [lineFeedThen, Text.Part.match?, other]

/-- Blanks and a line feed reach up to the last line feed among the blanks. -/
theorem matchMany?_lineFeed (text : List Char) :
    Text.matchMany? Text.isBlank (lineFeedThen some) text =
      if 0 < leadingBreaks text then some (behindBreaks text) else none := by
  -- Greedy matching gives characters back until a line feed follows, if there is one.
  refine matchMany?_isBlank rfl (lineFeedThen_of_ne some) (fun rest few => ?_) text
  have noFeed := Nat.le_zero.1 few
  rw [if_pos noFeed, behindBreaks_lineFeed_of_none noFeed]
  rfl

/-- Blanks, a line feed, blanks and a line feed reach up to the last line feed among the blanks. -/
theorem matchMany?_two_lineFeeds (text : List Char) :
    Text.matchMany? Text.isBlank
        (lineFeedThen (Text.matchMany? Text.isBlank (lineFeedThen some))) text =
      if 1 < leadingBreaks text then some (behindBreaks text) else none := by
  refine matchMany?_isBlank rfl (lineFeedThen_of_ne _) (fun rest few => ?_) text
  rw [lineFeedThen_cons, matchMany?_lineFeed]
  -- One line feed is left for the inner part, so there have to be two.
  by_cases one : leadingBreaks rest = 1
  · rw [if_pos (by omega), if_pos one, behindBreaks_cons_of_pos (by decide) (by omega)]
  · rw [if_neg (by omega), if_neg one]

/-- The pattern for blank lines in a row matches where a run of them begins, up to its last line feed. -/
theorem matchParts?_breaksPattern (text : List Char) :
    (Text.matchParts? breaksPattern text).map (['\n', '\n'], ·) = blankRun? text := by
  change (lineFeedThen (Text.matchMany? Text.isBlank
    (lineFeedThen (Text.matchMany? Text.isBlank (lineFeedThen some)))) text).map _ = _
  cases text with
  | nil => rfl
  | cons c rest =>
    by_cases isFeed : c = '\n'
    · -- The head is one line feed, and the rest of the pattern asks for two more.
      subst isFeed
      have known : blankRun? ('\n' :: rest) = if 3 ≤ leadingBreaks ('\n' :: rest) then
          some (['\n', '\n'], behindBreaks ('\n' :: rest)) else none := by
        rw [blankRun?, leadingBreaks, behindBreaks, takeWhile_lineFeed_cons]
      rw [lineFeedThen_cons, matchMany?_two_lineFeeds, known, leadingBreaks_lineFeed_cons]
      by_cases enough : 1 < leadingBreaks rest
      · rw [if_pos enough, if_pos (by omega), behindBreaks_cons_of_pos (by decide) (by omega)]
        rfl
      · rw [if_neg enough, if_neg (by omega)]
        rfl
    · rw [lineFeedThen_of_ne _ c rest isFeed, blankRun?_eq_none (by simp [isFeed])]
      rfl

end Pattern

/-- Characters before the first line feed stay. -/
theorem collapseBlankLines_append_of_not_mem {front : List Char} (free : '\n' ∉ front)
    (rest : List Char) : collapseBlankLines (front ++ rest) = front ++ collapseBlankLines rest := by
  induction front with
  | nil => rfl
  | cons c front ih =>
    obtain ⟨other, later⟩ := not_or.1 (mt List.mem_cons.2 free)
    -- No run begins at a character that is no line feed.
    have unknown : blankRun? (c :: (front ++ rest)) = none :=
      blankRun?_eq_none (by simp [Ne.symm other])
    rw [List.cons_append, collapseBlankLines, Text.substituteAll_cons_of_none unknown,
      List.cons_append]
    exact congrArg _ (ih later)

/-- A text without a line feed stays as it is. -/
theorem collapseBlankLines_of_not_mem {text : List Char} (free : '\n' ∉ text) :
    collapseBlankLines text = text := by
  -- Nothing behind the text is the special case to be read off.
  have whole := collapseBlankLines_append_of_not_mem free []
  rwa [List.append_nil, show collapseBlankLines [] = [] from rfl, List.append_nil] at whole

/-- A run with several line feeds is cut at its first and at its last one. -/
theorem exists_outer_breaks {run : List Char} (several : 2 ≤ run.count '\n') :
    ∃ front middle last, run = front ++ '\n' :: (middle ++ '\n' :: last) ∧
      '\n' ∉ front ∧ '\n' ∉ last := by
  -- The first one is cut off, and of the others the last one.
  have one : 0 < run.count '\n' := Nat.zero_lt_of_lt several
  obtain ⟨front, rest, rfl, free⟩ := List.eq_append_cons_of_mem (List.count_pos_iff.1 one)
  rw [List.count_append, List.count_eq_zero.2 free, List.count_cons_self] at several
  have another : 0 < rest.count '\n' := by omega
  obtain ⟨middle, last, rfl, noFeed⟩ := exists_last_break (List.count_pos_iff.1 another)
  exact ⟨front, middle, last, rfl, free, noFeed⟩

section Runs

variable {front middle last run text : List Char}

/-- A run with line feeds enough has two of them for all. -/
theorem joinBreaks_eq (free : '\n' ∉ front) (noFeed : '\n' ∉ last)
    (many : 3 ≤ (front ++ '\n' :: (middle ++ '\n' :: last)).count '\n') :
    joinBreaks (front ++ '\n' :: (middle ++ '\n' :: last)) = front ++ '\n' :: '\n' :: last := by
  have ahead : ∀ c ∈ front, (c != '\n') = true :=
    fun c within => bne_iff_ne.2 fun same => free (same ▸ within)
  -- The pieces are found again as what stands before the first line feed and behind the last one.
  have beginning : (front ++ '\n' :: (middle ++ '\n' :: last)).takeWhile (· != '\n') = front := by
    rw [List.takeWhile_append_of_pos ahead, List.takeWhile_cons_of_neg (by simp), List.append_nil]
  have ending : Text.afterLast '\n' (front ++ '\n' :: (middle ++ '\n' :: last)) = last := by
    rw [← List.cons_append, ← List.append_assoc]
    exact Text.afterLast_append_cons _ noFeed
  rw [joinBreaks, if_pos many, beginning, ending]
  simp

/-- All line feeds of a run of blanks are joined at once. -/
theorem collapseBlankLines_of_blank (blank : ∀ c ∈ run, Text.isBlank c = true) :
    collapseBlankLines run = joinBreaks run := by
  by_cases many : 3 ≤ run.count '\n'
  · obtain ⟨front, middle, last, rfl, free, noFeed⟩ :=
      exists_outer_breaks (Nat.le_of_succ_le many)
    have inside : ∀ c ∈ middle ++ '\n' :: last, Text.isBlank c = true := fun c within =>
      blank c (List.mem_append_right _ (List.mem_cons_of_mem _ within))
    have whole : (middle ++ '\n' :: last).takeWhile Text.isBlank = middle ++ '\n' :: last :=
      List.takeWhile_eq_self_iff.2 inside
    have enough : 3 ≤ ('\n' :: (middle ++ '\n' :: last)).count '\n' := by
      rwa [List.count_append, List.count_eq_zero.2 free, Nat.zero_add] at many
    -- Of the blanks only those behind the last line feed stay.
    have known : blankRun? (('\n' :: middle ++ ['\n']) ++ last) = some (['\n', '\n'], last) := by
      have shape : ('\n' :: middle ++ ['\n']) ++ last = '\n' :: (middle ++ '\n' :: last) := by simp
      have reached : upToLastBreak ('\n' :: (middle ++ '\n' :: last)) = '\n' :: middle ++ ['\n'] :=
        upToLastBreak_append_cons ('\n' :: middle) noFeed
      rw [shape, blankRun?, whole, if_pos enough, reached, ← shape, List.drop_left]
    have joined := Text.substituteAll_append_of_some (by simp) known
    rw [joinBreaks_eq free noFeed many, collapseBlankLines_append_of_not_mem free]
    simp only [List.append_assoc, List.cons_append, List.nil_append] at joined
    rw [collapseBlankLines, joined]
    exact congrArg (front ++ '\n' :: '\n' :: ·) (collapseBlankLines_of_not_mem noFeed)
  · rw [joinBreaks, if_neg many, collapseBlankLines_eq_self_iff]
    rintro ⟨breaks, within, -, enough⟩
    exact many (Nat.le_trans enough (within.sublist.count_le '\n'))

/-- Where neighbours are of one kind, all characters are of the kind of the first one. -/
theorem isBlank_eq_of_isChain {c d : Char} {rest : List Char}
    (alike : (c :: rest).IsChain fun c d => Text.isBlank c == Text.isBlank d) (within : d ∈ c :: rest) :
    Text.isBlank d = Text.isBlank c := by
  induction rest generalizing c with
  | nil => rw [List.mem_singleton.1 within]
  | cons e rest ih =>
    -- Each neighbour is of the kind of the one before it.
    obtain ⟨near, later⟩ := List.isChain_cons_cons.1 alike
    rcases List.mem_cons.1 within with rfl | behind
    · rfl
    · rw [ih later behind, beq_iff_eq.1 near]

/-- A stretch with a line feed is blank throughout. -/
theorem isBlank_of_mem_runs (among : run ∈ runs text) (feed : '\n' ∈ run) :
    ∀ c ∈ run, Text.isBlank c = true := by
  have alike := List.isChain_of_mem_splitBy among
  cases run with
  | nil => exact List.forall_mem_nil _
  | cons d rest =>
    intro c within
    -- All characters are of the kind of the line feed among them.
    rw [isBlank_eq_of_isChain alike within, ← isBlank_eq_of_isChain alike feed]
    decide

/-- Each stretch is joined by itself. -/
theorem collapseBlankLines_of_mem_runs (among : run ∈ runs text) :
    collapseBlankLines run = joinBreaks run := by
  -- A run with a line feed is blank, and one without has nothing to be joined.
  by_cases feed : '\n' ∈ run
  · exact collapseBlankLines_of_blank (isBlank_of_mem_runs among feed)
  · rw [collapseBlankLines_of_not_mem feed, joinBreaks,
      if_neg (by rw [List.count_eq_zero.2 feed]; decide)]

/-- Stretches of different kinds are broken off from one another. -/
theorem areBroken_of_ne {first second : List Char} (nonempty : first ≠ []) (following : second ≠ [])
    (different : (Text.isBlank (first.getLast nonempty) == Text.isBlank (second.head following)) = false)
    (more : List Char) : AreBroken first (second ++ more) := by
  -- One of the two characters at the seam shows.
  cases ending : Text.isBlank (first.getLast nonempty) with
  | false =>
    refine areBroken_of_getLast? _ fun c last => ?_
    rw [List.getLast?_eq_some_getLast nonempty, Option.mem_some_iff] at last
    rw [← last, ending]
  | true =>
    rw [ending, beq_eq_false_iff_ne, ne_eq, eq_comm, Bool.not_eq_true] at different
    refine areBroken_of_head? _ fun c first => ?_
    rw [List.head?_append_of_ne_nil _ following, List.head?_eq_some_head following,
      Option.mem_some_iff] at first
    rw [← first, different]

/-- Stretches that are broken off from one another are joined each by itself. -/
theorem collapseBlankLines_flatten {stretches : List (List Char)}
    (apart : stretches.IsChain fun first second => ∃ nonempty following,
      (Text.isBlank (first.getLast nonempty) == Text.isBlank (second.head following)) = false) :
    collapseBlankLines stretches.flatten = stretches.flatMap collapseBlankLines := by
  induction stretches with
  | nil => rfl
  | cons first later ih =>
    -- The seam behind the first stretch is no inside of a run, since the kinds differ there.
    have broken : AreBroken first later.flatten := by
      cases later with
      | nil => exact areBroken_of_head? _ nofun
      | cons second more =>
        obtain ⟨⟨nonempty, following, different⟩, -⟩ := List.isChain_cons_cons.1 apart
        exact areBroken_of_ne nonempty following different more.flatten
    rw [List.flatten_cons, collapseBlankLines_append broken, ih apart.tail, List.flatMap_cons]

/-- Joining blank lines joins the line feeds of each run by themselves, and changes nothing else. -/
theorem collapseBlankLines_eq_flatMap_runs (text : List Char) :
    collapseBlankLines text = (runs text).flatMap joinBreaks := by
  -- No run of blanks goes across the seam of two stretches, so each of them is joined by itself.
  calc collapseBlankLines text
    _ = collapseBlankLines (runs text).flatten := by rw [runs, List.flatten_splitBy]
    _ = (runs text).flatMap collapseBlankLines :=
      collapseBlankLines_flatten
        (List.isChain_getLast_head_splitBy (fun c d => Text.isBlank c == Text.isBlank d) text)
    _ = (runs text).flatMap joinBreaks :=
      List.flatMap_congr fun _ => collapseBlankLines_of_mem_runs

/-- Where no blanks hold three line feeds, no run does. -/
theorem count_lt_of_mem_runs (settled : ¬ HasBlankRun text) (among : run ∈ runs text) :
    run.count '\n' < 3 := by
  refine Nat.lt_of_not_le fun many => settled ?_
  -- A stretch with a line feed is a run of blanks, and stands in the text.
  have feed : '\n' ∈ run := List.count_pos_iff.1 (by omega)
  have within : run <:+: text := by
    have inWhole := List.infix_of_mem_flatten among
    rwa [runs, List.flatten_splitBy] at inWhole
  exact ⟨run, within, List.all_eq_true.2 (isBlank_of_mem_runs among feed), many⟩

/-- The lines that show something are those before a line feed and those behind it. -/
theorem visibleLines_append_cons (front rest : List Char) :
    visibleLines (front ++ '\n' :: rest) = visibleLines front ++ visibleLines rest := by
  have cut : Text.lines (front ++ '\n' :: rest) = Text.lines front ++ Text.lines rest :=
    -- The line feed ends a line on both sides.
    List.splitOn_append_cons_self front rest
  rw [visibleLines, cut, List.filter_append, visibleLines, visibleLines]

/-- Every line of a text of blanks is blank. -/
theorem allBlank_of_mem_lines {blanks : List Char} (blank : ∀ c ∈ blanks, Text.isBlank c = true) :
    ∀ line ∈ Text.lines blanks, Text.allBlank line = true := by
  induction blanks with
  | nil => simp [Text.lines, Text.allBlank]
  | cons c rest ih =>
    obtain ⟨here, later⟩ := List.forall_mem_cons.1 blank
    have ih := ih later
    rw [Text.lines] at ih
    rw [Text.lines, List.splitOn_cons_eq_if_modifyHead]
    split
    · -- A line feed ends an empty line.
      exact List.forall_mem_cons.2 ⟨rfl, ih⟩
    · -- The character belongs to the first line of the rest.
      cases parted : rest.splitOn '\n' with
      | nil => exact absurd parted (List.splitOn_ne_nil _ _)
      | cons first more =>
        rw [parted] at ih
        obtain ⟨blankFirst, blankMore⟩ := List.forall_mem_cons.1 ih
        refine List.forall_mem_cons.2 ⟨?_, blankMore⟩
        rw [Text.allBlank, List.all_cons, here, Bool.true_and]
        exact blankFirst

/-- Blanks alone make no line that shows anything. -/
theorem visibleLines_of_blank {blanks : List Char} (blank : ∀ c ∈ blanks, Text.isBlank c = true) :
    visibleLines blanks = [] := by
  rw [visibleLines, List.filter_eq_nil_iff]
  -- Each line of blanks is blank.
  intro line among
  simp [allBlank_of_mem_lines blank line among]

/-- Joining the line feeds of runs leaves every line that shows something, whatever stands before them. -/
theorem visibleLines_flatMap_joinBreaks {stretches : List (List Char)}
    (blank : ∀ run ∈ stretches, '\n' ∈ run → ∀ c ∈ run, Text.isBlank c = true) (front : List Char) :
    visibleLines (front ++ stretches.flatMap joinBreaks) = visibleLines (front ++ stretches.flatten) := by
  -- What stands before a run begins its first line, and the blanks behind its last line feed the next.
  induction stretches generalizing front with
  | nil => rfl
  | cons run later ih =>
    obtain ⟨here, behind⟩ := List.forall_mem_cons.1 blank
    rw [List.flatMap_cons, List.flatten_cons]
    by_cases many : 3 ≤ run.count '\n'
    · obtain ⟨ahead, middle, last, rfl, free, noFeed⟩ :=
        exists_outer_breaks (Nat.le_of_succ_le many)
      have inside : ∀ c ∈ middle, Text.isBlank c = true :=
        fun c within => here (by simp) c (by simp [within])
      have nothing : visibleLines [] = [] := rfl
      -- The lines between the outer two line feeds are blank, with the stretch joined or not.
      rw [joinBreaks_eq free noFeed many]
      calc visibleLines (front ++ ((ahead ++ '\n' :: '\n' :: last) ++ later.flatMap joinBreaks))
        _ = visibleLines ((front ++ ahead) ++ '\n' :: ([] ++ '\n' ::
            (last ++ later.flatMap joinBreaks))) := by simp
        _ = visibleLines (front ++ ahead) ++ visibleLines (last ++ later.flatMap joinBreaks) := by
          rw [visibleLines_append_cons, visibleLines_append_cons, nothing, List.nil_append]
        _ = visibleLines (front ++ ahead) ++ visibleLines (last ++ later.flatten) := by
          rw [ih behind]
        _ = visibleLines ((front ++ ahead) ++ '\n' :: (middle ++ '\n' :: (last ++ later.flatten))) := by
          rw [visibleLines_append_cons, visibleLines_append_cons, visibleLines_of_blank inside,
            List.nil_append]
        _ = _ := by simp
    · rw [joinBreaks, if_neg many, ← List.append_assoc, ← List.append_assoc, ih behind]

end Runs

/--
Joining blank lines is a normal form that loses nothing.

The pattern for blank lines, replaced wherever it matches, joins each maximal run of blanks by itself: from
the first line feed to the last one, if there are three. No run of three is left, a second time changes
nothing, and the lines that show something stay as they are.
-/
theorem collapseBlankLines_normal_form (text : List Char) :
    Text.substituteAll (fun rest => (Text.matchParts? breaksPattern rest).map (['\n', '\n'], ·)) text =
        collapseBlankLines text ∧
      collapseBlankLines text = (runs text).flatMap joinBreaks ∧
      (∀ run ∈ runs (collapseBlankLines text), run.count '\n' < 3) ∧
      collapseBlankLines (collapseBlankLines text) = collapseBlankLines text ∧
      visibleLines (collapseBlankLines text) = visibleLines text := by
  have settled := not_hasBlankRun_collapseBlankLines text
  refine ⟨?_, collapseBlankLines_eq_flatMap_runs text,
    fun run among => count_lt_of_mem_runs settled among, collapseBlankLines_eq_self_iff.2 settled, ?_⟩
  · rw [collapseBlankLines]
    exact congrArg (Text.substituteAll · text) (funext matchParts?_breaksPattern)
  · -- The lines are compared run by run, from the empty text on.
    have same := @visibleLines_flatMap_joinBreaks (runs text)
      (fun run among feed => isBlank_of_mem_runs among feed) []
    rw [collapseBlankLines_eq_flatMap_runs]
    rwa [List.nil_append, List.nil_append, runs, List.flatten_splitBy] at same

end NixKeeper.Managed
