import NixKeeper.Managed.Bytes
import NixKeeper.Proofs.Managed.UserBlock
import NixKeeper.Proofs.Text.Pattern
import NixKeeper.Proofs.Text.Utf8

/-!
What is looked for in the bytes of a text is found where the characters have it.

The search for the end of a block runs without a fault, because between characters every cut is possible.
-/

namespace NixKeeper.Managed

/-- The number of bytes of a text is that of the bytes it is written with. -/
theorem length_encode (text : List Char) : (Text.encode text).length = byteLength text := by
  induction text with
  | nil => rfl
  | cons c rest ih =>
    -- A character has as many bytes as its encoding is long.
    rw [Text.encode_cons, List.length_append, String.length_utf8EncodeChar, ih, byteLength]

/-- The bytes of texts one behind the other add up. -/
theorem byteLength_append (first second : List Char) :
    byteLength (first ++ second) = byteLength first + byteLength second := by
  -- The bytes of a joined text are those of its parts.
  rw [← length_encode, Text.encode_append, List.length_append, length_encode, length_encode]

/-- What stands before a character does not matter for the backslash at the end of a text. -/
theorem endsEscaped_append_cons (escaped : Bool) (front : List Char) (c : Char) (rest : List Char) :
    endsEscaped escaped (front ++ c :: rest) = endsEscaped (c == '\\') rest := by
  -- The parts in front of the last do not decide.
  rw [← endsEscaped_cons escaped, endsEscaped, endsEscaped,
    List.getLast?_append_of_ne_nil _ (List.cons_ne_nil c rest)]

/-- An offset leads to the text behind a beginning of as many bytes, and to no other. -/
theorem textFrom?_eq_some_iff {offset : Nat} {escaped ends : Bool} {text rest : List Char} :
    textFrom? offset escaped text = some (ends, rest) ↔
      ∃ front, text = front ++ rest ∧ byteLength front = offset ∧ endsEscaped escaped front = ends := by
  constructor
  · intro found
    -- Each step takes one character from the text and its bytes from the offset.
    induction text generalizing offset escaped with
    | nil =>
      cases offset with
      | zero =>
        cases found
        exact ⟨[], rfl, rfl, rfl⟩
      | succ offset => cases found
    | cons c text ih =>
      cases offset with
      | zero =>
        cases found
        exact ⟨[], rfl, rfl, rfl⟩
      | succ offset =>
        rw [textFrom?] at found
        split at found
        · rename_i fits
          obtain ⟨front, rfl, count, ending⟩ := ih found
          refine ⟨c :: front, rfl, ?_, ?_⟩
          · rw [byteLength, count]
            omega
          · rw [endsEscaped_cons, ending]
        · cases found
  · rintro ⟨front, rfl, rfl, rfl⟩
    exact textFrom?_append front rest escaped

namespace Bytes

/-- The boundaries in the bytes of a text are the offsets that lead to a text. -/
theorem isBoundary_encode (text : List Char) (offset : Nat) (escaped : Bool) :
    isBoundary (Text.encode text) offset = (textFrom? offset escaped text).isSome := by
  -- The text and the offset are shortened together, by one character.
  induction text generalizing offset escaped with
  | nil => cases offset <;> rfl
  | cons c rest ih =>
    have positive := c.utf8Size_pos
    have size := String.length_utf8EncodeChar c
    cases offset with
    | zero =>
      have first : 0 < (String.utf8EncodeChar c).length := by omega
      rw [isBoundary, Text.encode_cons, List.getElem?_append_left first,
        List.getElem?_eq_getElem first]
      simp [textFrom?]
    | succ offset =>
      by_cases fits : c.utf8Size ≤ offset + 1
      · -- Behind the character the bytes of the rest count.
        have shifted : (Text.encode (c :: rest))[offset + 1]? =
            (Text.encode rest)[offset + 1 - c.utf8Size]? := by
          rw [Text.encode_cons, List.getElem?_append_right (by omega), size]
        have lengths : (offset + 1 == (Text.encode (c :: rest)).length) =
            (offset + 1 - c.utf8Size == (Text.encode rest).length) := by
          rw [Text.encode_cons, List.length_append, size, Bool.eq_iff_iff, beq_iff_eq, beq_iff_eq]
          omega
        rw [textFrom?, if_pos fits, ← ih, isBoundary, isBoundary, shifted, lengths]
      · -- A character has no boundary inside.
        have inside : offset + 1 < (String.utf8EncodeChar c).length := by omega
        rw [textFrom?, if_neg fits, isBoundary, Text.encode_cons, List.getElem?_append_left inside,
          List.getElem?_eq_getElem inside]
        simp [UInt8.isUTF8FirstByte_getElem_utf8EncodeChar]

/-- The end of a beginning is a boundary. -/
theorem isBoundary_append (front rest : List Char) :
    isBoundary (Text.encode (front ++ rest)) (byteLength front) = true := by
  -- A character begins behind the first part, or the text ends there.
  rw [isBoundary_encode _ _ false, textFrom?_append]
  rfl

/-- A part of a text can be cut out. -/
theorem slice_append (front middle rest : List Char) :
    slice (Text.encode (front ++ middle ++ rest)) (byteLength front) (byteLength (front ++ middle)) =
      .ok (Text.encode middle) := by
  have atStart := isBoundary_append front (middle ++ rest)
  have atStop := isBoundary_append (front ++ middle) rest
  rw [← List.append_assoc] at atStart
  have ordered : byteLength front ≤ byteLength (front ++ middle) := by
    rw [byteLength_append]
    exact Nat.le_add_right _ _
  -- Both ends are boundaries, and between them lie the bytes of the middle.
  have cutting : ((Text.encode (front ++ middle ++ rest)).take (byteLength (front ++ middle))).drop
      (byteLength front) = Text.encode middle := by
    rw [Text.encode_append, List.take_left' (length_encode _), Text.encode_append,
      List.drop_left' (length_encode _)]
  rw [slice, if_pos ⟨ordered, atStart, atStop⟩, cutting]
  rfl

/-- The end of a text can be cut off. -/
theorem slice_to_end (front rest : List Char) :
    slice (Text.encode (front ++ rest)) (byteLength front) (Text.encode (front ++ rest)).length =
      .ok (Text.encode rest) := by
  -- The end of the text is the special case to be read off.
  have whole := slice_append front rest []
  rwa [List.append_nil, ← length_encode (front ++ rest)] at whole

/-- The byte before a place tells whether the character before it is a backslash. -/
theorem isEscaped_append (front rest : List Char) :
    isEscaped (Text.encode (front ++ rest)) (byteLength front) = .ok (endsEscaped false front) := by
  rcases List.eq_nil_or_concat front with rfl | ⟨passed, c, rfl⟩
  · rfl
  · rw [List.concat_eq_append, endsEscaped_append_cons]
    have size := String.length_utf8EncodeChar c
    have positive := c.utf8Size_pos
    -- The byte before the place is the last one of the last character.
    obtain ⟨before, count⟩ : ∃ before, byteLength (passed ++ [c]) = before + 1 :=
      ⟨byteLength (passed ++ [c]) - 1, by rw [byteLength_append, byteLength, byteLength]; omega⟩
    have place : before = (Text.encode passed).length + ((String.utf8EncodeChar c).length - 1) := by
      rw [byteLength_append, byteLength, byteLength] at count
      rw [length_encode, size]
      omega
    have last : (String.utf8EncodeChar c).length - 1 < (String.utf8EncodeChar c).length := by omega
    have found : (Text.encode (passed ++ [c] ++ rest))[before]? =
        some (String.utf8EncodeChar c)[(String.utf8EncodeChar c).length - 1] := by
      rw [List.append_assoc, Text.encode_append, List.singleton_append, Text.encode_cons, place,
        List.getElem?_append_right (Nat.le_add_right _ _), Nat.add_sub_cancel_left,
        List.getElem?_append_left last, List.getElem?_eq_getElem last]
    rw [count, isEscaped, found]
    -- Only the backslash itself is written with its byte.
    have same : (String.utf8EncodeChar c)[(String.utf8EncodeChar c).length - 1] = '\\'.toUInt8 ↔
        c = '\\' := by
      constructor
      · intro isByte
        exact (Text.toUInt8_mem_utf8EncodeChar_iff (by decide)).1 (isByte ▸ List.getElem_mem last)
      · rintro rfl
        rfl
    exact congrArg Except.ok (Bool.eq_iff_iff.2 (by simpa [endsEscaped] using same))

variable {bytes : List UInt8} {start depth : Nat} {quoted : Bool}

/-- Bytes that are neither quotes nor braces are passed. -/
theorem blockFrom_append_of_plain {passed rest : List (UInt8 × Nat)}
    (plain : ∀ item ∈ passed,
      item.1 ≠ '"'.toUInt8 ∧ item.1 ≠ '{'.toUInt8 ∧ item.1 ≠ '}'.toUInt8) :
    blockFrom bytes start depth quoted (passed ++ rest) = blockFrom bytes start depth quoted rest := by
  -- No byte of them changes the depth or the quotes.
  induction passed with
  | nil => rfl
  | cons item passed ih =>
    obtain ⟨byte, offset⟩ := item
    obtain ⟨⟨noQuote, noOpening, noClosing⟩, later⟩ := List.forall_mem_cons.1 plain
    rw [List.cons_append, blockFrom, if_neg noQuote]
    simp only [pure_bind, Bool.false_eq_true, if_false, noOpening, noClosing, false_and]
    exact ih later

/--
The bytes of a character lead the search where the character leads it.

The depth counts the block itself too, so it is never zero before the block is closed.
-/
theorem blockFrom_character {offset : Nat} {escaped : Bool} (c : Char) (rest : List (UInt8 × Nat))
    (before : isEscaped bytes offset = .ok escaped) :
    blockFrom bytes start (depth + 1) quoted ((String.utf8EncodeChar c).zipIdx offset ++ rest) =
      match Stand.step? ⟨depth, quoted, escaped⟩ c with
      | some next => blockFrom bytes start (next.depth + 1) next.quoted rest
      | none => some <$> slice bytes start offset := by
  -- The bytes that matter are ASCII, and each of their characters is written with one byte.
  by_cases quote : c = '"'
  · subst quote
    have written : (String.utf8EncodeChar '"').zipIdx offset = [('"'.toUInt8, offset)] := rfl
    rw [written, List.singleton_append, blockFrom, if_pos rfl, before]
    cases escaped <;> cases quoted <;> rfl
  by_cases opening : c = '{'
  · subst opening
    have written : (String.utf8EncodeChar '{').zipIdx offset = [('{'.toUInt8, offset)] := rfl
    rw [written, List.singleton_append, blockFrom]
    cases quoted <;> rfl
  by_cases closing : c = '}'
  · subst closing
    have written : (String.utf8EncodeChar '}').zipIdx offset = [('}'.toUInt8, offset)] := rfl
    rw [written, List.singleton_append, blockFrom]
    cases quoted <;> cases depth <;> rfl
  · -- No byte of any other character is taken for a quote or a brace.
    have steps : Stand.step? ⟨depth, quoted, escaped⟩ c = some ⟨depth, quoted, c == '\\'⟩ := by
      simp [Stand.step?, quote, opening, closing]
    rw [steps]
    refine blockFrom_append_of_plain fun item among => ?_
    have within := List.fst_mem_of_mem_zipIdx among
    refine ⟨?_, ?_, ?_⟩ <;> intro same <;> rw [same] at within
    · exact quote ((Text.toUInt8_mem_utf8EncodeChar_iff (by decide)).1 within)
    · exact opening ((Text.toUInt8_mem_utf8EncodeChar_iff (by decide)).1 within)
    · exact closing ((Text.toUInt8_mem_utf8EncodeChar_iff (by decide)).1 within)

/-- The search over the bytes behind a beginning finds the end that the characters have. -/
theorem blockFrom_encode (ahead passed rest : List Char) (depth : Nat) (quoted : Bool) :
    blockFrom (Text.encode (ahead ++ passed ++ rest)) (byteLength ahead) (depth + 1) quoted
        ((Text.encode rest).zipIdx (byteLength (ahead ++ passed))) =
      .ok ((splitBlock depth quoted (endsEscaped false (ahead ++ passed)) rest).map
        fun parts => Text.encode (passed ++ parts.1)) := by
  -- Each character moves the beginning on, and with it the offset and what stands before it.
  induction rest generalizing passed depth quoted with
  | nil => rfl
  | cons c rest ih =>
    have before := isEscaped_append (ahead ++ passed) (c :: rest)
    have behind : byteLength (ahead ++ passed) + (String.utf8EncodeChar c).length =
        byteLength (ahead ++ (passed ++ [c])) := by
      rw [← List.append_assoc, byteLength_append _ [c], String.length_utf8EncodeChar]
      rfl
    have whole : ahead ++ passed ++ c :: rest = ahead ++ (passed ++ [c]) ++ rest := by simp
    have found := Stand.split_cons ⟨depth, quoted, endsEscaped false (ahead ++ passed)⟩ c rest
    rw [Stand.split] at found
    rw [Text.encode_cons, List.zipIdx_append, blockFrom_character c _ before, behind, found]
    cases steps : Stand.step? ⟨depth, quoted, endsEscaped false (ahead ++ passed)⟩ c with
    | none =>
      -- The slice ends before the character that closes the block.
      dsimp only
      rw [slice_append, Option.map_some, List.append_nil]
      rfl
    | some next =>
      have protects : next.escaped = endsEscaped false (ahead ++ (passed ++ [c])) := by
        rw [← List.append_assoc, endsEscaped_append_cons]
        exact Stand.escaped_of_step? steps
      dsimp only
      rw [whole, ih, ← protects, Option.map_map]
      simp [Function.comp_def, Stand.split]

/-- Over the bytes of a text the block from any offset is found without a fault. -/
theorem extract_encode (text : List Char) (start : Nat) :
    extract (Text.encode text) start = .ok ((extractBlock text start).map Text.encode) := by
  rw [extract, isBoundary_encode _ _ false, extractBlock]
  cases found : textFrom? start false text with
  | none => rfl
  | some place =>
    obtain ⟨ends, rest⟩ := place
    obtain ⟨front, rfl, rfl, rfl⟩ := textFrom?_eq_some_iff.1 found
    -- The bytes behind the beginning come with the offsets from its end on.
    have left : (Text.encode (front ++ rest)).zipIdx.drop (byteLength front) =
        (Text.encode rest).zipIdx (byteLength front) := by
      rw [Text.encode_append, List.zipIdx_append, List.drop_left' (by simp [length_encode]),
        Nat.zero_add, length_encode]
    have searched := blockFrom_encode front [] rest 0 false
    rw [List.append_nil] at searched
    rw [Option.isSome_some, if_pos rfl, left, searched]
    simp only [List.nil_append, Option.bind_eq_bind, Option.bind_some, Option.pure_def]
    cases splitBlock 0 false (endsEscaped false front) rest <;> rfl

/-- The bytes of a class are passed like the characters that are written with them. -/
theorem exists_skipBytes {accepts : UInt8 → Bool} {members : Char → Bool}
    (agrees : ∀ c, ∀ byte ∈ String.utf8EncodeChar c, accepts byte = members c) (front rest : List Char) :
    ∃ taken, (∀ c ∈ taken, members c = true) ∧ rest = taken ++ rest.dropWhile members ∧
      skipBytes accepts (Text.encode (front ++ rest)) (byteLength front) =
        byteLength (front ++ taken) := by
  refine ⟨rest.takeWhile members, fun c => List.mem_takeWhile_imp,
    List.takeWhile_append_dropWhile.symm, ?_⟩
  rw [skipBytes, Text.encode_append, List.drop_left' (length_encode _), byteLength_append]
  congr 1
  -- All bytes of a character are accepted together, or its first one is refused.
  induction rest with
  | nil => rfl
  | cons c rest ih =>
    rw [Text.encode_cons]
    cases member : members c with
    | true =>
      rw [List.takeWhile_append_of_pos fun byte within => (agrees c byte within).trans member,
        List.takeWhile_cons_of_pos member, List.length_append, String.length_utf8EncodeChar, ih]
      rfl
    | false =>
      -- The first byte of the character is refused already.
      obtain ⟨byte, more, written⟩ := List.exists_cons_of_ne_nil (@String.utf8EncodeChar_ne_nil c)
      have refused : accepts byte = false :=
        (agrees c byte (by rw [written]; exact List.mem_cons_self)).trans member
      rw [List.takeWhile_cons_of_neg (by simp [member]), written, List.cons_append,
        List.takeWhile_cons_of_neg (by simp [refused])]
      rfl

/-- An optional character of ASCII is passed as its byte. -/
theorem exists_skipByte {optional : Char} (ascii : optional.toNat < 128) (front rest : List Char) :
    ∃ taken, taken <+: [optional] ∧ rest = taken ++ skipChar optional rest ∧
      skipByte optional.toUInt8 (Text.encode (front ++ rest)) (byteLength front) =
        byteLength (front ++ taken) := by
  have behind : (Text.encode (front ++ rest))[byteLength front]? = (Text.encode rest)[0]? := by
    rw [Text.encode_append, List.getElem?_append_right (Nat.le_of_eq (length_encode front)),
      length_encode, Nat.sub_self]
  rw [skipByte, behind]
  -- Either the character stands behind the front, or its byte does not.
  cases found : [optional].isPrefixOf? rest with
  | some later =>
    obtain rfl := List.append_eq_of_isPrefixOf?_eq_some found
    refine ⟨[optional], List.prefix_refl _, by rw [skipChar, found]; rfl, ?_⟩
    have first : (Text.encode ([optional] ++ later))[0]? = some optional.toUInt8 := by
      rw [List.singleton_append, Text.encode_cons, Text.utf8EncodeChar_of_ascii ascii]
      rfl
    have size : optional.utf8Size = 1 := by
      rw [← String.length_utf8EncodeChar, Text.utf8EncodeChar_of_ascii ascii]
      rfl
    rw [first, if_pos rfl, byteLength_append, byteLength, size]
    rfl
  | none =>
    refine ⟨[], List.nil_prefix, by rw [skipChar, found]; rfl, ?_⟩
    have other : (Text.encode rest)[0]? ≠ some optional.toUInt8 := by
      cases rest with
      | nil =>
        intro same
        cases same
      | cons c later =>
        -- Another character does not begin with the byte.
        obtain ⟨byte, more, written⟩ := List.exists_cons_of_ne_nil (@String.utf8EncodeChar_ne_nil c)
        rw [Text.encode_cons, written]
        intro same
        have within : optional.toUInt8 ∈ String.utf8EncodeChar c := by
          rw [written, ← Option.some.inj same]
          exact List.mem_cons_self
        obtain rfl := (Text.toUInt8_mem_utf8EncodeChar_iff ascii).1 within
        simp [List.isPrefixOf?] at found
    rw [if_neg other, List.append_nil]

/-- A byte belongs to a space exactly in the characters that are spaces. -/
theorem isSpace_eq (c : Char) : ∀ byte ∈ String.utf8EncodeChar c, isSpace byte = Text.isSpace c := by
  intro byte within
  rw [Bool.eq_iff_iff]
  simp only [isSpace, Text.isSpace, Bool.or_eq_true, beq_iff_eq]
  -- A byte of ASCII occurs only in the character it writes.
  constructor
  · rintro (rfl | rfl)
    · exact .inl ((Text.toUInt8_mem_utf8EncodeChar_iff (by decide)).1 within)
    · exact .inr ((Text.toUInt8_mem_utf8EncodeChar_iff (by decide)).1 within)
  · rintro (rfl | rfl)
    · exact .inl (List.mem_singleton.1 within)
    · exact .inr (List.mem_singleton.1 within)

/-- A byte belongs to a space or a carriage return exactly in such characters. -/
theorem isSpace_or_return_eq (c : Char) : ∀ byte ∈ String.utf8EncodeChar c,
    (isSpace byte || byte == '\r'.toUInt8) = (Text.isSpace c || c == '\r') := by
  intro byte within
  rw [isSpace_eq c byte within, Bool.eq_iff_iff, Bool.or_eq_true, Bool.or_eq_true, beq_iff_eq, beq_iff_eq]
  -- Only the carriage return is written with its byte.
  refine or_congr_right ⟨?_, ?_⟩
  · rintro rfl
    exact (Text.toUInt8_mem_utf8EncodeChar_iff (by decide)).1 within
  · rintro rfl
    exact List.mem_singleton.1 within

end Bytes

end NixKeeper.Managed
