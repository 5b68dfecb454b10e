import NixKeeper.Document.Json.Number
import NixKeeper.Proofs.Decimal.Integer

/-! A number in JSON is the same number whatever follows it, if that does not continue it. -/

namespace NixKeeper.Json

/-- What follows a number does not continue it. -/
def EndsNumber (after : List Char) : Prop :=
  ∀ c ∈ after.head?, c.isDigit = false ∧ c ∉ ['.', 'e', 'E']

/-- Digits are taken as far as they reach. -/
theorem digits?_append {digits after : List Char} (nonempty : digits ≠ [])
    (all : ∀ c ∈ digits, c.isDigit = true) (ends : ∀ c ∈ after.head?, c.isDigit = false) :
    digits? (digits ++ after) = some (digits, after) := by
  -- What follows begins with no digit.
  have stops : after.takeWhile Char.isDigit = [] ∧ after.dropWhile Char.isDigit = after := by
    cases after with
    | nil => exact ⟨rfl, rfl⟩
    | cons c after => simp [ends c rfl]
  rw [digits?, List.takeWhile_append_of_pos all, List.dropWhile_append_of_pos all, stops.1, stops.2,
    List.append_nil]
  simp [nonempty]

/-- Digits that were taken end where no digit follows. -/
theorem digits?_eq_some {text digits rest : List Char} (read : digits? text = some (digits, rest)) :
    text = digits ++ rest ∧ digits ≠ [] ∧ (∀ c ∈ digits, c.isDigit = true) ∧
      ∀ c ∈ rest.head?, c.isDigit = false := by
  rw [digits?] at read
  split at read
  · cases read
  · -- The digits are the longest stretch of them, which ends before another character.
    rename_i nonempty
    cases read
    refine ⟨List.takeWhile_append_dropWhile.symm, by simpa using nonempty,
      List.all_eq_true.1 List.all_takeWhile, fun c first => ?_⟩
    have stops := List.head?_dropWhile_not Char.isDigit text
    rw [Option.mem_def.1 first] at stops
    simpa using stops

/-- Digits are taken in the same way where more text follows. -/
theorem digits?_append_of_some {text digits rest after : List Char}
    (read : digits? text = some (digits, rest)) (ends : EndsNumber after) :
    digits? (text ++ after) = some (digits, rest ++ after) := by
  obtain ⟨rfl, nonempty, all, stops⟩ := digits?_eq_some read
  rw [List.append_assoc]
  refine digits?_append nonempty all ?_
  -- The digits end at the same character, or at the first one that follows.
  cases rest with
  | nil => exact fun c first => (ends c first).1
  | cons c rest => exact stops

/-- A power of ten is read in the same way where more text follows. -/
theorem exponent?_append_of_some {text rest after : List Char} {exponent : Int}
    (read : exponent? text = some (exponent, rest)) (ends : EndsNumber after) :
    exponent? (text ++ after) = some (exponent, rest ++ after) := by
  unfold exponent? at read
  split at read
  · -- A sign is passed, and the digits behind it are the same in both texts.
    obtain ⟨⟨taken, behind⟩, found, same⟩ := Option.map_eq_some_iff.1 read
    cases same
    rw [List.cons_append, exponent?, digits?_append_of_some found ends]
    rfl
  · obtain ⟨⟨taken, behind⟩, found, same⟩ := Option.map_eq_some_iff.1 read
    cases same
    rw [List.cons_append, exponent?, digits?_append_of_some found ends]
    rfl
  · rename_i noPlus noMinus
    obtain ⟨⟨taken, behind⟩, found, same⟩ := Option.map_eq_some_iff.1 read
    cases same
    -- There are digits, so the text has a head of its own.
    have longer := digits?_append_of_some found ends
    cases text with
    | nil => cases found
    | cons c rest =>
      rw [List.cons_append] at longer ⊢
      rw [exponent?, longer]
      · rfl
      · exact fun other same => noPlus rest (by rw [(List.cons.inj same).1])
      · exact fun other same => noMinus rest (by rw [(List.cons.inj same).1])

/-- The digits behind a point, if there is one. -/
def fraction? : List Char → Option (List Char × List Char)
  -- Without a point there are no digits, and nothing is read.
  | '.' :: after => digits? after
  | rest => some ([], rest)

/-- The number with the digits read so far, and with the power of ten that may follow them. -/
def finish? (negative : Bool) (whole fraction : List Char) :
    List Char → Option (Document × List Char)
  | 'e' :: after | 'E' :: after =>
    (exponent? after).map fun (exponent, rest) => (floatOf negative whole fraction exponent, rest)
  | rest =>
    -- Without a point and an exponent the number is whole.
    some (if fraction.isEmpty then integerOf negative whole else floatOf negative whole fraction 0, rest)

/-- A number is finished by looking for one of two letters. -/
theorem finish?_eq (negative : Bool) (whole fraction rest : List Char) :
    finish? negative whole fraction rest =
      match rest with
      | 'e' :: after =>
        (exponent? after).bind fun found => some (floatOf negative whole fraction found.1, found.2)
      | 'E' :: after =>
        (exponent? after).bind fun found => some (floatOf negative whole fraction found.1, found.2)
      | _ =>
        if fraction.isEmpty then some (integerOf negative whole, rest)
        else some (floatOf negative whole fraction 0, rest) := by
  -- The two letters lead to the same power of ten.
  split
  · rw [finish?]
    cases exponent? _ <;> rfl
  · rw [finish?]
    cases exponent? _ <;> rfl
  · rw [finish?]
    · split <;> rfl
    · assumption
    · assumption

/-- A number is read digits first, then the digits behind a point, then the power of ten. -/
theorem unsigned?_eq (negative : Bool) (text : List Char) :
    unsigned? negative text = (digits? text).bind fun (whole, rest) =>
      if whole.head? = some '0' ∧ 1 < whole.length then none
      else (fraction? rest).bind fun (fraction, rest) => finish? negative whole fraction rest := by
  unfold unsigned?
  cases digits? text with
  | none => rfl
  | some cut =>
    obtain ⟨whole, rest⟩ := cut
    simp only [Option.bind_eq_bind, Option.bind_some, finish?_eq]
    split
    · rfl
    · -- A point is looked for first.
      fun_cases fraction? rest with
      | case1 after => rfl
      | case2 =>
        rename_i noPoint
        split
        · exact absurd rfl (noPoint _)
        · rfl

/-- The digits behind a point are taken in the same way where more text follows. -/
theorem fraction?_append_of_some {text fraction rest after : List Char}
    (read : fraction? text = some (fraction, rest)) (ends : EndsNumber after) :
    fraction? (text ++ after) = some (fraction, rest ++ after) := by
  unfold fraction? at read
  split at read
  · exact digits?_append_of_some read ends
  · rename_i noPoint
    cases read
    rw [fraction?]
    rintro behind same
    -- A point would have to stand at the head of one of the two texts.
    cases text with
    | nil => exact (ends '.' (by rw [← List.nil_append after, same]; rfl)).2 (by simp)
    | cons c text => exact noPoint text (by rw [(List.cons.inj same).1])

/-- A number is finished in the same way where more text follows. -/
theorem finish?_append_of_some {negative : Bool} {whole fraction text rest after : List Char}
    {document : Document} (read : finish? negative whole fraction text = some (document, rest))
    (ends : EndsNumber after) :
    finish? negative whole fraction (text ++ after) = some (document, rest ++ after) := by
  -- Behind the letter the power of ten is read in the same way.
  have exponent {text : List Char}
      (read : (exponent? text).map (fun (exponent, rest) =>
        (floatOf negative whole fraction exponent, rest)) = some (document, rest)) :
      (exponent? (text ++ after)).map (fun (exponent, rest) =>
        (floatOf negative whole fraction exponent, rest)) = some (document, rest ++ after) := by
    obtain ⟨⟨power, behind⟩, found, same⟩ := Option.map_eq_some_iff.1 read
    cases same
    rw [exponent?_append_of_some found ends]
    rfl
  unfold finish? at read
  split at read
  · exact exponent read
  · exact exponent read
  · rename_i noSmall noLarge
    cases read
    -- Neither letter stands at the head of one of the two texts.
    rw [finish?]
    · rintro behind same
      cases text with
      | nil => exact (ends 'e' (by rw [← List.nil_append after, same]; rfl)).2 (by simp)
      | cons c text => exact noSmall text (by rw [(List.cons.inj same).1])
    · rintro behind same
      cases text with
      | nil => exact (ends 'E' (by rw [← List.nil_append after, same]; rfl)).2 (by simp)
      | cons c text => exact noLarge text (by rw [(List.cons.inj same).1])

/-- A number that ends a text is read in the same way where more text follows. -/
theorem unsigned?_append_of_some {negative : Bool} {text after : List Char} {document : Document}
    (read : unsigned? negative text = some (document, [])) (ends : EndsNumber after) :
    unsigned? negative (text ++ after) = some (document, after) := by
  rw [unsigned?_eq] at read ⊢
  obtain ⟨⟨whole, rest⟩, atWhole, read⟩ := Option.bind_eq_some_iff.1 read
  -- Each part is read in the same way where more text follows.
  rw [digits?_append_of_some atWhole ends, Option.bind_some]
  dsimp only at read ⊢
  split at read
  · cases read
  · rename_i noZero
    obtain ⟨⟨fraction, rest⟩, atFraction, read⟩ := Option.bind_eq_some_iff.1 read
    rw [if_neg noZero, fraction?_append_of_some atFraction ends, Option.bind_some]
    exact finish?_append_of_some read ends

/-- A number begins with a digit or with a minus sign. -/
theorem head_of_number? {text rest : List Char} {document : Document}
    (read : number? text = some (document, rest)) :
    ∃ c tail, text = c :: tail ∧ (c.isDigit = true ∨ c = '-') := by
  unfold number? at read
  split at read
  · exact ⟨'-', _, rfl, .inr rfl⟩
  · -- Without a sign the number begins with the first of its digits.
    rw [unsigned?_eq] at read
    obtain ⟨⟨whole, behind⟩, atWhole, -⟩ := Option.bind_eq_some_iff.1 read
    obtain ⟨rfl, nonempty, all, -⟩ := digits?_eq_some atWhole
    obtain ⟨c, tail, rfl⟩ := List.exists_cons_of_ne_nil nonempty
    exact ⟨c, tail ++ behind, rfl, .inl (all c List.mem_cons_self)⟩

/-- A number that ends a text is the same number where more text follows. -/
theorem number?_append_of_some {text after : List Char} {document : Document}
    (read : number? text = some (document, [])) (ends : EndsNumber after) :
    number? (text ++ after) = some (document, after) := by
  -- The text has a head, so whether there is a sign is seen from it alone.
  obtain ⟨c, tail, rfl, -⟩ := head_of_number? read
  unfold number? at read
  split at read
  · rename_i same
    rw [same, List.cons_append, number?]
    exact unsigned?_append_of_some read ends
  · rename_i noMinus
    rw [List.cons_append, number?]
    · exact unsigned?_append_of_some read ends
    · exact fun behind same => noMinus tail (by rw [(List.cons.inj same).1])

/-- A natural number is read as a whole number, whichever sign stood before it. -/
theorem unsigned?_ofNat_append (negative : Bool) (n : Nat) {after : List Char}
    (ends : EndsNumber after) :
    unsigned? negative (Decimal.ofNat n ++ after) =
      some (integerOf negative (Decimal.ofNat n), after) := by
  have taken := digits?_append (Decimal.ofNat_ne_nil n)
    (fun _ within => Decimal.isDigit_of_mem_ofNat within) fun c first => (ends c first).1
  -- A leading zero is refused, but only the number zero begins with one.
  have noZero : ¬ ((Decimal.ofNat n).head? = some '0' ∧ 1 < (Decimal.ofNat n).length) := by
    rintro ⟨leading, long⟩
    rw [Decimal.eq_zero_of_head?_ofNat leading] at long
    exact absurd long (by decide)
  have noLetter : ∀ c rest, after = c :: rest → c ∉ ['.', 'e', 'E'] := by
    rintro c rest rfl
    exact (ends c rfl).2
  simp only [unsigned?, taken, Option.bind_eq_bind, Option.bind_some, if_neg noZero]
  -- Neither a point nor an exponent follows the digits.
  split
  · rename_i rest
    exact absurd (by simp) (noLetter '.' rest rfl)
  · dsimp only [Option.bind]
    split
    · rename_i rest _
      exact absurd (by simp) (noLetter 'e' rest rfl)
    · rename_i rest _
      exact absurd (by simp) (noLetter 'E' rest rfl)
    · rfl

/-- A written integer begins with a digit or with a minus sign. -/
theorem head_ofInt (n : Int) :
    ∃ c rest, Decimal.ofInt n = c :: rest ∧ (c.isDigit = true ∨ c = '-') := by
  -- The digits of a natural number are a text that is not empty.
  cases n with
  | ofNat n =>
    obtain ⟨c, rest, digits⟩ := List.exists_cons_of_ne_nil (Decimal.ofNat_ne_nil n)
    exact ⟨c, rest, digits, .inl (Decimal.isDigit_of_mem_ofNat (digits ▸ List.mem_cons_self))⟩
  | negSucc n => exact ⟨'-', _, rfl, .inr rfl⟩

/-- An integer of sixty-four bits is read back. -/
theorem number?_ofInt_append {n : Int} {after : List Char} (fits : Int64.minValue.toInt ≤ n ∧ n < UInt64.size)
    (ends : EndsNumber after) :
    number? (Decimal.ofInt n ++ after) = some (.integer n, after) := by
  cases n with
  | ofNat n =>
    obtain ⟨c, rest, digits⟩ := List.exists_cons_of_ne_nil (Decimal.ofNat_ne_nil n)
    have digit : c.isDigit = true := Decimal.isDigit_of_mem_ofNat (digits ▸ List.mem_cons_self)
    -- The first digit is no minus sign.
    have unsigned : number? (Decimal.ofNat n ++ after) = unsigned? false (Decimal.ofNat n ++ after) := by
      rw [digits, List.cons_append, number?]
      intro rest minus
      rw [(List.cons.inj minus).1] at digit
      exact absurd digit (by decide)
    have small : n < UInt64.size := Int.ofNat_lt.1 fits.2
    rw [Decimal.ofInt, unsigned, unsigned?_ofNat_append false n ends, integerOf, Decimal.ofNat,
      Nat.ofDigitChars_ten_toDigits]
    simp only [Bool.false_eq_true, if_false, if_pos small]
    rfl
  | negSucc n =>
    -- The least number of sixty-four bits is the bound for those below zero.
    have large : n + 1 ≤ 1 <<< 63 := by
      have lower := fits.1
      rw [Int64.toInt_minValue] at lower
      omega
    rw [Decimal.ofInt, List.cons_append, number?, unsigned?_ofNat_append true (n + 1) ends, integerOf,
      Decimal.ofNat, Nat.ofDigitChars_ten_toDigits]
    simp only [if_true, if_pos (And.intro n.succ_pos large)]
    rfl

end NixKeeper.Json
