import NixKeeper.Text.UpperTable

/-! Upper case of single characters, and texts with a capital at their head. -/

namespace NixKeeper.Text

/-- The code point belongs to the range. -/
def CaseRange.covers (range : CaseRange) (code : Nat) : Bool :=
  -- Some ranges hold every second code point only, capitals and small letters alternating.
  range.first ≤ code && code ≤ range.last && (code - range.first) % range.step == 0

/-- The full upper-case form of a character, which may have up to three characters. -/
def upper (c : Char) : List Char :=
  -- ASCII needs no table.
  if c.toNat < 0x80 then [c.toUpper]
  else
    -- Forms of several characters take precedence over those of a single one.
    match upperSequences.lookup c.toNat with
    | some codes => codes.map Char.ofNat
    | none =>
      match upperRanges.find? (·.covers c.toNat) with
      | some range => [Char.ofNat (c.toNat + range.shift).toNat]
      | none => [c]

/-- The text with its first character in upper case. -/
def capitalize : List Char → List Char
  -- One character may become several capitals.
  | [] => []
  | c :: rest => upper c ++ rest

end NixKeeper.Text
