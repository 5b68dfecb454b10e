/-! Texts written as UTF-8, and bytes read as such, with a stand-in for every stretch that is none. -/

namespace NixKeeper.Text

/-- The character that stands in for bytes without a meaning. -/
def replacementChar : Char :=
  '\ufffd'

/-- The number of bytes that follow a first byte, and the range of the second one. -/
def sequenceShape? (first : Nat) : Option (Nat × Nat × Nat) :=
  -- The bounds exclude overlong forms, surrogates and codes above the last character.
  if 0xC2 ≤ first ∧ first ≤ 0xDF then some (1, 0x80, 0xBF)
  else if first = 0xE0 then some (2, 0xA0, 0xBF)
  else if first = 0xED then some (2, 0x80, 0x9F)
  else if 0xE1 ≤ first ∧ first ≤ 0xEF then some (2, 0x80, 0xBF)
  else if first = 0xF0 then some (3, 0x90, 0xBF)
  else if first = 0xF4 then some (3, 0x80, 0x8F)
  else if 0xF1 ≤ first ∧ first ≤ 0xF3 then some (3, 0x80, 0xBF)
  else none

/-- The bytes at the head of a list that continue a sequence, up to a number of them. -/
def continuation : Nat → Nat → Nat → List UInt8 → List Nat
  | 0, _, _, _ => []
  | _, _, _, [] => []
  | count + 1, low, high, byte :: rest =>
    -- Only the second byte has bounds of its own; any other continues with six free bits.
    if low ≤ byte.toNat ∧ byte.toNat ≤ high then byte.toNat :: continuation count 0x80 0xBF rest
    else []

/-- The code of a sequence from its first byte and those that continue it. -/
def sequenceCode (first : Nat) (more : List Nat) : Nat :=
  -- The first byte carries fewer bits the longer its sequence is.
  let lead := first % (1 <<< (6 - more.length))
  more.foldl (fun code byte => code * 64 + byte % 64) lead

/-- The character at the head of a list of bytes, and the number of bytes behind the first one. -/
def headChar (byte : UInt8) (rest : List UInt8) : Char × Nat :=
  let first := byte.toNat
  if first < 0x80 then (Char.ofNat first, 0)
  else
    match sequenceShape? first with
    | none => (replacementChar, 0)
    | some (count, low, high) =>
      let more := continuation count low high rest
      if more.length = count then (Char.ofNat (sequenceCode first more), count)
      -- A broken sequence is replaced as far as it went, and reading starts anew behind it.
      else (replacementChar, more.length)

/-- The characters of bytes, the first of which belong to a character that is read already. -/
def decodeFrom : Nat → List UInt8 → List Char
  | _, [] => []
  -- The bytes that a character has taken are passed over.
  | skip + 1, _ :: rest => decodeFrom skip rest
  | 0, byte :: rest =>
    let (c, skip) := headChar byte rest
    c :: decodeFrom skip rest

/-- The characters of bytes. -/
def decode (bytes : List UInt8) : List Char :=
  decodeFrom 0 bytes

/-- The bytes of a text. -/
def encode (text : List Char) : List UInt8 :=
  text.flatMap String.utf8EncodeChar

end NixKeeper.Text
