/-! The SHA-256 digest of a text, written as `sha256:` and sixty-four hexadecimal digits. -/

namespace NixKeeper.Sha256

/-- The eight words that are carried from block to block. -/
structure State where
  a : UInt32
  b : UInt32
  c : UInt32
  d : UInt32
  e : UInt32
  f : UInt32
  g : UInt32
  h : UInt32

/-- The words before the first block: fractions of the square roots of the first eight primes. -/
def initial : State :=
  -- Each word is the first 32 bits of such a fraction.
  ⟨0x6a09e667, 0xbb67ae85, 0x3c6ef372, 0xa54ff53a,
    0x510e527f, 0x9b05688c, 0x1f83d9ab, 0x5be0cd19⟩

/-- One word a round: fractions of the cube roots of the first sixty-four primes. -/
def roundConstants : List UInt32 :=
  -- Each word is the first 32 bits of such a fraction.
  [
    0x428a2f98, 0x71374491, 0xb5c0fbcf, 0xe9b5dba5, 0x3956c25b, 0x59f111f1, 0x923f82a4, 0xab1c5ed5,
    0xd807aa98, 0x12835b01, 0x243185be, 0x550c7dc3, 0x72be5d74, 0x80deb1fe, 0x9bdc06a7, 0xc19bf174,
    0xe49b69c1, 0xefbe4786, 0x0fc19dc6, 0x240ca1cc, 0x2de92c6f, 0x4a7484aa, 0x5cb0a9dc, 0x76f988da,
    0x983e5152, 0xa831c66d, 0xb00327c8, 0xbf597fc7, 0xc6e00bf3, 0xd5a79147, 0x06ca6351, 0x14292967,
    0x27b70a85, 0x2e1b2138, 0x4d2c6dfc, 0x53380d13, 0x650a7354, 0x766a0abb, 0x81c2c92e, 0x92722c85,
    0xa2bfe8a1, 0xa81a664b, 0xc24b8b70, 0xc76c51a3, 0xd192e819, 0xd6990624, 0xf40e3585, 0x106aa070,
    0x19a4c116, 0x1e376c08, 0x2748774c, 0x34b0bcb5, 0x391c0cb3, 0x4ed8aa4a, 0x5b9cca4f, 0x682e6ff3,
    0x748f82ee, 0x78a5636f, 0x84c87814, 0x8cc70208, 0x90befffa, 0xa4506ceb, 0xbef9a3f7, 0xc67178f2
  ]

/-- Rotation of a word to the right. -/
def rotate (x : UInt32) (count : UInt32) : UInt32 :=
  (x >>> count) ||| (x <<< (32 - count))

/-- The mixing function of the message schedule for the second word of the window. -/
def scheduleLow (x : UInt32) : UInt32 :=
  rotate x 7 ^^^ rotate x 18 ^^^ (x >>> 3)

/-- The mixing function of the message schedule for the fifteenth word of the window. -/
def scheduleHigh (x : UInt32) : UInt32 :=
  rotate x 17 ^^^ rotate x 19 ^^^ (x >>> 10)

/-- The words of a schedule, of which each depends on a window of the sixteen words before it. -/
def schedule : Nat → List UInt32 → List UInt32
  | 0, _ => []
  | count + 1, window =>
    -- The window slides by one word, which takes in the word just made.
    let next := scheduleHigh (window.getD 14 0) + window.getD 9 0 +
      scheduleLow (window.getD 1 0) + window.getD 0 0
    window.getD 0 0 :: schedule count (window.drop 1 ++ [next])

/-- One round with its constant and its word of the schedule. -/
def round (s : State) (constant word : UInt32) : State :=
  -- Six words move down one place; the other two are mixed anew.
  let sum1 := rotate s.e 6 ^^^ rotate s.e 11 ^^^ rotate s.e 25
  let choice := (s.e &&& s.f) ^^^ (~~~s.e &&& s.g)
  let first := s.h + sum1 + choice + constant + word
  let sum0 := rotate s.a 2 ^^^ rotate s.a 13 ^^^ rotate s.a 22
  let majority := (s.a &&& s.b) ^^^ (s.a &&& s.c) ^^^ (s.b &&& s.c)
  ⟨first + (sum0 + majority), s.a, s.b, s.c, s.d + first, s.e, s.f, s.g⟩

/-- The state after a block of sixteen words. -/
def compress (s : State) (block : List UInt32) : State :=
  -- The state before the block is added, so that no round can be undone.
  let mixed := (roundConstants.zip (schedule 64 block)).foldl (fun s pair => round s pair.1 pair.2) s
  ⟨s.a + mixed.a, s.b + mixed.b, s.c + mixed.c, s.d + mixed.d,
    s.e + mixed.e, s.f + mixed.f, s.g + mixed.g, s.h + mixed.h⟩

/-- The state after a number of blocks. -/
def compressAll : Nat → State → List UInt32 → State
  -- Each block takes sixteen words.
  | 0, s, _ => s
  | count + 1, s, words => compressAll count (compress s (words.take 16)) (words.drop 16)

/-- Words of four bytes, the most significant one first. -/
def wordsOf : List UInt8 → List UInt32
  -- Fewer than four bytes at the end are dropped, and the padding leaves none of them.
  | a :: b :: c :: d :: rest =>
    ((a.toUInt32 <<< 24) ||| (b.toUInt32 <<< 16) ||| (c.toUInt32 <<< 8) ||| d.toUInt32) ::
      wordsOf rest
  | _ => []

/-- The zero bytes that fill the last block between the delimiter and the length. -/
def paddingZeros (size : Nat) : Nat :=
  -- One byte is the delimiter and eight are the length, so 119 zeros would fill two blocks.
  (119 - size % 64) % 64

/-- The length of the message in bits, in eight bytes. -/
def lengthBytes (size : Nat) : List UInt8 :=
  [56, 48, 40, 32, 24, 16, 8, 0].map fun shift => UInt8.ofNat ((8 * size) >>> shift)

/-- The message, a delimiter, zeros and its length, which together fill whole blocks. -/
def pad (message : List UInt8) : List UInt8 :=
  message ++ 0x80 :: List.replicate (paddingZeros message.length) 0 ++ lengthBytes message.length

/-- The final state for a message. -/
def digest (message : List UInt8) : State :=
  -- The padded message is a whole number of blocks.
  let words := wordsOf (pad message)
  compressAll (words.length / 16) initial words

/-- The eight hexadecimal digits of a word, in lower case. -/
def hex (word : UInt32) : List Char :=
  [28, 24, 20, 16, 12, 8, 4, 0].map fun shift => Nat.digitChar ((word.toNat >>> shift) % 16)

/-- The digest of a text in its written form. -/
def checksum (text : String) : String :=
  -- The eight words are written one after another in hexadecimal digits.
  let s := digest text.toByteArray.toList
  String.ofList ("sha256:".toList ++ [s.a, s.b, s.c, s.d, s.e, s.f, s.g, s.h].flatMap hex)

end NixKeeper.Sha256
