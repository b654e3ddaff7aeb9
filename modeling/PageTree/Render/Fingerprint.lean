/-!
# Fingerprints

A digest of a text for telling versions apart: the keyed hash SipHash with one round for each word
and three at the end, with both keys zero, over the bytes of the text and a byte `0xff` behind
them.

## Main definitions

* `fingerprint`: the digest as sixteen hexadecimal digits
-/

namespace PageTree

/-- The four words that the hash mixes. -/
structure HashState where
  v0 : UInt64
  v1 : UInt64
  v2 : UInt64
  v3 : UInt64
  deriving DecidableEq, Repr

namespace HashState

/-- A word rotated to the left. -/
def rotate (x : UInt64) (n : UInt64) : UInt64 :=
  (x <<< n) ||| (x >>> (64 - n))

/-- The state for keys that are zero. -/
def initial : HashState :=
  ⟨0x736f6d6570736575, 0x646f72616e646f6d, 0x6c7967656e657261, 0x7465646279746573⟩

/-- One round of mixing. -/
def mix (s : HashState) : HashState :=
  let a := s.v0 + s.v1
  let b := rotate s.v1 13 ^^^ a
  let a := rotate a 32
  let c := s.v2 + s.v3
  let d := rotate s.v3 16 ^^^ c
  let a := a + d
  let d := rotate d 21 ^^^ a
  let c := c + b
  let b := rotate b 17 ^^^ c
  let c := rotate c 32
  ⟨a, b, c, d⟩

/-- Takes up a word. -/
def absorb (s : HashState) (word : UInt64) : HashState :=
  let s := mix { s with v3 := s.v3 ^^^ word }
  { s with v0 := s.v0 ^^^ word }

/-- The digest. -/
def finish (s : HashState) : UInt64 :=
  let s := mix (mix (mix { s with v2 := s.v2 ^^^ 0xff }))
  s.v0 ^^^ s.v1 ^^^ s.v2 ^^^ s.v3

end HashState

/-- Bytes as one word, the first byte lowest. -/
def wordOfBytes (bytes : List UInt8) : UInt64 :=
  bytes.foldr (fun byte word => (word <<< 8) ||| byte.toUInt64) 0

/-- Takes up bytes: words of eight, then a word of the rest with the length of the whole in its
highest byte. -/
def absorbBytes (length : Nat) (s : HashState) : List UInt8 → HashState
  | b0 :: b1 :: b2 :: b3 :: b4 :: b5 :: b6 :: b7 :: rest =>
    absorbBytes length (s.absorb (wordOfBytes [b0, b1, b2, b3, b4, b5, b6, b7])) rest
  | rest => s.absorb (wordOfBytes rest ||| (UInt64.ofNat (length % 256) <<< 56))

/-- The digest of bytes. -/
def hashBytes (bytes : List UInt8) : UInt64 :=
  (absorbBytes bytes.length .initial bytes).finish

/-- A word as sixteen hexadecimal digits. -/
def hexWord (word : UInt64) : String :=
  let digits := Nat.toDigits 16 word.toNat
  String.ofList (List.replicate (16 - digits.length) '0' ++ digits)

/-- The digest of a text as sixteen hexadecimal digits. -/
def fingerprint (text : String) : String :=
  hexWord (hashBytes (text.toUTF8.data.toList ++ [0xff]))

end PageTree
