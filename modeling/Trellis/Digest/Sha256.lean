/-!
# Digest — SHA-256

The hash of a byte list: the message is padded to whole blocks of sixty-four
bytes, and each block is stirred into eight words by sixty-four rounds.
-/

namespace Trellis

namespace Digest

/-- The words that every message starts from. -/
def initialWords : List UInt32 :=
  [0x6a09e667, 0xbb67ae85, 0x3c6ef372, 0xa54ff53a, 0x510e527f, 0x9b05688c, 0x1f83d9ab, 0x5be0cd19]

/-- The word of each round. -/
def roundWords : List UInt32 :=
  [0x428a2f98, 0x71374491, 0xb5c0fbcf, 0xe9b5dba5, 0x3956c25b, 0x59f111f1, 0x923f82a4, 0xab1c5ed5,
   0xd807aa98, 0x12835b01, 0x243185be, 0x550c7dc3, 0x72be5d74, 0x80deb1fe, 0x9bdc06a7, 0xc19bf174,
   0xe49b69c1, 0xefbe4786, 0x0fc19dc6, 0x240ca1cc, 0x2de92c6f, 0x4a7484aa, 0x5cb0a9dc, 0x76f988da,
   0x983e5152, 0xa831c66d, 0xb00327c8, 0xbf597fc7, 0xc6e00bf3, 0xd5a79147, 0x06ca6351, 0x14292967,
   0x27b70a85, 0x2e1b2138, 0x4d2c6dfc, 0x53380d13, 0x650a7354, 0x766a0abb, 0x81c2c92e, 0x92722c85,
   0xa2bfe8a1, 0xa81a664b, 0xc24b8b70, 0xc76c51a3, 0xd192e819, 0xd6990624, 0xf40e3585, 0x106aa070,
   0x19a4c116, 0x1e376c08, 0x2748774c, 0x34b0bcb5, 0x391c0cb3, 0x4ed8aa4a, 0x5b9cca4f, 0x682e6ff3,
   0x748f82ee, 0x78a5636f, 0x84c87814, 0x8cc70208, 0x90befffa, 0xa4506ceb, 0xbef9a3f7, 0xc67178f2]

/-- A word turned right by some bits. -/
def turned (w : UInt32) (bits : UInt32) : UInt32 :=
  (w >>> bits) ||| (w <<< (32 - bits))

/-- The eight words between two rounds. -/
structure Stirred where
  a : UInt32
  b : UInt32
  c : UInt32
  d : UInt32
  e : UInt32
  f : UInt32
  g : UInt32
  h : UInt32

/-- One round with a word of the message and the word of the round. -/
def Stirred.round (s : Stirred) (words : UInt32 × UInt32) : Stirred :=
  let upper := turned s.e 6 ^^^ turned s.e 11 ^^^ turned s.e 25
  let choice := (s.e &&& s.f) ^^^ (~~~s.e &&& s.g)
  let first := s.h + upper + choice + words.2 + words.1
  let lower := turned s.a 2 ^^^ turned s.a 13 ^^^ turned s.a 22
  let majority := (s.a &&& s.b) ^^^ (s.a &&& s.c) ^^^ (s.b &&& s.c)
  ⟨first + (lower + majority), s.a, s.b, s.c, s.d + first, s.e, s.f, s.g⟩

/-- So many more words of a block's schedule behind the reversed ones. -/
def schedule (reversed : List UInt32) : Nat → List UInt32
  | 0 => reversed.reverse
  | n + 1 =>
    let back (i : Nat) : UInt32 := (reversed[i - 1]?).getD 0
    let near := turned (back 2) 17 ^^^ turned (back 2) 19 ^^^ (back 2 >>> 10)
    let far := turned (back 15) 7 ^^^ turned (back 15) 18 ^^^ (back 15 >>> 3)
    schedule ((back 16 + far + back 7 + near) :: reversed) n

/-- The words of four bytes each. -/
def wordsOf : List UInt8 → List UInt32
  | a :: b :: c :: d :: rest =>
    (a.toUInt32 <<< 24 ||| b.toUInt32 <<< 16 ||| c.toUInt32 <<< 8 ||| d.toUInt32) :: wordsOf rest
  | _ => []

/-- The eight words after one block of sixteen words. -/
def stirBlock (words : List UInt32) (block : List UInt32) : List UInt32 :=
  match words with
  | [a, b, c, d, e, f, g, h] =>
    let message := schedule block.reverse 48
    let s := (message.zip roundWords).foldl Stirred.round ⟨a, b, c, d, e, f, g, h⟩
    [a + s.a, b + s.b, c + s.c, d + s.d, e + s.e, f + s.f, g + s.g, h + s.h]
  | other => other

/-- The blocks of sixteen words each. -/
def blocksOf (words : List UInt32) : List (List UInt32) :=
  go words.length words
where
  /-- So many blocks at most. -/
  go : Nat → List UInt32 → List (List UInt32)
    | 0, _ => []
    | n + 1, words => if words.isEmpty then [] else words.take 16 :: go n (words.drop 16)

/-- A number in so many bytes, the highest first. -/
def bytesOf (n : Nat) : Nat → List UInt8
  | 0 => []
  | count + 1 => UInt8.ofNat (n / Nat.pow 256 count) :: bytesOf n count

/-- The message with its padding: a set bit, zeros, and its length in bits. -/
def padded (bytes : List UInt8) : List UInt8 :=
  let zeros := (119 - bytes.length % 64) % 64
  bytes ++ 0x80 :: List.replicate zeros 0 ++ bytesOf (8 * bytes.length) 8

/-- **The hash of a message**, thirty-two bytes. -/
def sha256 (bytes : List UInt8) : List UInt8 :=
  ((blocksOf (wordsOf (padded bytes))).foldl stirBlock initialWords).flatMap fun w =>
    bytesOf w.toNat 4

/-- Bytes as lower-case hexadecimal digits. -/
def hex (bytes : List UInt8) : String :=
  String.ofList (bytes.flatMap fun b =>
    [Nat.digitChar (b.toNat / 16), Nat.digitChar (b.toNat % 16)])

end Digest

end Trellis
