/-!
# Message blocks

The padding shared by both digests: a one bit, zeros, and the bit length as eight bytes, cut into
blocks of sixteen big-endian words.
-/

namespace CodeHealth.Digest

/-- The `width` low bytes of a number, the highest first. -/
def bigEndian (n : Nat) : Nat → List UInt8
  | 0 => []
  | width + 1 => UInt8.ofNat (n / 256 ^ width) :: bigEndian n width

/-- Fills a message up to a multiple of 64 bytes. -/
def pad (message : List UInt8) : List UInt8 :=
  message ++ 0x80 :: List.replicate ((119 - message.length % 64) % 64) 0 ++
    bigEndian (8 * message.length) 8

/-- Reads four bytes at a time as a word. -/
def toWords : List UInt8 → List UInt32
  | a :: b :: c :: d :: rest =>
    (a.toUInt32 <<< 24 ||| b.toUInt32 <<< 16 ||| c.toUInt32 <<< 8 ||| d.toUInt32) :: toWords rest
  | _ => []

/-- Cuts words into `count` blocks of sixteen. -/
def toBlocks : Nat → List UInt32 → List (List UInt32)
  | 0, _ => []
  | count + 1, words => words.take 16 :: toBlocks count (words.drop 16)

/-- The blocks of a message. -/
def blocks (message : List UInt8) : List (List UInt32) :=
  let words := toWords (pad message)
  toBlocks (words.length / 16) words

/-- Rotates a word to the left. -/
def rotateLeft (x : UInt32) (n : UInt32) : UInt32 :=
  x <<< n ||| x >>> (32 - n)

/-- Rotates a word to the right. -/
def rotateRight (x : UInt32) (n : UInt32) : UInt32 :=
  x >>> n ||| x <<< (32 - n)

/-- The bytes of some words. -/
def wordBytes (words : List UInt32) : List UInt8 :=
  words.flatMap fun w => bigEndian w.toNat 4

/-- Lower-case hexadecimal digits. -/
def hex (bytes : List UInt8) : String :=
  String.ofList (bytes.flatMap fun b =>
    [Nat.digitChar (b.toNat / 16), Nat.digitChar (b.toNat % 16)])

end CodeHealth.Digest
