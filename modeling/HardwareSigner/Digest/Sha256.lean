/-
# SHA-256

The message is padded to whole blocks of 64 bytes (a one bit, zeros, and its
length in bits as eight bytes), and the blocks are folded into eight 32-bit
words. A block of sixteen words is first stretched to sixty-four: a window of
sixteen gives up its oldest word and takes in the next one, so the stretching
is a plain recursion on how many words are still wanted.

Key definitions: `Sha256.padded`, `Sha256.compress`, `Sha256.digest`.
Key theorems: `Sha256.length_padded`.
-/
import HardwareSigner.Bytes.Endian

namespace HardwareSigner
namespace Sha256

/-- The eight chaining words. -/
structure State where
  a : UInt32
  b : UInt32
  c : UInt32
  d : UInt32
  e : UInt32
  f : UInt32
  g : UInt32
  h : UInt32

/-- The words hashing starts from: the fractional parts of the square roots
of the first eight primes. -/
def State.start : State :=
  ⟨0x6a09e667, 0xbb67ae85, 0x3c6ef372, 0xa54ff53a,
    0x510e527f, 0x9b05688c, 0x1f83d9ab, 0x5be0cd19⟩

/-- Word by word sum, modulo `2 ^ 32`. -/
def State.add (s t : State) : State :=
  ⟨s.a + t.a, s.b + t.b, s.c + t.c, s.d + t.d, s.e + t.e, s.f + t.f, s.g + t.g, s.h + t.h⟩

/-- The words as thirty-two bytes. -/
def State.toBytes (s : State) : FixedBytes 32 :=
  ⟨be32 s.a ++ be32 s.b ++ be32 s.c ++ be32 s.d ++ be32 s.e ++ be32 s.f ++ be32 s.g ++ be32 s.h,
    by simp⟩

/-- One constant a round: the fractional parts of the cube roots of the first
sixty-four primes. -/
def roundConstants : List UInt32 := [
  0x428a2f98, 0x71374491, 0xb5c0fbcf, 0xe9b5dba5, 0x3956c25b, 0x59f111f1, 0x923f82a4, 0xab1c5ed5,
  0xd807aa98, 0x12835b01, 0x243185be, 0x550c7dc3, 0x72be5d74, 0x80deb1fe, 0x9bdc06a7, 0xc19bf174,
  0xe49b69c1, 0xefbe4786, 0x0fc19dc6, 0x240ca1cc, 0x2de92c6f, 0x4a7484aa, 0x5cb0a9dc, 0x76f988da,
  0x983e5152, 0xa831c66d, 0xb00327c8, 0xbf597fc7, 0xc6e00bf3, 0xd5a79147, 0x06ca6351, 0x14292967,
  0x27b70a85, 0x2e1b2138, 0x4d2c6dfc, 0x53380d13, 0x650a7354, 0x766a0abb, 0x81c2c92e, 0x92722c85,
  0xa2bfe8a1, 0xa81a664b, 0xc24b8b70, 0xc76c51a3, 0xd192e819, 0xd6990624, 0xf40e3585, 0x106aa070,
  0x19a4c116, 0x1e376c08, 0x2748774c, 0x34b0bcb5, 0x391c0cb3, 0x4ed8aa4a, 0x5b9cca4f, 0x682e6ff3,
  0x748f82ee, 0x78a5636f, 0x84c87814, 0x8cc70208, 0x90befffa, 0xa4506ceb, 0xbef9a3f7, 0xc67178f2]

/-- A word turned right by `n` bits, for `n` from 1 to 31. -/
def rotateRight (w : UInt32) (n : UInt32) : UInt32 := (w >>> n) ||| (w <<< (32 - n))

/-- The first `count` words of the schedule that starts with `window`, the
sixteen words the next one is made of. -/
def schedule : (count : Nat) → (window : List UInt32) → List UInt32
  | 0, _ => []
  | _ + 1, [] => []
  | count + 1, w :: ws =>
    let early := ws.getD 0 0
    let late := ws.getD 13 0
    let mixEarly := rotateRight early 7 ^^^ rotateRight early 18 ^^^ (early >>> 3)
    let mixLate := rotateRight late 17 ^^^ rotateRight late 19 ^^^ (late >>> 10)
    w :: schedule count (ws ++ [mixLate + ws.getD 8 0 + mixEarly + w])

/-- One round, with its constant and its word of the schedule. -/
def round (s : State) (constant word : UInt32) : State :=
  let turnE := rotateRight s.e 6 ^^^ rotateRight s.e 11 ^^^ rotateRight s.e 25
  let choice := (s.e &&& s.f) ^^^ (~~~s.e &&& s.g)
  let t1 := s.h + turnE + choice + constant + word
  let turnA := rotateRight s.a 2 ^^^ rotateRight s.a 13 ^^^ rotateRight s.a 22
  let majority := (s.a &&& s.b) ^^^ (s.a &&& s.c) ^^^ (s.b &&& s.c)
  ⟨t1 + (turnA + majority), s.a, s.b, s.c, s.d + t1, s.e, s.f, s.g⟩

/-- Fold a block of 64 bytes into the chaining words. -/
def compress (s : State) (block : Bytes) : State :=
  let rounds := roundConstants.zip (schedule 64 (words block))
  s.add (rounds.foldl (fun t (constant, word) => round t constant word) s)

/-- The message with a one bit, as few zeros as fill the last block, and its
length in bits behind it. -/
def padded (message : Bytes) : Bytes :=
  message ++ 0x80 :: List.replicate ((119 - message.length % 64) % 64) 0 ++
    bigEndian 8 (8 * message.length)

/-- Padding fills whole blocks. -/
theorem length_padded (message : Bytes) : (padded message).length % 64 = 0 := by
  simp only [padded, List.append_assoc, List.cons_append, List.length_append, List.length_cons,
    List.length_replicate, length_bigEndian]
  omega

/-- Fold the first `count` blocks of a byte string into the chaining words. -/
def absorb (s : State) : (count : Nat) → Bytes → State
  | 0, _ => s
  | count + 1, bs => absorb (compress s (bs.take 64)) count (bs.drop 64)

/-- The SHA-256 digest of a message. -/
def digest (message : Bytes) : FixedBytes 32 :=
  let blocks := padded message
  (absorb State.start (blocks.length / 64) blocks).toBytes

-- The standard's own messages, of one block and of two.
example : (digest "abc".toByteArray.data.toList).toList = [
    0xba, 0x78, 0x16, 0xbf, 0x8f, 0x01, 0xcf, 0xea, 0x41, 0x41, 0x40, 0xde, 0x5d, 0xae, 0x22, 0x23,
    0xb0, 0x03, 0x61, 0xa3, 0x96, 0x17, 0x7a, 0x9c, 0xb4, 0x10, 0xff, 0x61, 0xf2, 0x00, 0x15,
    0xad] := by decide +kernel

example : (digest
    "abcdbcdecdefdefgefghfghighijhijkijkljklmklmnlmnomnopnopq".toByteArray.data.toList).toList = [
    0x24, 0x8d, 0x6a, 0x61, 0xd2, 0x06, 0x38, 0xb8, 0xe5, 0xc0, 0x26, 0x93, 0x0c, 0x3e, 0x60, 0x39,
    0xa3, 0x3c, 0xe4, 0x59, 0x64, 0xff, 0x21, 0x67, 0xf6, 0xec, 0xed, 0xd4, 0x19, 0xdb, 0x06,
    0xc1] := by decide +kernel

end Sha256
end HardwareSigner
