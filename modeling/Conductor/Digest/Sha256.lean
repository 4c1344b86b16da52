/-!
# Digest — SHA-256

The digest of an octet sequence: the sequence is padded to whole blocks of 64
octets, and each block is mixed into eight words in sixty-four rounds. The
round constants and the first words are the fractional parts of the cube
roots and of the square roots of the first primes.
-/

namespace Conductor

namespace Digest

namespace Sha256

/-- The eight working words. -/
structure Words where
  a : UInt32
  b : UInt32
  c : UInt32
  d : UInt32
  e : UInt32
  f : UInt32
  g : UInt32
  h : UInt32

/-- The words before the first block. -/
def Words.first : Words :=
  ⟨0x6a09e667, 0xbb67ae85, 0x3c6ef372, 0xa54ff53a, 0x510e527f, 0x9b05688c, 0x1f83d9ab, 0x5be0cd19⟩

/-- The constant of each round. -/
def constants : List UInt32 :=
  [0x428a2f98, 0x71374491, 0xb5c0fbcf, 0xe9b5dba5, 0x3956c25b, 0x59f111f1, 0x923f82a4, 0xab1c5ed5,
   0xd807aa98, 0x12835b01, 0x243185be, 0x550c7dc3, 0x72be5d74, 0x80deb1fe, 0x9bdc06a7, 0xc19bf174,
   0xe49b69c1, 0xefbe4786, 0x0fc19dc6, 0x240ca1cc, 0x2de92c6f, 0x4a7484aa, 0x5cb0a9dc, 0x76f988da,
   0x983e5152, 0xa831c66d, 0xb00327c8, 0xbf597fc7, 0xc6e00bf3, 0xd5a79147, 0x06ca6351, 0x14292967,
   0x27b70a85, 0x2e1b2138, 0x4d2c6dfc, 0x53380d13, 0x650a7354, 0x766a0abb, 0x81c2c92e, 0x92722c85,
   0xa2bfe8a1, 0xa81a664b, 0xc24b8b70, 0xc76c51a3, 0xd192e819, 0xd6990624, 0xf40e3585, 0x106aa070,
   0x19a4c116, 0x1e376c08, 0x2748774c, 0x34b0bcb5, 0x391c0cb3, 0x4ed8aa4a, 0x5b9cca4f, 0x682e6ff3,
   0x748f82ee, 0x78a5636f, 0x84c87814, 0x8cc70208, 0x90befffa, 0xa4506ceb, 0xbef9a3f7, 0xc67178f2]

/-- Rotation of a word to the right. -/
def rotate (x : UInt32) (n : UInt32) : UInt32 :=
  (x >>> n) ||| (x <<< (32 - n))

/-- The sixteen words that the schedule looks back on, the oldest first. -/
abbrev Window := List UInt32

/-- The word that follows sixteen words of the schedule. -/
def nextWord : Window → UInt32
  | w0 :: w1 :: _ :: _ :: _ :: _ :: _ :: _ :: _ :: w9 :: _ :: _ :: _ :: _ :: w14 :: _ =>
    let low := rotate w1 7 ^^^ rotate w1 18 ^^^ (w1 >>> 3)
    let high := rotate w14 17 ^^^ rotate w14 19 ^^^ (w14 >>> 10)
    w0 + low + w9 + high
  | _ => 0

/-- One round with a word of the schedule and the constant of the round. -/
def Words.round (v : Words) (k w : UInt32) : Words :=
  let s1 := rotate v.e 6 ^^^ rotate v.e 11 ^^^ rotate v.e 25
  let choice := (v.e &&& v.f) ^^^ (~~~ v.e &&& v.g)
  let t1 := v.h + s1 + choice + k + w
  let s0 := rotate v.a 2 ^^^ rotate v.a 13 ^^^ rotate v.a 22
  let majority := (v.a &&& v.b) ^^^ (v.a &&& v.c) ^^^ (v.b &&& v.c)
  ⟨t1 + s0 + majority, v.a, v.b, v.c, v.d + t1, v.e, v.f, v.g⟩

/-- The rounds with the constants given; the window moves one word a round. -/
def Words.rounds (v : Words) : List UInt32 → Window → Words
  | [], _ => v
  | k :: ks, window =>
    let w := window.headD 0
    (v.round k w).rounds ks (window.tail ++ [nextWord window])

/-- The words after a block. -/
def Words.absorb (v : Words) (block : Window) : Words :=
  let r := v.rounds constants block
  ⟨v.a + r.a, v.b + r.b, v.c + r.c, v.d + r.d, v.e + r.e, v.f + r.f, v.g + r.g, v.h + r.h⟩

/-- Four octets as a word, the most significant first. -/
def word (a b c d : UInt8) : UInt32 :=
  (a.toUInt32 <<< 24) ||| (b.toUInt32 <<< 16) ||| (c.toUInt32 <<< 8) ||| d.toUInt32

/-- Absorbs octets; the words collected of the current block are in reverse order. -/
def Words.absorbAll (v : Words) (collected : Window) (count : Nat) : List UInt8 → Words
  | a :: b :: c :: d :: rest =>
    let collected := word a b c d :: collected
    if count = 15 then (v.absorb collected.reverse).absorbAll [] 0 rest
    else v.absorbAll collected (count + 1) rest
  | _ => v

/-- The octets of a number, `count` of them, the most significant first. -/
def octets (count n : Nat) : List UInt8 :=
  (List.range count).map fun i => UInt8.ofNat (n / Nat.pow 256 (count - 1 - i))

/-- The octets behind a sequence of `n` octets: a one bit, zeros up to the last
eight octets of a block, and the length in bits. -/
def padding (n : Nat) : List UInt8 :=
  0x80 :: List.replicate ((119 - n % 64) % 64) 0 ++ octets 8 (8 * n)

end Sha256

/-- The SHA-256 digest in lower-case hexadecimal digits. -/
def sha256 (bs : List UInt8) : String :=
  let v := Sha256.Words.first.absorbAll [] 0 (bs ++ Sha256.padding bs.length)
  let words := [v.a, v.b, v.c, v.d, v.e, v.f, v.g, v.h]
  String.ofList (words.flatMap fun w =>
    (Sha256.octets 4 w.toNat).flatMap fun o =>
      [Nat.digitChar (o.toNat / 16), Nat.digitChar (o.toNat % 16)])

end Digest

end Conductor
