/-
Module: MergedMining.Hashing.Sha256
Purpose: SHA-256, of which the identity hashes of blocks and transactions are made.
Trusted boundary: that this is the SHA-256 which a supplied implementation computes; no result about
  blocks depends on it, as all are stated for any `HashFunctions`
Main exports: Hashing.sha256, Hashing.wordBE
-/
import MergedMining.Hash256

/-!
The digest of a message is the chaining value after all 64-byte blocks of the padded message.  One
block is absorbed in 64 rounds.  The message schedule is kept as a window of the sixteen words which
the following rounds depend on: a round uses its first word and appends a new last one.
-/

namespace MergedMining.Hashing

/-- The 32-bit word that four bytes spell, most significant first. -/
def wordBE (a b c d : UInt8) : UInt32 :=
  a.toUInt32 <<< 24 ||| b.toUInt32 <<< 16 ||| c.toUInt32 <<< 8 ||| d.toUInt32

/-- The words that a byte string spells; an incomplete last word is dropped. -/
def wordsBE : Bytes → List UInt32
  | a :: b :: c :: d :: rest => wordBE a b c d :: wordsBE rest
  | _ => []

/-- The four bytes of a word, most significant first. -/
def bytesBE (word : UInt32) : Bytes :=
  [(word >>> 24).toUInt8, (word >>> 16).toUInt8, (word >>> 8).toUInt8, word.toUInt8]

/-- A word turned right by `count` bits, for counts from 1 to 31. -/
def rotateRight (word count : UInt32) : UInt32 :=
  word >>> count ||| word <<< (32 - count)

namespace Sha256

/-- The chaining value, and the working variables of a block. -/
structure State where
  a : UInt32
  b : UInt32
  c : UInt32
  d : UInt32
  e : UInt32
  f : UInt32
  g : UInt32
  h : UInt32
deriving Repr, DecidableEq

/-- The chaining value before the first block: the leading fraction bits of the square roots of the
first eight primes. -/
def State.initial : State :=
  ⟨0x6a09e667, 0xbb67ae85, 0x3c6ef372, 0xa54ff53a, 0x510e527f, 0x9b05688c, 0x1f83d9ab, 0x5be0cd19⟩

/-- The round constants: the leading fraction bits of the cube roots of the first 64 primes. -/
def roundConstants : List UInt32 :=
  [0x428a2f98, 0x71374491, 0xb5c0fbcf, 0xe9b5dba5, 0x3956c25b, 0x59f111f1, 0x923f82a4, 0xab1c5ed5,
   0xd807aa98, 0x12835b01, 0x243185be, 0x550c7dc3, 0x72be5d74, 0x80deb1fe, 0x9bdc06a7, 0xc19bf174,
   0xe49b69c1, 0xefbe4786, 0x0fc19dc6, 0x240ca1cc, 0x2de92c6f, 0x4a7484aa, 0x5cb0a9dc, 0x76f988da,
   0x983e5152, 0xa831c66d, 0xb00327c8, 0xbf597fc7, 0xc6e00bf3, 0xd5a79147, 0x06ca6351, 0x14292967,
   0x27b70a85, 0x2e1b2138, 0x4d2c6dfc, 0x53380d13, 0x650a7354, 0x766a0abb, 0x81c2c92e, 0x92722c85,
   0xa2bfe8a1, 0xa81a664b, 0xc24b8b70, 0xc76c51a3, 0xd192e819, 0xd6990624, 0xf40e3585, 0x106aa070,
   0x19a4c116, 0x1e376c08, 0x2748774c, 0x34b0bcb5, 0x391c0cb3, 0x4ed8aa4a, 0x5b9cca4f, 0x682e6ff3,
   0x748f82ee, 0x78a5636f, 0x84c87814, 0x8cc70208, 0x90befffa, 0xa4506ceb, 0xbef9a3f7, 0xc67178f2]

/-- The word that follows a window of sixteen in the message schedule. -/
def nextWord (window : List UInt32) : UInt32 :=
  let early := window.getD 1 0
  let late := window.getD 14 0
  let mixedEarly := rotateRight early 7 ^^^ rotateRight early 18 ^^^ early >>> 3
  let mixedLate := rotateRight late 17 ^^^ rotateRight late 19 ^^^ late >>> 10
  window.getD 0 0 + mixedEarly + window.getD 9 0 + mixedLate

/-- One round, with the schedule word and the constant of the round. -/
def State.round (s : State) (word constant : UInt32) : State :=
  let turnedE := rotateRight s.e 6 ^^^ rotateRight s.e 11 ^^^ rotateRight s.e 25
  let choice := s.e &&& s.f ^^^ ~~~s.e &&& s.g
  let first := s.h + turnedE + choice + constant + word
  let turnedA := rotateRight s.a 2 ^^^ rotateRight s.a 13 ^^^ rotateRight s.a 22
  let majority := s.a &&& s.b ^^^ s.a &&& s.c ^^^ s.b &&& s.c
  ⟨first + (turnedA + majority), s.a, s.b, s.c, s.d + first, s.e, s.f, s.g⟩

/-- The rounds for the given constants; the window moves on by a word in each. -/
def State.rounds (s : State) (window : List UInt32) : (constants : List UInt32) → State
  | [] => s
  | constant :: constants =>
      let moved := window.drop 1 ++ [nextWord window]
      (s.round (window.getD 0 0) constant).rounds moved constants

/-- The chaining value after one more block of 64 bytes. -/
def State.absorb (s : State) (block : Bytes) : State :=
  let t := s.rounds (wordsBE block) roundConstants
  ⟨s.a + t.a, s.b + t.b, s.c + t.c, s.d + t.d, s.e + t.e, s.f + t.f, s.g + t.g, s.h + t.h⟩

/-- The chaining value after `count` blocks. -/
def State.absorbBlocks (s : State) : (count : Nat) → Bytes → State
  | 0, _ => s
  | count + 1, message => (s.absorb (message.take 64)).absorbBlocks count (message.drop 64)

/-- A message is followed by a set bit, zero bits up to 8 bytes before the end of a block, and its
length in bits. -/
def pad (message : Bytes) : Bytes :=
  message ++ 0x80 :: List.replicate ((119 - message.length % 64) % 64) 0
    ++ (Bytes.ofNatLE 8 (8 * message.length)).reverse

/-- The chaining value as a digest. -/
def State.digest (s : State) : Hash256 where
  bytes := bytesBE s.a ++ bytesBE s.b ++ bytesBE s.c ++ bytesBE s.d
    ++ bytesBE s.e ++ bytesBE s.f ++ bytesBE s.g ++ bytesBE s.h
  length_bytes := rfl

end Sha256

/-- SHA-256. -/
def sha256 (message : Bytes) : Hash256 :=
  let padded := Sha256.pad message
  (Sha256.State.initial.absorbBlocks (padded.length / 64) padded).digest

end MergedMining.Hashing
