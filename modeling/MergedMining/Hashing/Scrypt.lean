/-
Module: MergedMining.Hashing.Scrypt
Purpose: The memory-hard hash by which some networks identify their parent blocks.
Trusted boundary: that this is the scrypt which a supplied implementation computes, and that it
  takes the same costs; no result about blocks depends on it, as all are stated for any
  `HashFunctions`
Main exports: Hashing.hmacSha256, Hashing.pbkdf2, Hashing.Scrypt.Cost, Hashing.scrypt,
  Hashing.blockCost
-/
import MergedMining.Hashing.Sha256

/-!
Scrypt stretches a password to a working area, mixes each lane of the area with a table of its own
earlier states, and stretches the password again with the mixed area as salt.  The mixing permutes
64-byte chunks by Salsa20 with eight rounds.
-/

namespace MergedMining.Hashing

/-- The keyed hash HMAC over SHA-256.  A key longer than a block is hashed first. -/
def hmacSha256 (key message : Bytes) : Hash256 :=
  let short := if 64 < key.length then (sha256 key).bytes else key
  let padded := short ++ List.replicate (64 - short.length) 0
  let inner := sha256 (padded.map (· ^^^ 0x36) ++ message)
  sha256 (padded.map (· ^^^ 0x5c) ++ inner.bytes)

/-- PBKDF2 over HMAC-SHA-256 with a single iteration: `size` bytes derived from a password and a
salt. -/
def pbkdf2 (password salt : Bytes) (size : Nat) : Bytes :=
  let block (index : Nat) : Bytes :=
    (hmacSha256 password (salt ++ (Bytes.ofNatLE 4 (index + 1)).reverse)).bytes
  ((List.range ((size + 31) / 32)).flatMap block).take size

namespace Scrypt

/-- Sixteen words, permuted together. -/
abbrev Chunk := Vector UInt32 16

/-- The words that a byte string spells, least significant byte first; missing words are zero. -/
def Chunk.ofBytes (bytes : Bytes) : Chunk :=
  Vector.ofFn fun i => UInt32.ofNat (Bytes.toNatLE ((bytes.drop (4 * i.val)).take 4))

def Chunk.toBytes (chunk : Chunk) : Bytes :=
  chunk.toList.flatMap fun word => Bytes.ofNatLE 4 word.toNat

def Chunk.xor (x y : Chunk) : Chunk := Vector.zipWith (· ^^^ ·) x y

def Chunk.add (x y : Chunk) : Chunk := Vector.zipWith (· + ·) x y

/-- A word turned left by `count` bits, for counts from 1 to 31. -/
def rotateLeft (word count : UInt32) : UInt32 :=
  word <<< count ||| word >>> (32 - count)

/-- Word `i` mixed with the turned sum of two others. -/
def Chunk.mixWord (x : Chunk) (i j k : Fin 16) (count : UInt32) : Chunk :=
  x.set i (x[i] ^^^ rotateLeft (x[j] + x[k]) count)

/-- The quarter round on four of the words. -/
def Chunk.quarterRound (x : Chunk) : Fin 16 × Fin 16 × Fin 16 × Fin 16 → Chunk
  | (a, b, c, d) =>
      (((x.mixWord b a d 7).mixWord c b a 9).mixWord d c b 13).mixWord a d c 18

/-- The words are arranged in a square: four quarter rounds on its columns and four on its rows make
two rounds. -/
def quarters : List (Fin 16 × Fin 16 × Fin 16 × Fin 16) :=
  [(0, 4, 8, 12), (5, 9, 13, 1), (10, 14, 2, 6), (15, 3, 7, 11),
   (0, 1, 2, 3), (5, 6, 7, 4), (10, 11, 8, 9), (15, 12, 13, 14)]

/-- Two rounds. -/
def Chunk.doubleRound (x : Chunk) : Chunk := quarters.foldl Chunk.quarterRound x

/-- Salsa20 with eight rounds. -/
def Chunk.salsa (x : Chunk) : Chunk :=
  x.add x.doubleRound.doubleRound.doubleRound.doubleRound

/-- The state of one lane, an even number of chunks. -/
abbrev Lane := List Chunk

/-- Each chunk absorbed in turn into the permuted chunk before it. -/
def Lane.chainFrom (previous : Chunk) : Lane → Lane
  | [] => []
  | chunk :: rest =>
      let mixed := (previous.xor chunk).salsa
      mixed :: Lane.chainFrom mixed rest

/-- Every second chunk, beginning with the first. -/
def Lane.alternate : Lane → Lane
  | [] => []
  | [chunk] => [chunk]
  | chunk :: _ :: rest => chunk :: Lane.alternate rest

/-- The last chunk of a lane. -/
def Lane.last (lane : Lane) : Chunk := lane.getLastD (Vector.replicate 16 0)

/-- The chunks are chained, starting from the last, and then the even ones come before the odd. -/
def Lane.mix (lane : Lane) : Lane :=
  let chained := lane.chainFrom lane.last
  chained.alternate ++ Lane.alternate (chained.drop 1)

/-- The number which picks a table entry: the lane's last chunk begins with its low word. -/
def Lane.index (lane : Lane) : Nat := lane.last[0].toNat

/-- The next `count` states are appended to the table, and the state after them is returned. -/
def fill (table : Array Lane) (lane : Lane) : (count : Nat) → Array Lane × Lane
  | 0 => (table, lane)
  | count + 1 => fill (table.push lane) lane.mix count

/-- Mix `count` times, each time with the table entry that the state itself picks. -/
def stir (table : Array Lane) (lane : Lane) : (count : Nat) → Lane
  | 0 => lane
  | count + 1 =>
      let picked := table.getD (lane.index % table.size) []
      stir table (Lane.mix (List.zipWith Chunk.xor lane picked)) count

/-- How much work and memory a hash takes. -/
structure Cost where
  /-- The binary logarithm of the number of table entries, below 32. -/
  logSteps : Nat
  /-- A lane has `2 * blockSize` chunks. -/
  blockSize : Nat
  /-- The number of lanes. -/
  lanes : Nat
deriving Repr, DecidableEq

/-- The costs that scrypt is defined for.  The number that picks a table entry has to fit in a chunk
for each unit of block size, and the working area has to be within the reach of a block counter. -/
def Cost.isAdmissible (cost : Cost) : Bool :=
  0 < cost.blockSize && 0 < cost.lanes && cost.logSteps < 16 * cost.blockSize
    && cost.blockSize * cost.lanes < 0x40000000

/-- The numbers of bytes that can be derived: at most as many blocks as a block counter counts. -/
def isAdmissibleSize (size : Nat) : Bool := 0 < size && size ≤ 32 * 0xffffffff

/-- The mixing of one lane. -/
def Cost.mixLane (cost : Cost) (bytes : Bytes) : Bytes :=
  let chunk (i : Nat) : Chunk := Chunk.ofBytes ((bytes.drop (64 * i)).take 64)
  let lane := (List.range (2 * cost.blockSize)).map chunk
  let steps := 1 <<< cost.logSteps
  let (table, filled) := fill #[] lane steps
  (stir table filled steps).flatMap Chunk.toBytes

end Scrypt

open Scrypt in
/-- `size` bytes hashed from a password and a salt at the given cost. -/
def scrypt (cost : Cost) (password salt : Bytes) (size : Nat) : Bytes :=
  let laneBytes := 128 * cost.blockSize
  let area := pbkdf2 password salt (laneBytes * cost.lanes)
  let lane (i : Nat) : Bytes := cost.mixLane ((area.drop (laneBytes * i)).take laneBytes)
  pbkdf2 password ((List.range cost.lanes).flatMap lane) size

/-- A derivation has the size that was asked for. -/
theorem length_pbkdf2 (password salt : Bytes) (size : Nat) :
    (pbkdf2 password salt size).length = size := by
  simp [pbkdf2, List.length_flatMap, Hash256.length_bytes, List.map_const']
  omega

/-- A hash has the size that was asked for. -/
theorem length_scrypt (cost : Scrypt.Cost) (password salt : Bytes) (size : Nat) :
    (scrypt cost password salt size).length = size :=
  length_pbkdf2 ..

/-- The cost at which parent blocks are hashed. -/
def blockCost : Scrypt.Cost := { logSteps := 10, blockSize := 1, lanes := 1 }

end MergedMining.Hashing
