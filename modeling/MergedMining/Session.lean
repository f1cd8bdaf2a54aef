/-
Module: MergedMining.Session
Purpose: A run of reads on one message, which goes on after reads that fail.
Trusted boundary: none
Main exports: Request, Reading, Request.read, Session, Session.Step, Session.start,
  Session.perform, Session.run
-/
import MergedMining.BlockHeader
import MergedMining.Transaction

/-!
A session asks for one value after the other.  A request that fails leaves the session where the
failing read stopped, and the next request is tried there.  A place can be marked and returned to.
-/

namespace MergedMining

open Wire

/-- What can be asked for. -/
inductive Request where
  | uint8
  | uint16
  | uint32
  | int32
  | uint64
  | int64
  | compactSize
  | hash
  | bytes (count : Nat)
  | length (what : String) (max : Nat)
  | varBytes (what : String) (max : Nat)
  | header
  | transaction
deriving Repr, DecidableEq

/-- What has been read. -/
inductive Reading where
  | uint8 (value : UInt8)
  | uint16 (value : UInt16)
  | uint32 (value : UInt32)
  | int32 (value : Int32)
  | uint64 (value : UInt64)
  | int64 (value : Int64)
  | hash (value : Hash256)
  | bytes (value : Bytes)
  | length (value : Nat)
  | header (value : BlockHeader)
  | transaction (value : Transaction)
deriving Repr, DecidableEq

/-- The read that answers a request. -/
def Request.read : Request → Read Reading
  | .uint8 => .uint8 <$> readUInt8
  | .uint16 => .uint16 <$> readUInt16
  | .uint32 => .uint32 <$> readUInt32
  | .int32 => .int32 <$> readInt32
  | .uint64 => .uint64 <$> readUInt64
  | .int64 => .int64 <$> readInt64
  | .compactSize => .uint64 <$> CompactSize.read
  | .hash => .hash <$> readHash
  | .bytes count => .bytes <$> readBytes count
  | .length what max => .length <$> readLength what max
  | .varBytes what max => .bytes <$> readVarBytes what max
  | .header => .header <$> BlockHeader.read
  | .transaction => .transaction <$> Transaction.read

/-- A step of a session. -/
inductive Session.Step where
  | ask (request : Request)
  /-- Remember the place. -/
  | mark
  /-- Return to the place remembered last, and forget it. -/
  | reset
deriving Repr, DecidableEq

/-- A place in a message, and the places remembered, the latest first. -/
structure Session where
  cursor : Cursor
  marks : List Cursor
deriving Repr, DecidableEq

namespace Session

/-- A session that begins at an offset of a message. -/
def start (message : Bytes) (offset : Nat) : Except DecodeError Session :=
  (Cursor.start message offset).map fun cursor => { cursor, marks := [] }

/-- The outcome of a step, with a value if one was asked for, and the session after it. -/
def perform (session : Session) : Step → Except DecodeError (Option Reading) × Session
  | .ask request =>
      match request.read session.cursor with
      | .ok reading cursor => (.ok (some reading), { session with cursor })
      | .error error cursor => (.error error, { session with cursor })
  | .mark => (.ok none, { session with marks := session.cursor :: session.marks })
  | .reset =>
      match session.marks with
      | [] => (.ok none, session)
      | cursor :: marks => (.ok none, { cursor, marks })

/-- The outcome of each step in turn, with the session after it. -/
def run (session : Session) :
    List Step → List (Except DecodeError (Option Reading) × Session)
  | [] => []
  | step :: steps =>
      let outcome := session.perform step
      outcome :: outcome.2.run steps

end Session

end MergedMining
