import SiteServer.Connection.Outcome
import SiteServer.Storage.Content

/-!
# Streaming a file

A body that lies in a file is sent in chunks.  A chunk is read when the one before has been taken
completely; when the socket takes no more, the place in the chunk is kept for the next step.
-/

namespace SiteServer

/-- A body file that is being sent. -/
structure FileBody where
  /-- The number of the content that the open file refers to. -/
  inode : Nat
  /-- The bytes read last. -/
  chunk : Bytes := []
  /-- How many of them have been taken. -/
  position : Nat := 0
  /-- How many bytes have been read in all. -/
  read : Nat := 0
  deriving DecidableEq, Repr

/-- The bytes that a client has been sent. -/
abbrev Wire := Array UInt8

/-- What an attempt to send a body file comes to. -/
structure Streamed where
  body : FileBody
  wire : Wire
  flow : Flow
  deriving DecidableEq, Repr

namespace FileBody

/-- The most bytes of a chunk. -/
def chunkSize : Nat := 4096

/-- The bytes of the chunk that have not been taken. -/
def pending (body : FileBody) : Bytes :=
  body.chunk.drop body.position

/-- The body after `count` more bytes of the chunk have been taken. -/
def advance (body : FileBody) (count : Nat) : FileBody :=
  { body with position := body.position + count }

/-- How many bytes the next read gives at most. -/
def readLimit : List ReadOutcome → Nat
  | .upTo limit :: _ => limit
  | _ => chunkSize

/-- The next chunk of a content, of which `length` bytes are to be sent, when the read gives at
most `limit` bytes. -/
def nextChunk (body : FileBody) (content : Content) (length limit : Nat) : Bytes :=
  content.slice body.read (min (min (length - body.read) chunkSize) limit)

/-- The body with a chunk that has just been read. -/
def refill (body : FileBody) (chunk : Bytes) : FileBody :=
  { body with chunk, position := 0, read := body.read + chunk.length }

theorem read_advance_refill (body : FileBody) (chunk : Bytes) (count : Nat) :
    ((body.refill chunk).advance count).read = body.read + chunk.length := rfl

/-- Reading and sending chunk after chunk, when the last one has been taken.  A read that gives
nothing means that the file is shorter than announced. -/
def pump (content : Content) (length : Nat) (body : FileBody) (wire : Wire)
    (reads : List ReadOutcome) (writes : List WriteOutcome) : Streamed :=
  if length ≤ body.read then
    ⟨body, wire, .complete⟩
  else
    match reads with
    | .failed :: _ => ⟨body, wire, .failed⟩
    | .interrupted :: rest => pump content length body wire rest writes
    | reads =>
      let chunk := body.nextChunk content length (readLimit reads)
      if chunk = [] then
        ⟨body, wire, .failed⟩
      else
        let delivery := deliver chunk.length writes
        let next := (body.refill chunk).advance delivery.count
        let wire := wire ++ chunk.take delivery.count
        match delivery.flow with
        | .complete => pump content length next wire reads.tail delivery.writes
        | flow => ⟨next, wire, flow⟩
termination_by (length - body.read) + reads.length
decreasing_by
  · simp
  · have : 0 < (body.nextChunk content length (readLimit reads)).length :=
      List.length_pos_iff.2 ‹_›
    simp only [read_advance_refill, List.length_tail]
    omega

/-- Sending a body file until `length` bytes have been sent or the socket takes no more. -/
def send (body : FileBody) (content : Content) (length : Nat) (wire : Wire)
    (reads : List ReadOutcome) (writes : List WriteOutcome) : Streamed :=
  let delivery := deliver body.pending.length writes
  let next := body.advance delivery.count
  let wire := wire ++ body.pending.take delivery.count
  match delivery.flow with
  | .complete => pump content length next wire reads delivery.writes
  | flow => ⟨next, wire, flow⟩

end FileBody

end SiteServer
