import SiteServer.Connection.Basic
import SiteServer.Site.Sample

/-!
# A client on the same machine

A client reaches the server over the machine's own network, if that is up.  It sends bytes, ends its
side or goes away, and reads what the server sends, either as it comes or only later; then only a
part of a long answer finds room on the way.
-/

namespace SiteServer.Loopback

/-- Whether the machine reaches its own addresses. -/
inductive Network where
  | reachable
  | unreachable
  deriving DecidableEq, Repr

/-- Why a client cannot connect. -/
inductive NetworkFault where
  | unreachable
  deriving DecidableEq, Repr

/-- The text that reports the fault. -/
def NetworkFault.message : NetworkFault → Text
  | .unreachable => "Network is unreachable (os error 101)".toList

/-- An attempt to connect. -/
def Network.connect : Network → Except NetworkFault Unit
  | .reachable => .ok ()
  | .unreachable => .error .unreachable

/-- The client's end of a connection. -/
structure Client where
  /-- What the client has sent and the server has not read. -/
  unread : Bytes := []
  /-- Whether the client sends no more. -/
  ended : Bool := false
  /-- Whether the client has gone away. -/
  gone : Bool := false
  /-- Whether the client reads whatever comes. -/
  reading : Bool := false
  /-- How many bytes can be on the way to a client that does not read. -/
  room : Nat := 4 * 1024 * 1024
  deriving DecidableEq, Repr

namespace Client

/-- What a read of the server gives. -/
def receipt (client : Client) : Receipt :=
  if client.unread ≠ [] then .data client.unread
  else if client.ended then .data []
  else .wouldBlock

/-- The most bytes that one write of the server hands over. -/
def portion : Nat := 65536

/-- What writes of the server do when an answer with a body of that length is sent: they fail when
the client has gone away, all bytes are taken when it reads, and otherwise what there is room
for. -/
def writes (client : Client) (length : Nat) : List WriteOutcome :=
  if client.gone then [.failed]
  else if client.reading then
    List.replicate (length / FileBody.chunkSize + 16) (.accepted portion)
  else List.replicate (client.room / portion) (.accepted portion)

/-- What the outside does during a step of a connection that sends a body of that length. -/
def turn (client : Client) (length : Nat) : Turn :=
  { receipt := client.receipt, writes := client.writes length, reads := [] }

/-- Whether a connection that waits for the client can go on. -/
def isReady (client : Client) : Interest → Bool
  | .readable => client.unread ≠ [] || client.ended
  | .writable => client.gone || client.reading || portion ≤ client.room

/-- The client after a step of the server has read what it had sent and taken a connection from one
wire to the next. -/
def afterStep (client : Client) (before after : Connection) : Client :=
  let read := before.state = .new ∧ before.hasSocket
  { client with
    unread := if read then client.unread.drop Connection.bufferSize else client.unread
    room := client.room - (after.wire.size - before.wire.size) }

end Client

/-- The length of the body that a connection sends. -/
def bodyLength (connection : Connection) : Nat :=
  (connection.response.map Response.contentLength).getD 0

/-- What a client has received. -/
structure Received where
  /-- The bytes up to the first empty line, and none when there is no empty line. -/
  header : Bytes
  body : Wire
  deriving DecidableEq, Repr

/-- How many bytes there are up to the end of the first empty line. -/
def headerLength? : Bytes → Option Nat
  | 13 :: 10 :: 13 :: 10 :: _ => some 4
  | _ :: rest => (headerLength? rest).map (· + 1)
  | [] => none

/-- The bytes that a client has been sent, as header and body. -/
def Received.ofWire (wire : Wire) : Received :=
  let length := (headerLength? wire.toList).getD 0
  { header := (wire.extract 0 length).toList, body := wire.extract length wire.size }

/-- The calls of the handlers after a step, in which a request may have been read. -/
def callsAfterStep (site : Site Sample) (calls : Calls) (before after : Connection) : Calls :=
  match before.request, after.request with
  | none, some request => Sample.callsAfter site calls request.path
  | _, _ => calls

end SiteServer.Loopback
