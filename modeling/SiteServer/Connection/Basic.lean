import SiteServer.Connection.FileBody
import SiteServer.Http.Request
import SiteServer.Site.Answer
import SiteServer.Slot.Id

/-!
# Connections

A connection carries one exchange: it reads a request with a single read, sends the header block of
the answer and then its body, and closes.  It is moved on step by step, and a step goes as far as
the socket lets it.  Everything the socket has taken is kept as the connection's wire.
-/

namespace SiteServer

/-- The states of a connection, in the order in which it goes through them. -/
inductive ConnectionState where
  /-- The request has not been read. -/
  | new
  /-- The request has been read and is about to be answered. -/
  | requestReady
  /-- The answer is known, and its header block has not been sent completely. -/
  | responseReady
  /-- The header block has been sent, and the body is being sent. -/
  | sending
  /-- The connection is closed. -/
  | terminated
  deriving DecidableEq, Repr

/-- What a connection waits for. -/
inductive Interest where
  | readable
  | writable
  deriving DecidableEq, Repr

/-- Why a connection has been closed by a step. -/
inductive Closing where
  /-- The answer has been sent completely. -/
  | sent
  /-- The client ended the stream before it sent a request. -/
  | noRequestSent
  /-- The request fills the receive buffer. -/
  | oversized
  | rejected (error : RequestError)
  | unanswered (fault : Fault)
  | receiveFailed
  | sendFailed
  /-- The body file cannot be opened. -/
  | bodyNotOpened (fault : Fault)
  /-- The socket has been given up before. -/
  | socketGone
  | requestMissing
  | responseMissing
  | bodyMissing
  /-- The connection was closed before. -/
  | alreadyClosed
  deriving DecidableEq, Repr

/-- What a step comes to. -/
inductive StepResult where
  | wait (interest : Interest)
  | done (closing : Closing)
  /-- The handler broke down in the middle of the step. -/
  | panicked
  deriving DecidableEq, Repr

/-- An exchange with one client. -/
structure Connection where
  id : SlotId
  /-- The client at the other end. -/
  peer : Nat
  state : ConnectionState := .new
  /-- Whether the socket is still held. -/
  hasSocket : Bool := true
  request : Option Request := none
  response : Option Response := none
  /-- How many bytes of the header block have been taken. -/
  headerSent : Nat := 0
  /-- How many bytes of a body at hand have been taken. -/
  dataSent : Nat := 0
  /-- The body file that is being sent. -/
  file : Option FileBody := none
  /-- The bytes that the socket has taken. -/
  wire : Wire := #[]
  deriving DecidableEq, Repr

/-- What requests are answered from at some moment: the site, its handlers, the date and the
files. -/
structure Surroundings (H : Type) where
  site : Site H
  ask : H → Handler
  date : Text
  tree : Tree

namespace Connection

variable {H : Type}

/-- The bytes that one read takes at most; a request has to be shorter. -/
def bufferSize : Nat := 1024

/-- The connection with its socket and its body file given up. -/
def close (c : Connection) : Connection :=
  { c with state := .terminated, file := none, hasSocket := false }

/-- The connection closed by a step. -/
def finish (c : Connection) (closing : Closing) : Connection × StepResult :=
  (c.close, .done closing)

/-- Answering the request. -/
def respond (around : Surroundings H) (c : Connection) : Connection × StepResult :=
  match c.request with
  | none => c.finish .requestMissing
  | some request =>
    match around.site.answer around.ask around.date around.tree request.path request.params with
    | .ok response =>
      ({ c with response := some response, state := .responseReady }, .wait .writable)
    | .error (.listing fault) => c.finish (.unanswered fault)
    | .error .panic => (c, .panicked)

/-- Reading the request and answering it. -/
def receive (around : Surroundings H) (receipt : Receipt) (c : Connection) :
    Connection × StepResult :=
  if c.hasSocket then
    match receipt with
    | .wouldBlock | .interrupted => (c, .wait .readable)
    | .failed => c.finish .receiveFailed
    | .data bytes =>
      let read := bytes.take bufferSize
      if read = [] then c.finish .noRequestSent
      else if read.length = bufferSize then c.finish .oversized
      else
        match Request.parse read with
        | .error error => c.finish (.rejected error)
        | .ok request => respond around { c with request := some request, state := .requestReady }
  else
    c.finish .socketGone

/-- The step's end after an attempt to send the body. -/
def afterBody (flow : Flow) (c : Connection) : Connection × StepResult :=
  match flow with
  | .complete => c.finish .sent
  | .blocked => (c, .wait .writable)
  | .failed => c.finish .sendFailed

/-- Sending what is left of the body. -/
def sendBody (around : Surroundings H) (reads : List ReadOutcome) (writes : List WriteOutcome)
    (c : Connection) : Connection × StepResult :=
  match c.hasSocket, c.response with
  | true, some response =>
    match response.body, c.file with
    | .data bytes, _ =>
      let left := bytes.drop c.dataSent
      let delivery := deliver left.length writes
      afterBody delivery.flow
        { c with
          dataSent := c.dataSent + delivery.count
          wire := c.wire ++ left.take delivery.count }
    | .file _ length, some body =>
      let streamed := body.send (around.tree.content body.inode) length c.wire reads writes
      afterBody streamed.flow { c with file := some streamed.body, wire := streamed.wire }
    | .file _ _, none => c.finish .bodyMissing
  | _, _ => c.finish .responseMissing

/-- Opening the body file, if there is one, and sending the body. -/
def startBody (around : Surroundings H) (reads : List ReadOutcome) (writes : List WriteOutcome)
    (response : Response) (c : Connection) : Connection × StepResult :=
  match response.filePath? with
  | none => sendBody around reads writes { c with file := none, state := .sending }
  | some path =>
    match around.tree.open? path with
    | .ok inode => sendBody around reads writes { c with file := some { inode }, state := .sending }
    | .error fault => c.finish (.bodyNotOpened fault)

/-- Sending what is left of the header block, and then the body. -/
def sendHeader (around : Surroundings H) (reads : List ReadOutcome) (writes : List WriteOutcome)
    (c : Connection) : Connection × StepResult :=
  match c.hasSocket, c.response with
  | true, some response =>
    let left := response.header.drop c.headerSent
    let delivery := deliver left.length writes
    let c := { c with
      headerSent := c.headerSent + delivery.count
      wire := c.wire ++ left.take delivery.count }
    match delivery.flow with
    | .blocked => (c, .wait .writable)
    | .failed => c.finish .sendFailed
    | .complete => startBody around reads delivery.writes response c
  | _, _ => c.finish .responseMissing

/-- One step of a connection. -/
def step (around : Surroundings H) (turn : Turn) (c : Connection) : Connection × StepResult :=
  match c.state with
  | .new => receive around turn.receipt c
  | .requestReady => respond around c
  | .responseReady => sendHeader around turn.reads turn.writes c
  | .sending => sendBody around turn.reads turn.writes c
  | .terminated => (c, .done .alreadyClosed)

@[simp] theorem wire_close (c : Connection) : c.close.wire = c.wire := rfl

end Connection

end SiteServer
