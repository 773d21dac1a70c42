import SiteServer.Loopback.Client
import SiteServer.Server.Config
import SiteServer.Server.EventLoop

/-!
# A server and its clients

A whole server with clients on the same machine.  Commands let clients connect, send, read and go
away; after each of them everything moves until nothing can move any more, always what comes first
in a fixed order: the threads of the pool, the jobs, the loop, and then a poll.
-/

namespace SiteServer.Loopback

/-- What is done to a server and its clients. -/
inductive Traffic.Command where
  | countListeners
  /-- A client connects to a listener, sends a request and reads to the end. -/
  | request (bytes : Bytes) (listener : Nat)
  /-- As many clients as there are requests do so on the first listener at once. -/
  | concurrent (requests : List Bytes)
  /-- A client connects to a listener and is kept under a key. -/
  | connect (key listener : Nat)
  | send (key : Nat) (bytes : Bytes)
  /-- The client with that key reads to the end. -/
  | receive (key : Nat)
  /-- The client with that key goes away. -/
  | leave (key : Nat)
  | countConnections
  | shutdown
  deriving DecidableEq, Repr

/-- What is seen after a command. -/
inductive Traffic.Sight where
  | nothing
  | number (count : Nat)
  | received (received : Received)
  | receivedByEach (received : List Received)
  deriving DecidableEq, Repr

/-- Whether a client has to reach the server for the command. -/
def Traffic.Command.connects : Traffic.Command → Bool
  | .request _ _ | .connect _ _ => true
  | .concurrent requests => !requests.isEmpty
  | .countListeners | .send _ _ | .receive _ | .leave _ | .countConnections | .shutdown => false

/-- A server, the clients in the order in which they came, and what is answered from. -/
structure Traffic where
  server : Server
  clients : List Client := []
  /-- The keys of clients that are kept, and their places among the clients. -/
  keys : List (Nat × Nat) := []
  site : Site Sample
  date : Text
  tree : Tree
  calls : Calls := .none

namespace Traffic

/-- What connections answer from. -/
def around (x : Traffic) : Surroundings Sample :=
  { site := x.site, ask := fun sample => sample.reply (x.calls sample.key), date := x.date
    tree := x.tree }

/-- The client at the other end of a connection. -/
def clientOf (x : Traffic) (connection : Connection) : Client :=
  x.clients[connection.peer]?.getD {}

/-- Whether a registered connection can go on. -/
def isReady (x : Traffic) (id : SlotId) (interest : Interest) : Bool :=
  match x.server.slots.state? id with
  | some (.parked connection) => (x.clientOf connection).isReady interest
  | _ => false

/-- Whether somebody has woken the loop: a job has reported, or the server has been asked to
stop. -/
def isWoken (server : Server) : Bool :=
  !server.completions.isEmpty || server.stopRequested

/-- The tokens of all that a poll reports now. -/
def readyTokens (x : Traffic) : List Nat :=
  let wakes := if isWoken x.server then [Token.waker] else []
  let listeners := (List.range x.server.listeners).filter fun listener =>
    (x.server.nextWaiting? listener).isSome
  let connections := x.server.watched.filter fun (id, interest) => x.isReady id interest
  wakes ++ listeners.map Token.listener ++ connections.map fun (id, _) => id.token

/-- The moves that end or continue the job of a worker. -/
def jobMoves (x : Traffic) (worker : Nat) : List ServerMove :=
  match x.server.stepping? worker with
  | some connection => [.step worker ((x.clientOf connection).turn (bodyLength connection))]
  | none => [.accept worker, .acceptEnd worker]

/-- The moves that are tried, in this order. -/
def candidates (x : Traffic) : List ServerMove :=
  let workers := List.range x.server.pool.workers.length
  let threads := (.raise :: .controller :: workers.map .worker).map ServerMove.pool
  let polls := match x.readyTokens with
    | [] => []
    | tokens => [ServerMove.poll tokens]
  threads ++ workers.flatMap x.jobMoves ++ .loop true :: polls

/-- The connection that the last job to report has moved on. -/
def lastMoved? (server : Server) : Option Connection :=
  match server.completions.getLast? with
  | some (.stepped connection _) => some connection
  | some (.closed _) => server.ended.getLast?
  | _ => none

/-- The traffic after a move has led to another server. -/
def afterMove (x : Traffic) (move : ServerMove) (server : Server) : Traffic :=
  match move with
  | .step worker _ =>
    match x.server.stepping? worker, lastMoved? server with
    | some before, some after =>
      { x with
        server
        clients := x.clients.modify before.peer fun client => client.afterStep before after
        calls := callsAfterStep x.site x.calls before after }
    | _, _ => { x with server }
  | _ => { x with server }

/-- The traffic after the first move that can be made. -/
def advance? (x : Traffic) : Option Traffic :=
  x.candidates.findSome? fun move => (x.server.move? x.around move).map (x.afterMove move)

/-- The traffic after at most `fuel` moves. -/
def advance : Nat → Traffic → Traffic
  | 0, x => x
  | fuel + 1, x =>
    match x.advance? with
    | none => x
    | some next => advance fuel next

/-- More moves than there can be before everything rests: each client costs a few jobs, and each
job a few moves and one look at every worker. -/
def fuel (x : Traffic) : Nat :=
  1000 * (x.clients.length + 4) * (x.server.pool.workers.length + 4)

/-- The traffic when nothing can move any more. -/
def settle (x : Traffic) : Traffic :=
  advance x.fuel x

/-- A server that has just started, without clients. -/
def start (config : Config Sample) (date : Text) (tree : Tree) : Traffic :=
  settle
    { server := .start config.endpoints.length config.workers config.connectionLimit
      site := config.site, date, tree }

/-- The traffic after a move from outside. -/
def disturb (x : Traffic) (move : ServerMove) : Traffic :=
  match x.server.move? x.around move with
  | some server => { x with server }
  | none => x

/-- The traffic with one more client. -/
def arrive (x : Traffic) (listener : Nat) (client : Client) : Traffic :=
  { x with clients := x.clients ++ [client] }.disturb (.arrive listener x.clients.length)

/-- The traffic with the client under a key changed. -/
def updateClient (x : Traffic) (key : Nat) (f : Client → Client) : Traffic :=
  match x.keys.lookup key with
  | some peer => { x with clients := x.clients.modify peer f }
  | none => x

/-- What the client at a place has received before its connection was closed. -/
def received (x : Traffic) (peer : Nat) : Received :=
  .ofWire (((x.server.ended.find? (·.peer = peer)).map Connection.wire).getD #[])

/-- A client that sends a request and reads the answer. -/
def asking (request : Bytes) : Client :=
  { unread := request, reading := true }

/-- The traffic after a command, and what is seen then. -/
def run (x : Traffic) : Command → Traffic × Sight
  | .countListeners => (x, .number x.server.listeners)
  | .request bytes listener =>
    let next := (x.arrive listener (asking bytes)).settle
    (next, .received (next.received x.clients.length))
  | .concurrent requests =>
    let next := (requests.foldl (fun x bytes => x.arrive 0 (asking bytes)) x).settle
    let places := (List.range requests.length).map (x.clients.length + ·)
    (next, .receivedByEach (places.map next.received))
  | .connect key listener =>
    let next := { x with keys := (key, x.clients.length) :: x.keys }.arrive listener {}
    (next.settle, .nothing)
  | .send key bytes =>
    let next := x.updateClient key fun client => { client with unread := client.unread ++ bytes }
    (next.settle, .nothing)
  | .receive key =>
    let next := (x.updateClient key fun client => { client with reading := true }).settle
    (next, ((x.keys.lookup key).map fun peer => .received (next.received peer)).getD .nothing)
  | .leave key =>
    let next := x.updateClient key fun client => { client with ended := true, gone := true }
    (next.settle, .nothing)
  | .countConnections => (x, .number x.server.connectionCount)
  | .shutdown => ((x.disturb .requestStop).settle, .nothing)

/-- What is seen after each of a list of commands, if every client that has to can connect. -/
def sights (network : Network) (x : Traffic) : List Command → Except NetworkFault (List Sight)
  | [] => .ok []
  | command :: rest =>
    match if command.connects then network.connect else .ok () with
    | .error fault => .error fault
    | .ok () =>
      let (next, sight) := x.run command
      (next.sights network rest).map (sight :: ·)

end Traffic

end SiteServer.Loopback
