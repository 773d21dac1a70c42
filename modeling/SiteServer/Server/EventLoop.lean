import SiteServer.Connection.Basic
import SiteServer.Pool.Threads
import SiteServer.Server.Token
import SiteServer.Slot.Table

/-!
# The event loop

One thread owns the slot table and waits for poll events.  An event on a listener makes it submit a
job that accepts whatever is waiting there; an event on a connection makes it take the connection
out of its slot, unregister the socket and submit a job that moves the connection one step on.
Jobs report back through a channel: a socket that was accepted gets a slot, a connection that waits
is registered and parked again, and a connection that has been closed gives its slot back.

As in the pool, everything is described move by move.  What happens outside, which events a poll
brings, what clients and sockets do, and whether a socket can be registered, is part of the moves,
so that a list of moves is a way in which things can go.
-/

namespace SiteServer

/-- A job of the server. -/
inductive Work where
  /-- Accept what is waiting on a listener. -/
  | accept (listener : Nat)
  /-- Move a connection one step on. -/
  | step (connection : Connection)
  deriving DecidableEq, Repr

/-- What a job reports back. -/
inductive Completion where
  | accepted (peer : Nat)
  /-- The listener has to be tried again. -/
  | acceptAgain (listener : Nat)
  /-- The connection waits. -/
  | stepped (connection : Connection) (interest : Interest)
  /-- The connection with that identity has been closed. -/
  | closed (id : SlotId)
  deriving DecidableEq, Repr

/-- Where the thread of the event loop stands. -/
inductive LoopPhase where
  /-- It is about to look whether it has been told to stop. -/
  | checking
  /-- It waits for events. -/
  | polling
  /-- It goes through the events that a poll has brought. -/
  | handling (tokens : List Nat)
  /-- It goes through what jobs have reported. -/
  | draining
  /-- It is about to publish the number of connections. -/
  | publishing
  /-- It shuts the pool down. -/
  | stopping
  /-- It closes what is left. -/
  | closing
  | stopped
  deriving DecidableEq, Repr

/-- A server and all that is in its hands. -/
structure Server where
  /-- The number of listening sockets. -/
  listeners : Nat
  slots : SlotTable Connection
  pool : Pool Work
  /-- What jobs have reported and the loop has not seen, the oldest first. -/
  completions : List Completion := []
  /-- The connections whose sockets are registered for poll events. -/
  watched : List (SlotId × Interest) := []
  /-- The clients that nobody has accepted yet, with the listener they wait on. -/
  waiting : List (Nat × Nat) := []
  phase : LoopPhase := .checking
  /-- Whether the loop has been told to stop. -/
  stopRequested : Bool := false
  /-- The published number of connections. -/
  connectionCount : Nat := 0
  /-- Connections that have been closed. -/
  ended : List Connection := []
  /-- Clients whose socket was closed without a connection. -/
  refused : List Nat := []
  deriving DecidableEq, Repr

/-- A move of one of the threads or of the world outside. -/
inductive ServerMove where
  /-- A client connects to a listener. -/
  | arrive (listener peer : Nat)
  /-- A thread of the pool makes a move between jobs. -/
  | pool (move : PoolMove Work)
  /-- An accepting job takes the next client. -/
  | accept (worker : Nat)
  /-- An accepting job finds nobody waiting and ends. -/
  | acceptEnd (worker : Nat)
  /-- An accepting job cannot accept for now and ends. -/
  | acceptRetry (worker : Nat)
  /-- A job moves its connection on, and ends. -/
  | step (worker : Nat) (turn : Turn)
  /-- A poll brings events. -/
  | poll (tokens : List Nat)
  /-- The loop goes on; `registers` says whether a socket can be registered now. -/
  | loop (registers : Bool)
  /-- Somebody asks the server to stop. -/
  | requestStop
  deriving DecidableEq, Repr

namespace Server

/-- A server whose threads are about to start. -/
def start (listeners workers connectionLimit : Nat) : Server :=
  { listeners, slots := .withCapacity connectionLimit, pool := .start workers }

/-! ## The jobs -/

/-- The server after the job of a worker has ended. -/
def finishJob? (server : Server) (worker : Nat) : Option Server :=
  (server.pool.move? (.finish worker .normal)).map fun pool => { server with pool }

/-- The server after a job has reported something. -/
def complete (server : Server) (completion : Completion) : Server :=
  { server with completions := server.completions ++ [completion] }

/-- The listener that the job of a worker accepts from. -/
def accepting? (server : Server) (worker : Nat) : Option Nat :=
  match server.pool.running? worker with
  | some (.accept listener) => some listener
  | _ => none

/-- The connection that the job of a worker moves on. -/
def stepping? (server : Server) (worker : Nat) : Option Connection :=
  match server.pool.running? worker with
  | some (.step connection) => some connection
  | _ => none

/-- The first client that waits on a listener. -/
def nextWaiting? (server : Server) (listener : Nat) : Option Nat :=
  (server.waiting.find? (·.1 = listener)).map Prod.snd

/-- The server after an accepting job has taken the next client. -/
def accept? (server : Server) (worker : Nat) : Option Server :=
  match server.accepting? worker with
  | none => none
  | some listener =>
    (server.nextWaiting? listener).map fun peer =>
      { server with waiting := server.waiting.erase (listener, peer) }.complete (.accepted peer)

/-- The server after a job has moved its connection on: the connection is reported as waiting, or
closed and its identity reported.  A handler that breaks down closes its connection, too. -/
def step? {H : Type} (around : Surroundings H) (server : Server) (worker : Nat) (turn : Turn) :
    Option Server :=
  match server.stepping? worker with
  | none => none
  | some connection =>
    match connection.step around turn with
    | (after, .wait interest) => (server.complete (.stepped after interest)).finishJob? worker
    | (after, _) =>
      let closed := after.close
      ({ server with ended := server.ended ++ [closed] }.complete (.closed closed.id)).finishJob?
        worker

/-! ## The loop -/

/-- The server after the loop has submitted a job. -/
def submit (server : Server) (work : Work) : Server :=
  { server with pool := (server.pool.move? (.push work)).getD server.pool }

/-- The server after a connection has been closed by the loop. -/
def bury (server : Server) (connection : Connection) : Server :=
  { server with ended := server.ended ++ [connection.close] }

/-- The server after an event on a connection; one that is not parked ignores it. -/
def dispatch (server : Server) (id : SlotId) : Server :=
  match server.slots.take id with
  | none => server
  | some (connection, slots) =>
    { server with slots, watched := server.watched.filter (·.1 ≠ id) }.submit (.step connection)

/-- The server after an event. -/
def handle (server : Server) (token : Nat) : Server :=
  if token = Token.waker then server
  else
    match Token.listenerIndex? token server.listeners with
    | some index => server.submit (.accept index)
    | none =>
      match SlotId.ofToken? token with
      | some id => server.dispatch id
      | none => server

/-- The server after the loop has registered a connection and parked it; one that cannot be
registered is closed, and its slot is freed. -/
def watch (server : Server) (registers : Bool) (id : SlotId) (connection : Connection)
    (interest : Interest) : Server :=
  if connection.hasSocket && registers then
    match server.slots.park id connection with
    | some slots => { server with slots, watched := server.watched ++ [(id, interest)] }
    | none => server.bury connection
  else
    { server with slots := (server.slots.release id).2 }.bury connection

/-- The server after an accepted client has been given a slot, or been turned away when there is
none. -/
def welcome (server : Server) (registers : Bool) (peer : Nat) : Server :=
  match server.slots.insert fun id => { id, peer } with
  | none => { server with refused := server.refused ++ [peer] }
  | some (id, slots) =>
    match slots.take id with
    | none => { server with slots }
    | some (connection, slots) =>
      { server with slots }.watch registers id connection .readable

/-- The server after the loop has seen what a job reported. -/
def process (server : Server) (registers : Bool) : Completion → Server
  | .accepted peer => server.welcome registers peer
  | .acceptAgain listener => server.submit (.accept listener)
  | .stepped connection interest => server.watch registers connection.id connection interest
  | .closed id => { server with slots := (server.slots.release id).2 }

/-- The connections that are dropped together with the pool: those of jobs that were thrown away
and of jobs that no worker came to take. -/
def abandoned (server : Server) : List Connection :=
  let works := server.pool.log.filterMap (fun
      | .dropped work => some work
      | _ => none)
    ++ server.pool.workers.filterMap Worker.job
  works.filterMap fun
    | .step connection => some connection
    | .accept _ => none

/-- The server after it has closed everything that was left. -/
def closeAll (server : Server) : Server :=
  let (parked, slots) := server.slots.drain
  { server with
    slots
    watched := []
    ended := server.ended ++ (parked ++ server.abandoned).map Connection.close
    connectionCount := 0
    phase := .stopped }

/-- The server after one thing left in the channel has been closed. -/
def discard (server : Server) : Completion → Server
  | .accepted peer => { server with refused := server.refused ++ [peer] }
  | .stepped connection _ => server.bury connection
  | .acceptAgain _ => server
  | .closed _ => server

/-- The next move of the loop's thread. -/
def loop? (server : Server) (registers : Bool) : Option Server :=
  match server.phase with
  | .checking =>
    some { server with phase := if server.stopRequested then .stopping else .polling }
  | .polling => none
  | .handling [] => some { server with phase := .draining }
  | .handling (token :: rest) => some ({ server with phase := .handling rest }.handle token)
  | .draining =>
    match server.completions with
    | [] => some { server with phase := .publishing }
    | completion :: rest =>
      some ({ server with completions := rest }.process registers completion)
  | .publishing => some { server with phase := .checking, connectionCount := server.slots.size }
  | .stopping =>
    (server.pool.move? .shutdown).map fun pool =>
      { server with pool, phase := if pool.shutdown = .idle then .closing else .stopping }
  | .closing =>
    match server.completions with
    | [] => some server.closeAll
    | completion :: rest => some ({ server with completions := rest }.discard completion)
  | .stopped => none

/-- Whether a move of the pool is one that its threads make by themselves. -/
def isInternal : PoolMove Work → Bool
  | .raise | .controller | .worker _ => true
  | .push _ | .finish _ _ | .shutdown => false

/-- The server after a move, if it can be made. -/
def move? {H : Type} (around : Surroundings H) (server : Server) : ServerMove → Option Server
  | .arrive listener peer =>
    if listener < server.listeners ∧ server.phase ≠ .stopped then
      some { server with waiting := server.waiting ++ [(listener, peer)] }
    else
      none
  | .pool move =>
    if isInternal move then (server.pool.move? move).map fun pool => { server with pool } else none
  | .accept worker => server.accept? worker
  | .acceptEnd worker =>
    match server.accepting? worker with
    | none => none
    | some listener =>
      if (server.nextWaiting? listener).isNone then server.finishJob? worker else none
  | .acceptRetry worker =>
    match server.accepting? worker with
    | none => none
    | some listener => (server.complete (.acceptAgain listener)).finishJob? worker
  | .step worker turn => server.step? around worker turn
  | .poll tokens =>
    if server.phase = .polling then
      some { server with phase := .handling tokens }
    else
      none
  | .loop registers => server.loop? registers
  | .requestStop => some { server with stopRequested := true }

/-! ## Runs -/

/-- What is kept of a run: what stands there before the first move, and what a move adds. -/
structure Journal (H σ : Type) where
  blank : σ
  /-- What is kept after a move of a server to the next one, made in some surroundings. -/
  enter : Surroundings H → (server next : Server) → ServerMove → σ → σ

/-- How a server goes on, and what is kept of it.  The surroundings are others at every move, for
the clock goes on, and files, their contents and handlers come and go. -/
inductive Run {H σ : Type} (journal : Journal H σ) (first : Server) : σ → Server → Prop where
  | start : Run journal first journal.blank first
  | step {kept : σ} {server next : Server} (around : Surroundings H) {move : ServerMove} :
      Run journal first kept server → server.move? around move = some next →
      Run journal first (journal.enter around server next move kept) next

/-- The journal in which nothing is kept. -/
def Journal.none (H : Type) : Journal H Unit where
  blank := ()
  enter _ _ _ _ _ := ()

/-- The servers that a new one can come to. -/
def Reachable (H : Type) (listeners workers connectionLimit : Nat) (server : Server) : Prop :=
  Run (.none H) (.start listeners workers connectionLimit) () server

end Server

end SiteServer
