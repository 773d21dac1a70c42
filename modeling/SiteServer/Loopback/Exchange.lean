import SiteServer.Loopback.Client
import SiteServer.Storage.Build

/-!
# One connection driven by hand

A single connection with its client at the other end.  Commands say what the client does, when the
connection makes a step and how the files change in between.
-/

namespace SiteServer.Loopback

/-- What is done to a connection, to its client or to the files. -/
inductive Command where
  | send (bytes : Bytes)
  /-- The client sends no more. -/
  | endSending
  /-- The client goes away. -/
  | leave
  /-- The connection makes a step while the client does not read. -/
  | step
  /-- The client reads to the end. -/
  | receive
  /-- The connection makes steps until it is done while the client reads. -/
  | drive
  | close
  | writeFile (path : Text) (content : Content)
  | remove (path : Text)
  | makeDirectory (path : Text)
  | resizeFile (path : Text) (size : Nat)

/-- What is seen after a command. -/
inductive Sight where
  | nothing
  | stepped (result : StepResult) (state : ConnectionState) (hasSocket : Bool)
  | received (received : Received)
  | driven (result : StepResult) (received : Received)
  | closed (state : ConnectionState) (hasSocket : Bool)
  deriving DecidableEq, Repr

/-- A connection and everything around it. -/
structure Exchange where
  connection : Connection := { id := ⟨0, 0⟩, peer := 0 }
  client : Client := {}
  site : Site Sample
  date : Text
  tree : Tree
  calls : Calls := .none
  /-- The directory that the paths of commands start at. -/
  base : Text
  /-- The time at which files are written. -/
  clock : Int

namespace Exchange

/-- What the connection answers from. -/
def around (x : Exchange) : Surroundings Sample :=
  { site := x.site, ask := fun sample => sample.reply (x.calls sample.key), date := x.date
    tree := x.tree }

/-- The exchange after a step of the connection. -/
def step (x : Exchange) : Exchange × StepResult :=
  let (after, result) := x.connection.step x.around (x.client.turn (bodyLength x.connection))
  ({ x with
     connection := after
     client := x.client.afterStep x.connection after
     calls := callsAfterStep x.site x.calls x.connection after }, result)

/-- The exchange after steps until the connection is done, at most `fuel` and one. -/
def drive : Nat → Exchange → Exchange × StepResult
  | 0, x => x.step
  | fuel + 1, x =>
    match x.step with
    | (x, .wait _) => drive fuel x
    | last => last

/-- More steps than an exchange has whose client has sent its request: one to read it and one to
send the answer. -/
def stepLimit : Nat := 16

/-- The exchange after a change of the files; one that cannot be made changes nothing. -/
def afterChange (x : Exchange) : Except Fault Tree → Exchange
  | .ok tree => { x with tree }
  | .error _ => x

/-- The exchange after a command, and what is seen then. -/
def run (x : Exchange) : Command → Exchange × Sight
  | .send bytes => ({ x with client.unread := x.client.unread ++ bytes }, .nothing)
  | .endSending => ({ x with client.ended := true }, .nothing)
  | .leave => ({ x with client.ended := true, client.gone := true }, .nothing)
  | .step =>
    let (x, result) := x.step
    (x, .stepped result x.connection.state x.connection.hasSocket)
  | .receive => (x, .received (.ofWire x.connection.wire))
  | .drive =>
    let (x, result) := drive stepLimit { x with client.reading := true }
    (x, .driven result (.ofWire x.connection.wire))
  | .close =>
    let x := { x with connection := x.connection.close }
    (x, .closed x.connection.state x.connection.hasSocket)
  | .writeFile path content =>
    (x.afterChange (x.tree.writeFile x.clock (Path.join x.base path) content), .nothing)
  | .remove path => (x.afterChange (x.tree.remove (Path.join x.base path)), .nothing)
  | .makeDirectory path =>
    (x.afterChange (x.tree.makeDirectories x.clock (Path.join x.base path)), .nothing)
  | .resizeFile path size =>
    (x.afterChange (x.tree.resizeFile (Path.join x.base path) size), .nothing)

/-- What is seen after each of a list of commands. -/
def sights (x : Exchange) : List Command → List Sight
  | [] => []
  | command :: rest =>
    let (next, sight) := x.run command
    sight :: next.sights rest

/-- The sights of an exchange, for which the client has to connect first. -/
def overNetwork (network : Network) (x : Exchange) (commands : List Command) :
    Except NetworkFault (List Sight) :=
  match network.connect with
  | .error fault => .error fault
  | .ok () => .ok (x.sights commands)

end Exchange

end SiteServer.Loopback
