import Mathlib.Data.List.Basic
import SiteServer.Connection.Basic

/-!
# Runs of a connection

A connection is moved on again and again, each time in other surroundings and with another turn of
the outside.  `after` is the connection at the end of such a run, and `trace` lists the connection
before each step together with what the step meets, from which everything that happens on the way
can be read off: the results, the attempts to open the body file and the contents that are read.
-/

namespace SiteServer

/-- What a step of a connection meets. -/
structure Moment (H : Type) where
  around : Surroundings H
  turn : Turn

namespace Connection

variable {H : Type}

/-- One step of a connection at some moment. -/
def stepAt (c : Connection) (m : Moment H) : Connection × StepResult :=
  c.step m.around m.turn

/-- The connection after a run. -/
def after (c : Connection) : List (Moment H) → Connection
  | [] => c
  | m :: rest => (c.stepAt m).1.after rest

/-- The connection before each step of a run, with what the step meets. -/
def trace (c : Connection) : List (Moment H) → List (Connection × Moment H)
  | [] => []
  | m :: rest => (c, m) :: (c.stepAt m).1.trace rest

/-- The results of the steps. -/
def results (c : Connection) (run : List (Moment H)) : List StepResult :=
  (c.trace run).map fun (c, m) => (c.stepAt m).2

/-- The attempt to open the body file in a step, if it comes to that: it is made when the last byte
of the header block has been taken. -/
def opening? (c : Connection) (m : Moment H) : Option (Except Fault Nat) :=
  match c.state, c.response with
  | .responseReady, some response =>
    if (deliver (response.header.drop c.headerSent).length m.turn.writes).flow = .complete then
      response.filePath?.map m.around.tree.open?
    else
      none
  | _, _ => none

/-- The body file as it is during a step that sends from it. -/
def streamed? (c : Connection) (m : Moment H) : Option Content :=
  match c.opening? m with
  | some (.ok inode) => some (m.around.tree.content inode)
  | some (.error _) => none
  | none => c.file.map fun body => m.around.tree.content body.inode

/-- The attempts to open the body file. -/
def openings (c : Connection) (run : List (Moment H)) : List (Except Fault Nat) :=
  (c.trace run).filterMap fun (c, m) => c.opening? m

/-- The body file at the steps that send from it. -/
def contents (c : Connection) (run : List (Moment H)) : List Content :=
  (c.trace run).filterMap fun (c, m) => c.streamed? m

section Runs

variable (c : Connection) (m : Moment H) (front rest run : List (Moment H))

lemma after_append : c.after (front ++ rest) = (c.after front).after rest := by
  induction front generalizing c with
  | nil => rfl
  | cons m front ih => exact ih _

lemma trace_append : c.trace (front ++ rest) = c.trace front ++ (c.after front).trace rest := by
  induction front generalizing c with
  | nil => rfl
  | cons m front ih => exact congrArg _ (ih _)

lemma results_append :
    c.results (front ++ rest) = c.results front ++ (c.after front).results rest := by
  simp [results, trace_append]

lemma results_cons : c.results (m :: rest) = (c.stepAt m).2 :: (c.stepAt m).1.results rest := rfl

lemma openings_cons :
    c.openings (m :: rest) = (c.opening? m).toList ++ (c.stepAt m).1.openings rest := by
  cases hopening : c.opening? m with
  | none => simp [openings, trace, hopening]
  | some attempt => simp [openings, trace, hopening]

lemma contents_cons :
    c.contents (m :: rest) = (c.streamed? m).toList ++ (c.stepAt m).1.contents rest := by
  cases hstreamed : c.streamed? m with
  | none => simp [contents, trace, hstreamed]
  | some content => simp [contents, trace, hstreamed]

/-! ### Closed connections -/

lemma after_close : c.close.after run = c.close := by
  induction run with
  | nil => rfl
  | cons m rest ih => exact ih

end Runs

/-! ### The identity of a connection -/

lemma id_respond (around : Surroundings H) (c : Connection) : (c.respond around).1.id = c.id := by
  unfold respond
  split
  · rfl
  · split <;> rfl

lemma id_receive (around : Surroundings H) (receipt : Receipt) (c : Connection) :
    (c.receive around receipt).1.id = c.id := by
  unfold receive
  split
  · cases receipt with
    | data bytes =>
      simp only
      split
      · rfl
      · split
        · rfl
        · split
          · rfl
          · exact id_respond around _
    | _ => rfl
  · rfl

lemma id_afterBody (flow : Flow) (c : Connection) : (c.afterBody flow).1.id = c.id := by
  cases flow <;> rfl

lemma id_sendBody (around : Surroundings H) (reads : List ReadOutcome) (writes : List WriteOutcome)
    (c : Connection) : (c.sendBody around reads writes).1.id = c.id := by
  unfold sendBody
  split
  · split
    · exact id_afterBody _ _
    · exact id_afterBody _ _
    · rfl
  · rfl

lemma id_startBody (around : Surroundings H) (reads : List ReadOutcome)
    (writes : List WriteOutcome) (response : Response) (c : Connection) :
    (c.startBody around reads writes response).1.id = c.id := by
  unfold startBody
  split
  · exact id_sendBody around reads writes _
  · split
    · exact id_sendBody around reads writes _
    · rfl

lemma id_sendHeader (around : Surroundings H) (reads : List ReadOutcome)
    (writes : List WriteOutcome) (c : Connection) :
    (c.sendHeader around reads writes).1.id = c.id := by
  unfold sendHeader
  split
  · simp only
    split
    · rfl
    · rfl
    · exact id_startBody around reads _ _ _
  · rfl

/-- A connection keeps its identity. -/
theorem id_step (around : Surroundings H) (turn : Turn) (c : Connection) :
    (c.step around turn).1.id = c.id := by
  unfold step
  split
  · exact id_receive around turn.receipt c
  · exact id_respond around c
  · exact id_sendHeader around turn.reads turn.writes c
  · exact id_sendBody around turn.reads turn.writes c
  · rfl

/-! ### The client and the socket -/

/-- The client stays the same, and so does the socket when the connection waits. -/
structure Keeps (c : Connection) (out : Connection × StepResult) : Prop where
  peer_eq : out.1.peer = c.peer
  hasSocket_eq : ∀ interest, out.2 = .wait interest → out.1.hasSocket = c.hasSocket

lemma keeps_finish (c : Connection) (closing : Closing) : c.Keeps (c.finish closing) :=
  ⟨rfl, by simp [finish]⟩

lemma keeps_respond (around : Surroundings H) (c : Connection) : c.Keeps (c.respond around) := by
  unfold respond
  split
  · exact keeps_finish c _
  · split
    · exact ⟨rfl, fun _ _ => rfl⟩
    · exact keeps_finish c _
    · exact ⟨rfl, fun _ _ => rfl⟩

lemma keeps_receive (around : Surroundings H) (receipt : Receipt) (c : Connection) :
    c.Keeps (c.receive around receipt) := by
  unfold receive
  split
  · cases receipt with
    | wouldBlock => exact ⟨rfl, fun _ _ => rfl⟩
    | interrupted => exact ⟨rfl, fun _ _ => rfl⟩
    | failed => exact keeps_finish c _
    | data bytes =>
      simp only
      split
      · exact keeps_finish c _
      · split
        · exact keeps_finish c _
        · split
          · exact keeps_finish c _
          · obtain ⟨hpeer, hsocket⟩ := keeps_respond around
              { c with request := some _, state := .requestReady }
            exact ⟨hpeer, hsocket⟩
  · exact keeps_finish c _

lemma keeps_afterBody (flow : Flow) (c : Connection) : c.Keeps (c.afterBody flow) := by
  cases flow with
  | blocked => exact ⟨rfl, fun _ _ => rfl⟩
  | complete => exact keeps_finish c _
  | failed => exact keeps_finish c _

lemma keeps_sendBody (around : Surroundings H) (reads : List ReadOutcome)
    (writes : List WriteOutcome) (c : Connection) : c.Keeps (c.sendBody around reads writes) := by
  unfold sendBody
  split
  · split
    · obtain ⟨hpeer, hsocket⟩ := keeps_afterBody _ { c with dataSent := _, wire := _ }
      exact ⟨hpeer, hsocket⟩
    · obtain ⟨hpeer, hsocket⟩ := keeps_afterBody _ { c with file := _, wire := _ }
      exact ⟨hpeer, hsocket⟩
    · exact keeps_finish c _
  · exact keeps_finish c _

lemma keeps_startBody (around : Surroundings H) (reads : List ReadOutcome)
    (writes : List WriteOutcome) (response : Response) (c : Connection) :
    c.Keeps (c.startBody around reads writes response) := by
  unfold startBody
  split
  · obtain ⟨hpeer, hsocket⟩ :=
      keeps_sendBody around reads writes { c with file := none, state := .sending }
    exact ⟨hpeer, hsocket⟩
  · split
    · obtain ⟨hpeer, hsocket⟩ :=
        keeps_sendBody around reads writes { c with file := some _, state := .sending }
      exact ⟨hpeer, hsocket⟩
    · exact keeps_finish c _

lemma keeps_sendHeader (around : Surroundings H) (reads : List ReadOutcome)
    (writes : List WriteOutcome) (c : Connection) :
    c.Keeps (c.sendHeader around reads writes) := by
  unfold sendHeader
  split
  · simp only
    split
    · exact ⟨rfl, fun _ _ => rfl⟩
    · exact ⟨rfl, by simp [finish]⟩
    · obtain ⟨hpeer, hsocket⟩ :=
        keeps_startBody around reads _ _ { c with headerSent := _, wire := _ }
      exact ⟨hpeer, hsocket⟩
  · exact keeps_finish c _

/-- A connection keeps its client, and its socket while it waits. -/
theorem keeps_step (around : Surroundings H) (turn : Turn) (c : Connection) :
    c.Keeps (c.step around turn) := by
  unfold step
  split
  · exact keeps_receive around turn.receipt c
  · exact keeps_respond around c
  · exact keeps_sendHeader around turn.reads turn.writes c
  · exact keeps_sendBody around turn.reads turn.writes c
  · exact ⟨rfl, by simp⟩

end Connection

end SiteServer
