import SiteServer.Proofs.Connection.Run

/-!
# Nothing is sent before there is an answer

A connection writes to its socket when it has a response, and not before (`Unsent`).  So a step in
which the handler breaks down has written nothing, and neither have the steps before it
(`Withholds`): the handler is asked while the request is being answered, and nowhere else.
-/

namespace SiteServer.Connection

variable {H : Type} {c : Connection}

/-- As long as the request has not been answered, nothing has been written. -/
def Unsent (c : Connection) : Prop :=
  c.state = .new ∨ c.state = .requestReady → c.wire = #[]

/-- What a step comes to when nothing is written before there is an answer. -/
structure Withholds (out : Connection × StepResult) : Prop where
  unsent : out.1.Unsent
  wire_of_panicked : out.2 = .panicked → out.1.wire = #[]

lemma unsent_fresh (id : SlotId) (peer : Nat) : Unsent { id, peer } := fun _ => rfl

lemma unsent_of_wire (h : c.wire = #[]) : c.Unsent := fun _ => h

lemma unsent_of_answered (h : c.state = .responseReady ∨ c.state = .sending) : c.Unsent := by
  intro hstate
  rcases h with h | h <;> simp [h] at hstate

lemma withholds_finish (c : Connection) (closing : Closing) : Withholds (c.finish closing) :=
  ⟨fun hstate => by simp [finish, close] at hstate, by simp [finish]⟩

/-! ### The parts of a step -/

lemma withholds_respond (around : Surroundings H) (wire : c.wire = #[]) :
    Withholds (c.respond around) := by
  unfold respond
  split
  · exact withholds_finish c _
  · split
    · exact ⟨unsent_of_answered (.inl rfl), by simp⟩
    · exact withholds_finish c _
    · exact ⟨unsent_of_wire wire, fun _ => wire⟩

lemma withholds_receive (around : Surroundings H) (receipt : Receipt) (wire : c.wire = #[]) :
    Withholds (c.receive around receipt) := by
  have hwaits : Withholds (c, .wait .readable) := ⟨unsent_of_wire wire, by simp⟩
  unfold receive
  split
  · cases receipt with
    | wouldBlock | interrupted => exact hwaits
    | failed => exact withholds_finish c _
    | data bytes =>
      dsimp only
      split
      · exact withholds_finish c _
      · split
        · exact withholds_finish c _
        · split
          · exact withholds_finish c _
          · exact withholds_respond around wire
  · exact withholds_finish c _

lemma withholds_afterBody (flow : Flow) (state : c.state = .sending) :
    Withholds (c.afterBody flow) := by
  cases flow with
  | blocked => exact ⟨unsent_of_answered (.inr state), by simp [afterBody]⟩
  | complete | failed => exact withholds_finish c _

lemma withholds_sendBody (around : Surroundings H) (reads : List ReadOutcome)
    (writes : List WriteOutcome) (state : c.state = .sending) :
    Withholds (c.sendBody around reads writes) := by
  unfold sendBody
  split
  · split
    · exact withholds_afterBody _ state
    · exact withholds_afterBody _ state
    · exact withholds_finish c _
  · exact withholds_finish c _

lemma withholds_startBody (around : Surroundings H) (reads : List ReadOutcome)
    (writes : List WriteOutcome) (response : Response) (c : Connection) :
    Withholds (c.startBody around reads writes response) := by
  unfold startBody
  split
  · exact withholds_sendBody around reads writes rfl
  · split
    · exact withholds_sendBody around reads writes rfl
    · exact withholds_finish c _

lemma withholds_sendHeader (around : Surroundings H) (reads : List ReadOutcome)
    (writes : List WriteOutcome) (state : c.state = .responseReady) :
    Withholds (c.sendHeader around reads writes) := by
  unfold sendHeader
  split
  · dsimp only
    split
    · exact ⟨unsent_of_answered (.inl state), by simp⟩
    · exact withholds_finish _ _
    · exact withholds_startBody around reads _ _ _
  · exact withholds_finish c _

/-! ### A step -/

theorem Unsent.step (h : c.Unsent) (around : Surroundings H) (turn : Turn) :
    Withholds (c.step around turn) := by
  unfold Connection.step
  split
  · next state => exact withholds_receive around turn.receipt (h (.inl state))
  · next state => exact withholds_respond around (h (.inr state))
  · next state => exact withholds_sendHeader around turn.reads turn.writes state
  · next state => exact withholds_sendBody around turn.reads turn.writes state
  · exact ⟨h, by simp⟩

end SiteServer.Connection
