import SiteServer.Proofs.Connection.Exactness

/-!
# The stages of a connection

Between two calls a connection stands at one of four stages: it waits for its request, it has an
answer of which the header block is not complete, it sends the body, or it is closed.  `Stage` says
what is known of its fields at each of them.  A step leads from a stage to the same or a later one,
and its result says which (`Advances`); so the state, the socket, the counters and the body file
always agree, and a step never finds the socket, the request or the response missing.
-/

namespace SiteServer

/-- The place of a state in the order in which a connection goes through them. -/
def ConnectionState.rank : ConnectionState → Nat
  | .new => 0
  | .requestReady => 1
  | .responseReady => 2
  | .sending => 3
  | .terminated => 4

/-- The closing of a step that has found something missing which it needs. -/
def Closing.isFallback : Closing → Bool
  | .socketGone | .requestMissing | .responseMissing | .bodyMissing => true
  | _ => false

/-- What is kept for a body that is being sent: how much of the bytes at hand has been taken, or the
open file. -/
inductive Body.Held : Body → Nat → Option FileBody → Prop where
  | data {bytes : Bytes} {sent : Nat} (le : sent ≤ bytes.length) : Held (.data bytes) sent none
  | file {path : Text} {length : Nat} {body : FileBody} : Held (.file path length) 0 (some body)

namespace Connection

variable {H : Type} {c : Connection} {m : Moment H}

/-- What is known of a connection between two calls. -/
inductive Stage (c : Connection) : Prop where
  | new (state : c.state = .new) (socket : c.hasSocket = true) (request : c.request = none)
    (response : c.response = none) (headerSent : c.headerSent = 0) (dataSent : c.dataSent = 0)
    (file : c.file = none)
  | header {request : Request} {response : Response} (state : c.state = .responseReady)
    (socket : c.hasSocket = true) (request_eq : c.request = some request)
    (response_eq : c.response = some response) (le : c.headerSent ≤ response.header.length)
    (dataSent : c.dataSent = 0) (file : c.file = none)
  | body {response : Response} (state : c.state = .sending) (socket : c.hasSocket = true)
    (response_eq : c.response = some response) (headerSent : c.headerSent = response.header.length)
    (held : response.body.Held c.dataSent c.file)
  | closed (state : c.state = .terminated) (socket : c.hasSocket = false) (file : c.file = none)

/-- How the result of a step says in which state the connection is left. -/
inductive Announces : StepResult → ConnectionState → Prop where
  | reading : Announces (.wait .readable) .new
  | header : Announces (.wait .writable) .responseReady
  | body : Announces (.wait .writable) .sending
  | done {closing : Closing} (regular : closing.isFallback = false) :
      Announces (.done closing) .terminated

/-- A step from a state has led to a stage of the same rank or a later one, and says so. -/
structure Advances (state : ConnectionState) (out : Connection × StepResult) : Prop where
  stage : Stage out.1
  announces : Announces out.2 out.1.state
  rank_le : state.rank ≤ out.1.state.rank

lemma stage_close (c : Connection) : Stage c.close := .closed rfl rfl rfl

lemma rank_le_terminated (state : ConnectionState) :
    state.rank ≤ ConnectionState.rank .terminated := by
  cases state <;> decide

lemma advances_finish (state : ConnectionState) (c : Connection) {closing : Closing}
    (regular : closing.isFallback = false) : Advances state (c.finish closing) :=
  ⟨stage_close c, .done regular, rank_le_terminated state⟩

lemma Advances.of_le {state state' : ConnectionState} {out : Connection × StepResult}
    (h : Advances state' out) (rank : state.rank ≤ state'.rank) : Advances state out :=
  ⟨h.stage, h.announces, Nat.le_trans rank h.rank_le⟩

/-! ### One step -/

/-- The end of a step that has sent from the body. -/
lemma advances_afterBody {response : Response} (flow : Flow) (state : c.state = .sending)
    (socket : c.hasSocket = true) (response_eq : c.response = some response)
    (headerSent : c.headerSent = response.header.length)
    (held : response.body.Held c.dataSent c.file) : Advances .sending (afterBody flow c) := by
  cases flow with
  | complete => exact advances_finish _ c rfl
  | failed => exact advances_finish _ c rfl
  | blocked =>
    refine ⟨.body state socket response_eq headerSent held, ?_, ?_⟩
    · simpa [afterBody, state] using Announces.body
    · simp [afterBody, state]

lemma advances_sendBody {response : Response} (around : Surroundings H)
    (reads : List ReadOutcome) (writes : List WriteOutcome) (state : c.state = .sending)
    (socket : c.hasSocket = true) (response_eq : c.response = some response)
    (headerSent : c.headerSent = response.header.length)
    (held : response.body.Held c.dataSent c.file) :
    Advances .sending (sendBody around reads writes c) := by
  obtain ⟨status, mediaType, body, date⟩ := response
  simp only [sendBody, socket, response_eq]
  generalize hsent : c.dataSent = sent at held ⊢
  generalize hfile : c.file = file at held ⊢
  cases held with
  | @data bytes _ le =>
    have hcount := count_deliver_le (bytes.drop sent).length writes
    rw [List.length_drop] at hcount
    have hle : sent + (deliver (bytes.drop sent).length writes).count ≤ bytes.length := by
      rw [List.length_drop]
      omega
    exact advances_afterBody _ state rfl rfl headerSent (.data hle)
  | file =>
    exact advances_afterBody _ state rfl rfl headerSent .file

lemma advances_startBody {response : Response} (around : Surroundings H)
    (reads : List ReadOutcome) (writes : List WriteOutcome) (socket : c.hasSocket = true)
    (response_eq : c.response = some response) (headerSent : c.headerSent = response.header.length)
    (dataSent : c.dataSent = 0) : Advances .sending (startBody around reads writes response c) := by
  cases hbody : response.body with
  | data bytes =>
    simp only [startBody, Response.filePath?, hbody]
    refine advances_sendBody around reads writes rfl socket response_eq headerSent ?_
    simp only [hbody, dataSent]
    exact .data (Nat.zero_le _)
  | file path length =>
    simp only [startBody, Response.filePath?, hbody]
    split
    · refine advances_sendBody around reads writes rfl socket response_eq headerSent ?_
      simp only [hbody, dataSent]
      exact .file
    · exact advances_finish _ c rfl

lemma advances_sendHeader {request : Request} {response : Response} (around : Surroundings H)
    (reads : List ReadOutcome) (writes : List WriteOutcome) (state : c.state = .responseReady)
    (socket : c.hasSocket = true) (request_eq : c.request = some request)
    (response_eq : c.response = some response) (le : c.headerSent ≤ response.header.length)
    (dataSent : c.dataSent = 0) (file : c.file = none) :
    Advances .responseReady (sendHeader around reads writes c) := by
  have hcount := count_deliver_le (response.header.drop c.headerSent).length writes
  have hcomplete := flow_deliver_eq_complete_iff (response.header.drop c.headerSent).length writes
  rw [List.length_drop] at hcount hcomplete
  simp only [sendHeader, socket, response_eq, List.length_drop]
  split
  · -- would block before the file is opened
    refine ⟨.header state rfl request_eq rfl ?_ dataSent file, ?_, ?_⟩
    · simp only
      omega
    · simpa [state] using Announces.header
    · simp [state]
  · exact advances_finish _ _ rfl
  · next hflow =>
    refine Advances.of_le (?_ : Advances .sending _) (by decide)
    refine advances_startBody around reads _ rfl rfl ?_ dataSent
    simp only [hcomplete.1 hflow]
    omega

lemma advances_respond {request : Request} (around : Surroundings H)
    (hask : ∀ handler path params, around.ask handler path params ≠ .panicked)
    (socket : c.hasSocket = true) (request_eq : c.request = some request)
    (headerSent : c.headerSent = 0) (dataSent : c.dataSent = 0) (file : c.file = none) :
    Advances .requestReady (respond around c) := by
  simp only [respond, request_eq]
  split
  · exact ⟨.header rfl socket rfl rfl (by simp [headerSent]) dataSent file, .header,
      by simp [ConnectionState.rank]⟩
  · exact advances_finish _ c rfl
  · next hpanic => exact absurd hpanic (answer_ne_panic hask _ _ _ _ _)

/-- A read that succeeds leads past the states in which a read is made. -/
lemma advances_receive_data (around : Surroundings H) (bytes : Bytes)
    (hask : ∀ handler path params, around.ask handler path params ≠ .panicked)
    (socket : c.hasSocket = true) (headerSent : c.headerSent = 0) (dataSent : c.dataSent = 0)
    (file : c.file = none) : Advances .requestReady (receive around (.data bytes) c) := by
  simp only [receive, socket, if_true]
  split
  · exact advances_finish _ _ rfl
  · split
    · exact advances_finish _ _ rfl
    · split
      · exact advances_finish _ _ rfl
      · exact advances_respond around hask rfl rfl headerSent dataSent file

lemma advances_receive (around : Surroundings H) (receipt : Receipt)
    (hask : ∀ handler path params, around.ask handler path params ≠ .panicked) (h : Stage c)
    (state : c.state = .new) (socket : c.hasSocket = true) (headerSent : c.headerSent = 0)
    (dataSent : c.dataSent = 0) (file : c.file = none) :
    Advances .new (receive around receipt c) := by
  have hstays : Advances .new (c, .wait .readable) := ⟨h, state ▸ .reading, Nat.zero_le _⟩
  cases receipt with
  | wouldBlock => simpa [receive, socket] using hstays
  | interrupted => simpa [receive, socket] using hstays
  | failed => simpa [receive, socket] using advances_finish _ c rfl
  | data bytes =>
    exact (advances_receive_data around bytes hask socket headerSent dataSent file).of_le
      (by decide)

/-- Every step leads on. -/
theorem Stage.advances (h : Stage c) (m : Moment H)
    (hask : ∀ handler path params, m.around.ask handler path params ≠ .panicked) :
    Advances c.state (c.stepAt m) := by
  have hstage := h
  cases h with
  | new state socket request response headerSent dataSent file =>
    simp only [stepAt, step, state]
    exact advances_receive m.around _ hask hstage state socket headerSent dataSent file
  | header state socket request_eq response_eq le dataSent file =>
    simp only [stepAt, step, state]
    exact advances_sendHeader m.around _ _ state socket request_eq response_eq le dataSent file
  | body state socket response_eq headerSent held =>
    simp only [stepAt, step, state]
    exact advances_sendBody m.around _ _ state socket response_eq headerSent held
  | closed state socket file =>
    simp only [stepAt, step, state]
    exact ⟨hstage, state ▸ .done rfl, by simp [state]⟩

/-! ### Steps and closings from outside -/

/-- A call on a connection. -/
inductive Call (H : Type) where
  | step (m : Moment H)
  | close

/-- No handler breaks down during the call. -/
def Call.IsCalm : Call H → Prop
  | .step m => ∀ handler path params, m.around.ask handler path params ≠ .panicked
  | .close => True

/-- The connection after a call. -/
def call (c : Connection) : Call H → Connection
  | .step m => (c.stepAt m).1
  | .close => c.close

/-- The connection after some calls. -/
def called (c : Connection) (calls : List (Call H)) : Connection :=
  calls.foldl call c

/-- What a call reads from the socket. -/
def reading? (c : Connection) : Call H → Option Bytes
  | .step m =>
    match c.state, c.hasSocket, m.turn.receipt with
    | .new, true, .data bytes => some (bytes.take bufferSize)
    | _, _, _ => none
  | .close => none

/-- The reads that succeed in the course of some calls. -/
def readings (c : Connection) : List (Call H) → List Bytes
  | [] => []
  | call :: rest => (c.reading? call).toList ++ (c.call call).readings rest

lemma Stage.call (h : Stage c) (call : Call H) (hcalm : call.IsCalm) :
    Stage (c.call call) ∧ c.state.rank ≤ (c.call call).state.rank := by
  cases call with
  | step m => exact ⟨(h.advances m hcalm).stage, (h.advances m hcalm).rank_le⟩
  | close => exact ⟨stage_close c, rank_le_terminated _⟩

lemma Stage.called (h : Stage c) (calls : List (Call H)) (hcalm : ∀ call ∈ calls, call.IsCalm) :
    Stage (c.called calls) := by
  induction calls generalizing c with
  | nil => exact h
  | cons call rest ih =>
    exact ih (h.call call (hcalm call (by simp))).1 fun call hmem => hcalm call (by simp [hmem])

lemma state_of_reading? {call : Call H} {bytes : Bytes} (h : c.reading? call = some bytes) :
    c.state = .new := by
  unfold reading? at h
  split at h
  · split at h
    · assumption
    · simp at h
  · simp at h

lemma Stage.rank_pos_of_reading? (h : Stage c) {call : Call H} (hcalm : call.IsCalm)
    {bytes : Bytes} (hreading : c.reading? call = some bytes) : 0 < (c.call call).state.rank := by
  have hstate := state_of_reading? hreading
  cases h with
  | new state socket request response headerSent dataSent file =>
    cases call with
    | close => simp [reading?] at hreading
    | step m =>
      cases hreceipt : m.turn.receipt with
      | data given =>
        simp only [Connection.call, stepAt, step, state, hreceipt]
        exact (advances_receive_data m.around given hcalm socket headerSent dataSent file).rank_le
      | _ => simp [reading?, state, socket, hreceipt] at hreading
  | header state => simp [hstate] at state
  | body state => simp [hstate] at state
  | closed state => simp [hstate] at state

/-- Nothing is read from a connection that is past its request. -/
lemma Stage.readings_of_rank_pos (h : Stage c) (hrank : 0 < c.state.rank) (calls : List (Call H))
    (hcalm : ∀ call ∈ calls, call.IsCalm) : c.readings calls = [] := by
  induction calls generalizing c with
  | nil => rfl
  | cons call rest ih =>
    obtain ⟨hnext, hle⟩ := h.call call (hcalm call (by simp))
    have hnone : c.reading? call = none := by
      by_contra hsome
      obtain ⟨bytes, hreading⟩ := Option.ne_none_iff_exists'.1 hsome
      simp [state_of_reading? hreading, ConnectionState.rank] at hrank
    rw [readings, hnone, ih hnext (Nat.lt_of_lt_of_le hrank hle)
      fun call hmem => hcalm call (by simp [hmem])]
    rfl

/-- At most one read succeeds. -/
lemma Stage.length_readings_le_one (h : Stage c) (calls : List (Call H))
    (hcalm : ∀ call ∈ calls, call.IsCalm) : (c.readings calls).length ≤ 1 := by
  induction calls generalizing c with
  | nil => simp [readings]
  | cons call rest ih =>
    have hrest : ∀ call ∈ rest, call.IsCalm := fun call hmem => hcalm call (by simp [hmem])
    have hcall := hcalm call (by simp)
    have hnext := (h.call call hcall).1
    rw [readings]
    cases hreading : c.reading? call with
    | none => simpa using ih hnext hrest
    | some bytes =>
      simp [hnext.readings_of_rank_pos (h.rank_pos_of_reading? hcall hreading) rest hrest]

/-! ### Between two calls -/

/-- The state of a connection says which of its fields are set, and how far its counters are. -/
structure Consistent (c : Connection) : Prop where
  ne_requestReady : c.state ≠ .requestReady
  terminated_iff : c.state = .terminated ↔ c.hasSocket = false
  of_terminated : c.state = .terminated → c.file = none
  of_new : c.state = .new → c.request = none ∧ c.response = none ∧ c.headerSent = 0 ∧
    c.dataSent = 0 ∧ c.file = none
  of_responseReady : c.state = .responseReady → c.request.isSome ∧
    ∃ response, c.response = some response ∧ c.headerSent ≤ response.header.length ∧
      c.dataSent = 0 ∧ c.file = none
  of_sending : c.state = .sending →
    ∃ response, c.response = some response ∧ c.headerSent = response.header.length ∧
      c.dataSent ≤ response.contentLength ∧
      (c.file.isSome ↔ ∃ path length, response.body = .file path length)

/-- A step does not lead back, and its result says where it has led to.  It has not missed the
socket, the request, the response or the body file. -/
structure StepsOn (c : Connection) (out : Connection × StepResult) : Prop where
  rank_le : c.state.rank ≤ out.1.state.rank
  readable_iff : out.2 = .wait .readable ↔ out.1.state = .new
  writable_iff : out.2 = .wait .writable ↔ out.1.state = .responseReady ∨ out.1.state = .sending
  done_iff : (∃ closing, out.2 = .done closing) ↔ out.1.state = .terminated
  regular : ∀ closing, out.2 = .done closing → closing.isFallback = false

lemma Stage.consistent (h : Stage c) : Consistent c := by
  cases h with
  | new state socket request response headerSent dataSent file =>
    constructor <;> simp [*]
  | header state socket request_eq response_eq le dataSent file =>
    constructor <;> simp [*]
  | @body response state socket response_eq headerSent held =>
    obtain ⟨status, mediaType, body, date⟩ := response
    generalize hfile : c.file = file at held
    generalize hsent : c.dataSent = sent at held
    cases held with
    | data le => constructor <;> simp [*, Response.contentLength, Body.length]
    | file => constructor <;> simp [*]
  | closed state socket file =>
    constructor <;> simp [*]

lemma Advances.stepsOn {out : Connection × StepResult} (h : Advances c.state out) :
    StepsOn c out := by
  obtain ⟨d, result⟩ := out
  have hannounces := h.announces
  generalize hstate : d.state = state at hannounces
  cases hannounces with
  | reading => exact ⟨h.rank_le, by simp [hstate], by simp [hstate], by simp [hstate], by simp⟩
  | header => exact ⟨h.rank_le, by simp [hstate], by simp [hstate], by simp [hstate], by simp⟩
  | body => exact ⟨h.rank_le, by simp [hstate], by simp [hstate], by simp [hstate], by simp⟩
  | done regular =>
    exact ⟨h.rank_le, by simp [hstate], by simp [hstate], by simp [hstate], by simpa using regular⟩

lemma Stage.call_of_terminated (h : Stage c) (hstate : c.state = .terminated) (call : Call H) :
    c.call call = c := by
  cases call with
  | step m => simp [Connection.call, stepAt, step, hstate]
  | close =>
    cases h with
    | closed state socket file =>
      obtain ⟨id, peer, cstate, hasSocket, request, response, header, data, cfile, wire⟩ := c
      subst state socket file
      rfl
    | new state => simp [hstate] at state
    | header state => simp [hstate] at state
    | body state => simp [hstate] at state

/-- Whatever the sockets, the files and the site do, and wherever a connection is closed from
outside: between two calls it is consistent, each further step leads on, a single read succeeds at
most, and nothing changes once it is closed. -/
theorem stages_of_calls (id : SlotId) (peer : Nat) (calls : List (Call H))
    (hcalm : ∀ call ∈ calls, call.IsCalm) :
    let fresh : Connection := { id, peer }
    let c := fresh.called calls
    Consistent c ∧
      (∀ m : Moment H, (Call.step m).IsCalm → StepsOn c (c.stepAt m)) ∧
      c.state.rank ≤ c.close.state.rank ∧
      (fresh.readings calls).length ≤ 1 ∧
      (c.state = .terminated → ∀ call : Call H, c.call call = c) := by
  intro fresh c
  have hfresh : Stage fresh := .new rfl rfl rfl rfl rfl rfl rfl
  have hstage : Stage c := hfresh.called calls hcalm
  exact ⟨hstage.consistent, fun m hm => (hstage.advances m hm).stepsOn, rank_le_terminated _,
    hfresh.length_readings_le_one calls hcalm, hstage.call_of_terminated⟩

/-- A request whose answer is sent in part, and then a closing from outside. -/
theorem stages_of_calls_tinySending :
    let calls := .step ⟨tinySite, ⟨.data tinyRequest, [], []⟩⟩ :: tinySending.map .step ++ [.close]
    let fresh : Connection := { id := ⟨0, 0⟩, peer := 0 }
    (∀ call ∈ calls, call.IsCalm) ∧ Consistent (fresh.called calls) ∧
      (fresh.readings calls).length ≤ 1 := by
  intro calls fresh
  have hcalm : ∀ call ∈ calls, call.IsCalm := by
    simp [calls, tinySending, tinyStep, Call.IsCalm, tinySite]
  have h := stages_of_calls ⟨0, 0⟩ 0 calls hcalm
  exact ⟨hcalm, h.1, h.2.2.2.1⟩

end Connection

end SiteServer
