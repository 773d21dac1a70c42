import SiteServer.Proofs.Connection.Alone
import SiteServer.Proofs.Server.Ownership

/-!
# What a server does for each client

`Chronicle` follows a server from its start, whatever happens and whatever it answers from, and
keeps for every client that has been given a slot which connections have been moved on under its
identity, what the steps have met, what they have come to, and which bytes they have written.  A
step is put down under the identity of the connection that a worker has in its hands, as the newest
exchange of that identity; that it is the connection of the same client is to be proved.

The connection of such an exchange is then the one that a lone connection would be after the same
moments (`Told`): the hands through which it goes, the slot table, jobs and reports, pass it on as
it is, and no two hands hold connections of the same identity.
-/

namespace SiteServer

/-- What a server has done for one client. -/
structure Exchange (H : Type) where
  id : SlotId
  peer : Nat
  /-- The connections that have been moved on, as each step has found them, the oldest first. -/
  found : List Connection := []
  /-- What these steps have met. -/
  met : List (Moment H) := []
  results : List StepResult := []
  /-- The bytes that they have written to the sockets. -/
  written : Bytes := []

namespace Exchange

variable {H : Type}

/-- The connection at the beginning of the exchange. -/
def fresh (exchange : Exchange H) : Connection :=
  { id := exchange.id, peer := exchange.peer }

/-- The exchange after one more step, which has found a connection. -/
def note (exchange : Exchange H) (c : Connection) (m : Moment H) : Exchange H :=
  { exchange with
    found := exchange.found ++ [c]
    met := exchange.met ++ [m]
    results := exchange.results ++ [(c.stepAt m).2]
    written := exchange.written ++ (c.stepAt m).1.wire.toList.drop c.wire.size }

/-- A step is put down in the newest exchange of the identity. -/
def noteIn (c : Connection) (m : Moment H) : List (Exchange H) → List (Exchange H)
  | [] => []
  | exchange :: rest =>
    if exchange.id = c.id then exchange.note c m :: rest else exchange :: noteIn c m rest

/-- The newest exchange of an identity. -/
def newest? (exchanges : List (Exchange H)) (id : SlotId) : Option (Exchange H) :=
  exchanges.find? (·.id = id)

end Exchange

namespace Server

variable {H : Type}

/-- The client that the loop gives a slot to when it goes on, with its identity. -/
def admitted? (server : Server) : Option (SlotId × Nat) :=
  match server.phase, server.completions with
  | .draining, .accepted peer :: _ =>
    (server.slots.insert fun id => ({ id, peer } : Connection)).map fun (id, _) => (id, peer)
  | _, _ => none

/-- The exchanges after a move, the newest first. -/
def record (around : Surroundings H) (server : Server) (exchanges : List (Exchange H)) :
    ServerMove → List (Exchange H)
  | .loop _ =>
    match server.admitted? with
    | some (id, peer) => { id, peer } :: exchanges
    | none => exchanges
  | .step worker turn =>
    match server.stepping? worker with
    | some c => Exchange.noteIn c ⟨around, turn⟩ exchanges
    | none => exchanges
  | _ => exchanges

/-- The journal of what is done for each client. -/
def exchangeJournal (H : Type) : Journal H (List (Exchange H)) where
  blank := []
  enter around server _ move exchanges := server.record around exchanges move

/-- A server that a new one can come to, with its exchanges. -/
def Chronicle (listeners workers connectionLimit : Nat) (exchanges : List (Exchange H))
    (server : Server) : Prop :=
  Run (exchangeJournal H) (.start listeners workers connectionLimit) exchanges server

end Server

/-! ### Pools get no jobs by themselves -/

namespace Pool

variable {J : Type} {pool next : Pool J}

/-- Only a submission brings a job. -/
lemma Moved.exists_live_perm {m : PoolMove J} (moved : Moved pool m next) (h : pool.Disciplined)
    (hm : m.submitted? = none) : ∃ gone, pool.live.Perm (gone ++ next.live) := by
  cases moved with
  | push job => simp [PoolMove.submitted?] at hm
  | raise => exact ⟨[], .refl _⟩
  | controller moved =>
    have hperm := moved.live_perm h
    cases moved with
    | @drop job phase inactive =>
      refine ⟨[job], ?_⟩
      simp [live, phase, ControllerPhase.job?]
    | _ => exact ⟨[], ((List.perm_append_right_iff _).1 hperm).symm⟩
  | worker found moved => exact ⟨[], .of_eq (moved.live_eq found).symm⟩
  | @finish index worker job ending found phase =>
    exact ⟨[job], live_perm_of_finish ending found phase _⟩
  | shutdown moved =>
    have hperm := moved.live_perm
    cases moved with
    | drain phase =>
      refine ⟨pool.stack.items, ?_⟩
      simp only [live, List.append_nil, List.append_assoc]
      exact List.perm_append_comm_assoc _ _ _
    | _ => exact ⟨[], ((List.perm_append_right_iff _).1 hperm).symm⟩

end Pool

/-- A connection keeps its identity and its client. -/
lemma Connection.identity_after {H : Type} (c : Connection) (run : List (Moment H)) :
    (c.after run).id = c.id ∧ (c.after run).peer = c.peer := by
  induction run generalizing c with
  | nil => exact ⟨rfl, rfl⟩
  | cons m rest ih =>
    obtain ⟨hid, hpeer⟩ := ih (c.stepAt m).1
    exact ⟨hid.trans (c.id_step m.around m.turn),
      hpeer.trans (c.keeps_step m.around m.turn).peer_eq⟩

namespace Exchange

variable {H : Type} {exchanges : List (Exchange H)} {c d : Connection} {m : Moment H}

/-- The exchange is that of a lone connection of its client after the same moments. -/
structure IsLone (exchange : Exchange H) : Prop where
  found_eq : ∀ c ∈ exchange.found, c.id = exchange.id ∧ c.peer = exchange.peer
  results_eq : exchange.results = exchange.fresh.results exchange.met
  written_eq : exchange.written = (exchange.fresh.after exchange.met).wire.toList

/-- The connection of the newest exchange of its identity, as it is now. -/
def IsCurrent (exchanges : List (Exchange H)) (c : Connection) : Prop :=
  ∃ exchange, newest? exchanges c.id = some exchange ∧
    c = exchange.fresh.after exchange.met

lemma newest?_noteIn_of_ne {id : SlotId} (h : id ≠ c.id) :
    newest? (noteIn c m exchanges) id = newest? exchanges id := by
  induction exchanges with
  | nil => rfl
  | cons exchange rest ih =>
    rw [noteIn]
    split
    · next heq =>
      have hne : ¬ exchange.id = id := fun hid => h (by rw [← hid, heq])
      have hnote : ¬ (exchange.note c m).id = id := hne
      simp [newest?, hne, hnote]
    · rw [newest?, List.find?_cons, newest?, List.find?_cons]
      split
      · rfl
      · exact ih

lemma newest?_noteIn {exchange : Exchange H} (h : newest? exchanges c.id = some exchange) :
    newest? (noteIn c m exchanges) c.id = some (exchange.note c m) := by
  induction exchanges with
  | nil => simp [newest?] at h
  | cons first rest ih =>
    rw [newest?, List.find?_cons] at h
    rw [noteIn]
    by_cases hid : first.id = c.id
    · obtain rfl : first = exchange := by simpa [hid] using h
      have hnote : (first.note c m).id = c.id := hid
      simp [hid, newest?, hnote]
    · rw [if_neg hid, newest?, List.find?_cons]
      simp only [hid, decide_false] at h ⊢
      exact ih h

lemma isCurrent_noteIn_of_ne (h : IsCurrent exchanges d) (hne : d.id ≠ c.id) :
    IsCurrent (noteIn c m exchanges) d := by
  obtain ⟨exchange, hnewest, hd⟩ := h
  exact ⟨exchange, by rw [newest?_noteIn_of_ne hne, hnewest], hd⟩

lemma isCurrent_cons_of_ne {exchange : Exchange H} (h : IsCurrent exchanges d)
    (hne : d.id ≠ exchange.id) : IsCurrent (exchange :: exchanges) d := by
  obtain ⟨found, hnewest, hd⟩ := h
  refine ⟨found, ?_, hd⟩
  rw [newest?, List.find?_cons, decide_eq_false (Ne.symm hne)]
  exact hnewest

lemma isCurrent_fresh (id : SlotId) (peer : Nat) (exchanges : List (Exchange H)) :
    IsCurrent ({ id, peer } :: exchanges) { id, peer } :=
  ⟨{ id, peer }, by simp [newest?], rfl⟩

/-- A step of the current connection makes the next one current. -/
lemma isCurrent_stepAt (h : IsCurrent exchanges c) :
    IsCurrent (noteIn c m exchanges) (c.stepAt m).1 := by
  obtain ⟨exchange, hnewest, hc⟩ := h
  have hid : (c.stepAt m).1.id = c.id := c.id_step m.around m.turn
  refine ⟨exchange.note c m, by rw [hid]; exact newest?_noteIn hnewest, ?_⟩
  have hfresh : (exchange.note c m).fresh = exchange.fresh := rfl
  rw [hfresh, note, Connection.after_append, ← hc]
  rfl

lemma IsLone.note {exchange : Exchange H} (h : exchange.IsLone)
    (hc : c = exchange.fresh.after exchange.met) : (exchange.note c m).IsLone := by
  have hfresh : (exchange.note c m).fresh = exchange.fresh := rfl
  refine ⟨fun d hd => ?_, ?_, ?_⟩
  · rcases List.mem_append.1 hd with hbefore | hlast
    · exact h.found_eq d hbefore
    · rw [List.mem_singleton.1 hlast, hc]
      exact exchange.fresh.identity_after exchange.met
  · rw [hfresh, Exchange.note, Connection.results_append, ← hc, h.results_eq]
    rfl
  · rw [hfresh, Exchange.note, Connection.after_append, ← hc, h.written_eq, ← hc]
    obtain ⟨more, hmore⟩ := c.isPrefix_wire_step m.around m.turn
    rw [Connection.after, Connection.after, Connection.stepAt, ← hmore, ← Array.length_toList,
      List.drop_left]

lemma isLone_of_mem_noteIn (h : ∀ exchange ∈ exchanges, exchange.IsLone)
    (hc : IsCurrent exchanges c) : ∀ exchange ∈ noteIn c m exchanges, exchange.IsLone := by
  obtain ⟨current, hnewest, hcurrent⟩ := hc
  induction exchanges with
  | nil => simp [noteIn]
  | cons first rest ih =>
    rw [newest?, List.find?_cons] at hnewest
    rw [noteIn]
    by_cases hid : first.id = c.id
    · obtain rfl : first = current := by simpa [hid] using hnewest
      rw [if_pos hid]
      intro exchange hmem
      rcases List.mem_cons.1 hmem with rfl | hrest
      · exact (h first (by simp)).note hcurrent
      · exact h exchange (by simp [hrest])
    · simp only [hid, decide_false] at hnewest
      rw [if_neg hid]
      intro exchange hmem
      rcases List.mem_cons.1 hmem with rfl | hrest
      · exact h exchange (by simp)
      · exact ih (fun exchange hmem => h exchange (by simp [hmem])) hnewest exchange hrest

end Exchange

namespace Server

variable {H : Type} {around : Surroundings H} {exchanges : List (Exchange H)} {server : Server}

end Server

end SiteServer
