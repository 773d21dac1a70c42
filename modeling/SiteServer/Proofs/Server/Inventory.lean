import SiteServer.Proofs.Server.Isolation
import SiteServer.Proofs.Server.Phases

/-!
# All that a server has

A client that has been accepted waits in a report, or has been refused, or has been given a slot.  A
connection that has been given a slot is parked, in a job, in a report, or it has come to its end;
and a slot that has been given away is allocated or has been freed.  `Balance` counts all this
against a ledger.  The parts of a move take one thing from one place and put it into another, and in
between it is in nobody's hands: such things are counted apart, so that there is one lemma for each
taking out and one for each putting in.
-/

open scoped List

namespace SiteServer

/-- What has become of the clients and the slots of a server, in the order of time. -/
structure Ledger where
  /-- The clients that jobs have accepted. -/
  accepted : List Nat := []
  /-- The clients that have been given a slot, with their identities. -/
  admitted : List (SlotId × Nat) := []
  /-- The identities of the connections that have come to their end. -/
  finished : List SlotId := []
  /-- The identities whose slots have been freed. -/
  freed : List SlotId := []
  deriving DecidableEq, Repr

/-- The ledger with more entries. -/
def Ledger.add (ledger : Ledger) (accepted : List Nat) (admitted : List (SlotId × Nat))
    (finished freed : List SlotId) : Ledger where
  accepted := ledger.accepted ++ accepted
  admitted := ledger.admitted ++ admitted
  finished := ledger.finished ++ finished
  freed := ledger.freed ++ freed

/-- Whose connection it is. -/
def Connection.entry (c : Connection) : SlotId × Nat :=
  (c.id, c.peer)

/-- The connection that a job moves on. -/
def Work.connection? : Work → Option Connection
  | .accept _ => none
  | .step connection => some connection

namespace Completion

/-- The client that has been accepted. -/
def peer? : Completion → Option Nat
  | .accepted peer => some peer
  | .acceptAgain _ | .stepped _ _ | .closed _ => none

/-- The connection that waits. -/
def connection? : Completion → Option Connection
  | .stepped connection _ => some connection
  | .accepted _ | .acceptAgain _ | .closed _ => none

/-- The identity of the connection that has been closed. -/
def closed? : Completion → Option SlotId
  | .closed id => some id
  | .accepted _ | .acceptAgain _ | .stepped _ _ => none

end Completion

/-! ### The jobs of a pool -/

namespace Pool

variable {J : Type} {pool next : Pool J} {m : PoolMove J}

/-- The jobs that have been submitted and not finished; that they have been discarded does not take
them away. -/
def held (pool : Pool J) : List J :=
  pool.live ++ pool.discarded

/-- A move that ends no job brings the one that it submits, and no other. -/
lemma Moved.held_perm (moved : Moved pool m next) (h : pool.Disciplined)
    (hm : ∀ index ending, m ≠ .finish index ending) :
    next.held.Perm (m.submitted?.toList ++ pool.held) := by
  cases moved with
  | push job => exact (live_perm_of_push job _).append_right _
  | raise => exact .refl _
  | controller moved => exact moved.live_perm h
  | worker found moved =>
    rw [held, moved.live_eq found, moved.log_eq.2]
    exact .refl _
  | @finish index worker job ending => exact absurd rfl (hm index ending)
  | shutdown moved => exact moved.live_perm

/-- When all threads have ended, a job that has not been finished is in the slot of a worker, or has
been discarded. -/
lemma Ended.held_eq (h : pool.Ended) (hstack : pool.stack.items = []) :
    pool.held = pool.workers.filterMap Worker.job ++ pool.discarded := by
  have hjobs : ∀ worker ∈ pool.workers, worker.jobs = worker.job.toList := by
    intro worker hmem
    rcases phase_of_hasEnded (h.workers worker hmem) with phase | phase <;>
      simp [Worker.jobs, phase, WorkerPhase.job?]
  rw [held, live, h.controller, hstack, List.flatMap_congr hjobs, List.filterMap_eq_flatMap_toList]
  rfl

end Pool

namespace Server

variable {H : Type} {around : Surroundings H} {server next : Server} {registers : Bool}

/-- The connections of jobs that have been submitted and not finished, as long as the loop has not
closed them. -/
def carried (server : Server) : List Connection :=
  if server.phase = .stopped then [] else server.pool.held.filterMap Work.connection?

/-- The connections that have been given a slot and not come to their end: they are parked, in jobs,
or in reports. -/
def inHand (server : Server) : List Connection :=
  server.slots.contents ++ server.carried ++ server.completions.filterMap Completion.connection?

/-- The books of a server against a ledger.  The clients, the connections and the identities of
closed connections that a move has taken from somewhere and not put down again are counted apart. -/
structure Balance (ledger : Ledger) (server : Server) (peers : List Nat)
    (taken : List Connection) (closed : List SlotId) : Prop where
  clients : ∀ peer, ledger.accepted.count peer
    = peers.count peer + (server.completions.filterMap Completion.peer?).count peer
      + server.refused.count peer + (ledger.admitted.map Prod.snd).count peer
  connections : ∀ entry, ledger.admitted.count entry
    = (taken.map Connection.entry).count entry + (server.ended.map Connection.entry).count entry
      + (server.inHand.map Connection.entry).count entry
  hasSocket_of_ended : ∀ c ∈ server.ended, c.hasSocket = false
  hasSocket_of_inHand : ∀ c ∈ taken ++ server.inHand, c.hasSocket = true
  slots : ∀ id, (ledger.admitted.map Prod.fst).count id
    = ledger.freed.count id + server.slots.identities.count id
  /-- A slot is freed when the loop has seen that its connection has come to its end. -/
  finished : server.phase ≠ .closing → server.phase ≠ .stopped → ∀ id, ledger.finished.count id
    = ledger.freed.count id + closed.count id
      + (server.completions.filterMap Completion.closed?).count id
  /-- The generations have counted the freeings. -/
  ages : server.phase ≠ .stopped → ledger.freed.length < SlotId.generationCount →
    (∀ index, server.slots.generationAt index ≤ ledger.freed.length) ∧
      ∀ id ∈ ledger.freed, id.generation < server.slots.generationAt id.index
  distinct : ledger.freed.length < SlotId.generationCount → (ledger.admitted.map Prod.fst).Nodup

variable {ledger : Ledger} {peers : List Nat} {taken : List Connection} {closed : List SlotId}
  {c : Connection} {id : SlotId}

lemma filterMap_cons_toList {α β : Type} (f : α → Option β) (a : α) (list : List α) :
    (a :: list).filterMap f = (f a).toList ++ list.filterMap f := by
  cases h : f a <;> simp [h]

/-- What is recorded outside the pool is the same. -/
structure SameRecords (server next : Server) : Prop where
  completions_eq : next.completions = server.completions
  refused_eq : next.refused = server.refused
  ended_eq : next.ended = server.ended
  slots_eq : next.slots = server.slots

/-- What is counted is as before, but for the connections of jobs. -/
lemma Balance.of_carried (h : Balance ledger server peers taken closed) {taken' : List Connection}
    (hcarried : (taken' ++ next.carried).Perm (taken ++ server.carried))
    (hsame : SameRecords server next)
    (hclosing : server.phase = .closing → next.phase = .closing ∨ next.phase = .stopped)
    (hstopped : server.phase = .stopped → next.phase = .stopped) :
    Balance ledger next peers taken' closed where
  clients := by
    rw [hsame.completions_eq, hsame.refused_eq]
    exact h.clients
  connections := by
    intro entry
    have hbefore := h.connections entry
    have hjobs := (hcarried.map Connection.entry).count_eq entry
    simp only [inHand, hsame.completions_eq, hsame.ended_eq, hsame.slots_eq, List.map_append,
      List.count_append] at hbefore hjobs ⊢
    omega
  hasSocket_of_ended := by
    rw [hsame.ended_eq]
    exact h.hasSocket_of_ended
  hasSocket_of_inHand := by
    intro c hmem
    refine h.hasSocket_of_inHand c ?_
    have hjobs := hcarried.mem_iff (a := c)
    simp only [inHand, hsame.completions_eq, hsame.slots_eq, List.mem_append] at hjobs hmem ⊢
    tauto
  slots := by
    rw [hsame.slots_eq]
    exact h.slots
  finished := by
    intro hnext hnext'
    rw [hsame.completions_eq]
    refine h.finished (fun hphase => ?_) fun hphase => hnext' (hstopped hphase)
    rcases hclosing hphase with heq | heq
    · exact hnext heq
    · exact hnext' heq
  ages := by
    intro hnext
    rw [hsame.slots_eq]
    exact h.ages fun hphase => hnext (hstopped hphase)
  distinct := h.distinct

/-! ### Reports -/

@[simp] lemma carried_complete (server : Server) (completion : Completion) :
    (server.complete completion).carried = server.carried := rfl

@[simp] lemma carried_completions (server : Server) (completions : List Completion) :
    { server with completions }.carried = server.carried := rfl

@[simp] lemma carried_slots (server : Server) (slots : SlotTable Connection)
    (watched : List (SlotId × Interest)) :
    { server with slots, watched }.carried = server.carried := rfl

/-- A report more. -/
lemma inHand_complete (server : Server) (completion : Completion) :
    (server.complete completion).inHand = server.inHand ++ completion.connection?.toList := by
  simp only [inHand, carried_complete, List.append_assoc]
  simp only [complete, List.filterMap_append, filterMap_cons_toList, List.filterMap_nil,
    List.append_nil]

/-- A job reports what it has in its hands. -/
lemma Balance.complete (completion : Completion)
    (h : Balance ledger server completion.peer?.toList completion.connection?.toList
      completion.closed?.toList) :
    Balance ledger (server.complete completion) [] [] [] where
  clients := by
    intro peer
    have hbefore := h.clients peer
    simp only [Server.complete, List.filterMap_append, filterMap_cons_toList, List.filterMap_nil,
      List.append_nil, List.count_append, List.count_nil] at hbefore ⊢
    omega
  connections := by
    intro entry
    have hbefore := h.connections entry
    have hended : (server.complete completion).ended = server.ended := rfl
    simp only [hended, inHand_complete, List.map_append, List.map_nil, List.count_append,
      List.count_nil] at hbefore ⊢
    omega
  hasSocket_of_ended := h.hasSocket_of_ended
  hasSocket_of_inHand := by
    intro c hmem
    refine h.hasSocket_of_inHand c ?_
    simp only [inHand_complete, List.nil_append, List.mem_append] at hmem ⊢
    tauto
  slots := h.slots
  finished := by
    intro hclosing hstopped id
    have hbefore := h.finished hclosing hstopped id
    simp only [Server.complete, List.filterMap_append, filterMap_cons_toList, List.filterMap_nil,
      List.append_nil, List.count_append, List.count_nil] at hbefore ⊢
    omega
  ages := h.ages
  distinct := h.distinct

/-- The loop takes a report out of the channel. -/
lemma Balance.seen (h : Balance ledger server [] [] []) {completion : Completion}
    {rest : List Completion} (hcompletions : server.completions = completion :: rest) :
    Balance ledger { server with completions := rest } completion.peer?.toList
      completion.connection?.toList completion.closed?.toList where
  clients := by
    intro peer
    have hbefore := h.clients peer
    simp only [hcompletions, filterMap_cons_toList, List.count_append, List.count_nil]
      at hbefore ⊢
    omega
  connections := by
    intro entry
    have hbefore := h.connections entry
    simp only [hcompletions, inHand, carried_completions, filterMap_cons_toList, List.map_append,
      List.map_nil, List.count_append, List.count_nil] at hbefore ⊢
    omega
  hasSocket_of_ended := h.hasSocket_of_ended
  hasSocket_of_inHand := by
    intro c hmem
    refine h.hasSocket_of_inHand c ?_
    simp only [hcompletions, inHand, carried_completions, filterMap_cons_toList, List.nil_append,
      List.mem_append] at hmem ⊢
    tauto
  slots := h.slots
  finished := by
    intro hclosing hstopped id
    have hbefore := h.finished hclosing hstopped id
    simp only [hcompletions, filterMap_cons_toList, List.count_append, List.count_nil]
      at hbefore ⊢
    omega
  ages := h.ages
  distinct := h.distinct

/-! ### Connections that end, and clients that are refused -/

/-- A connection has come to its end. -/
lemma Balance.bury (h : Balance ledger server peers [c] closed) {d : Connection}
    (hentry : d.entry = c.entry) : Balance ledger (server.bury d) peers [] closed where
  clients := h.clients
  connections := by
    intro entry
    have hbefore := h.connections entry
    have hclose : d.close.entry = c.entry := hentry
    have hinHand : (server.bury d).inHand = server.inHand := rfl
    have hended : (server.bury d).ended = server.ended ++ [d.close] := rfl
    simp only [hinHand, hended, List.map_append, List.map_cons, List.map_nil, hclose,
      List.count_append, List.count_nil] at hbefore ⊢
    omega
  hasSocket_of_ended := by
    intro e hmem
    rcases List.mem_append.1 hmem with hbefore | hlast
    · exact h.hasSocket_of_ended e hbefore
    · rw [List.mem_singleton.1 hlast]
      rfl
  hasSocket_of_inHand := fun e hmem => h.hasSocket_of_inHand e (List.mem_cons_of_mem _ hmem)
  slots := h.slots
  finished := h.finished
  ages := h.ages
  distinct := h.distinct

/-- A connection has been moved on. -/
lemma Balance.replace (h : Balance ledger server peers [c] closed) {d : Connection}
    (hentry : d.entry = c.entry) (hsocket : d.hasSocket = true) :
    Balance ledger server peers [d] closed where
  clients := h.clients
  connections := by
    simpa only [List.map_cons, List.map_nil, hentry] using h.connections
  hasSocket_of_ended := h.hasSocket_of_ended
  hasSocket_of_inHand := by
    intro e hmem
    rcases List.mem_cons.1 hmem with rfl | hbefore
    · exact hsocket
    · exact h.hasSocket_of_inHand e (List.mem_cons_of_mem _ hbefore)
  slots := h.slots
  finished := h.finished
  ages := h.ages
  distinct := h.distinct

/-- The socket of a client is closed. -/
lemma Balance.refuse {peer : Nat} (h : Balance ledger server [peer] taken closed) :
    Balance ledger { server with refused := server.refused ++ [peer] } [] taken closed where
  clients := by
    intro peer'
    have hbefore := h.clients peer'
    simp only [List.count_append, List.count_nil] at hbefore ⊢
    omega
  connections := h.connections
  hasSocket_of_ended := h.hasSocket_of_ended
  hasSocket_of_inHand := h.hasSocket_of_inHand
  slots := h.slots
  finished := h.finished
  ages := h.ages
  distinct := h.distinct

/-! ### Entries in the ledger -/

@[simp] lemma add_nil (ledger : Ledger) : ledger.add [] [] [] [] = ledger := by
  simp [Ledger.add]

lemma Balance.accept (h : Balance ledger server [] taken closed) (peer : Nat) :
    Balance (ledger.add [peer] [] [] []) server [peer] taken closed where
  clients := by
    intro peer'
    have hbefore := h.clients peer'
    simp only [Ledger.add, List.append_nil, List.count_append, List.count_nil] at hbefore ⊢
    omega
  connections := by simpa [Ledger.add] using h.connections
  hasSocket_of_ended := h.hasSocket_of_ended
  hasSocket_of_inHand := h.hasSocket_of_inHand
  slots := by simpa [Ledger.add] using h.slots
  finished := by simpa [Ledger.add] using h.finished
  ages := by simpa [Ledger.add] using h.ages
  distinct := by simpa [Ledger.add] using h.distinct

lemma Balance.end (h : Balance ledger server peers taken []) (id : SlotId) :
    Balance (ledger.add [] [] [id] []) server peers taken [id] where
  clients := by simpa [Ledger.add] using h.clients
  connections := by simpa [Ledger.add] using h.connections
  hasSocket_of_ended := h.hasSocket_of_ended
  hasSocket_of_inHand := h.hasSocket_of_inHand
  slots := by simpa [Ledger.add] using h.slots
  finished := by
    intro hclosing hstopped id'
    have hbefore := h.finished hclosing hstopped id'
    simp only [Ledger.add, List.append_nil, List.count_append, List.count_nil] at hbefore ⊢
    omega
  ages := by simpa [Ledger.add] using h.ages
  distinct := by simpa [Ledger.add] using h.distinct

/-! ### The slot table -/

section Slots

variable {slots : SlotTable Connection}

/-- What stands for an identity has changed, and the slot is allocated as before. -/
lemma Balance.exchange (h : Balance ledger server peers taken closed) {taken' : List Connection}
    {state new : SlotState Connection} (hstate : server.slots.state? id = some state)
    (hnew : new ≠ .vacant)
    (htaken : (taken' ++ new.value?.toList).Perm (taken ++ state.value?.toList))
    (watched : List (SlotId × Interest)) :
    Balance ledger { server with slots := server.slots.setState id.index new, watched } peers taken'
      closed := by
  have hupdate := SlotTable.state?_setState hstate hnew
  have hids := SlotTable.identities_update hupdate
  have hcontents := SlotTable.contents_update hupdate
  simp only [hstate, Option.map_some, Option.bind_some, Option.toList_some, List.singleton_append,
    List.perm_cons] at hids hcontents
  have hhand : (taken' ++ (server.slots.setState id.index new).contents).Perm
      (taken ++ server.slots.contents) := by
    refine (List.perm_append_left_iff new.value?.toList).1 ?_
    calc new.value?.toList ++ (taken' ++ (server.slots.setState id.index new).contents)
        _ ~ (taken' ++ new.value?.toList ++ (server.slots.setState id.index new).contents) := by
          rw [List.append_assoc]
          exact List.perm_append_comm_assoc _ _ _
        _ ~ (taken ++ state.value?.toList ++ (server.slots.setState id.index new).contents) :=
          htaken.append_right _
        _ ~ (taken ++ (new.value?.toList ++ server.slots.contents)) := by
          rw [List.append_assoc]
          exact hcontents.symm.append_left _
        _ ~ (new.value?.toList ++ (taken ++ server.slots.contents)) :=
          List.perm_append_comm_assoc _ _ _
  exact {
    clients := h.clients
    connections := by
      intro entry
      have hbefore := h.connections entry
      have hcount := (hhand.map Connection.entry).count_eq entry
      simp only [inHand, carried_slots, List.map_append, List.count_append] at hbefore hcount ⊢
      omega
    hasSocket_of_ended := h.hasSocket_of_ended
    hasSocket_of_inHand := by
      intro c hmem
      refine h.hasSocket_of_inHand c ?_
      have hiff := hhand.mem_iff (a := c)
      simp only [inHand, carried_slots, List.mem_append] at hiff hmem ⊢
      tauto
    slots := by
      intro id'
      rw [h.slots, hids.count_eq]
    finished := h.finished
    ages := by
      intro hphase hfreed
      simp only [SlotTable.generationAt_setState]
      exact h.ages hphase hfreed
    distinct := h.distinct }

/-- The loop takes a connection out of its slot. -/
lemma Balance.take (h : Balance ledger server peers [] closed)
    (htake : server.slots.take id = some (c, slots)) (watched : List (SlotId × Interest)) :
    Balance ledger { server with slots, watched } peers [c] closed := by
  obtain ⟨hparked, rfl⟩ := SlotTable.take_eq_some_iff.1 htake
  exact h.exchange hparked (by simp) (by simp [SlotState.value?]) watched

/-- The loop puts a connection into its slot. -/
lemma Balance.park (h : Balance ledger server peers [c] closed)
    (hlent : server.slots.state? id = some .lent) (watched : List (SlotId × Interest)) :
    Balance ledger { server with slots := server.slots.setState id.index (.parked c), watched }
      peers [] closed :=
  h.exchange hlent (by simp) (by simp [SlotState.value?]) watched

/-- The loop frees the slot of a connection that has come to its end. -/
lemma Balance.release (h : Balance ledger server peers taken [id])
    (hlent : server.slots.state? id = some .lent) :
    Balance (ledger.add [] [] [] [id]) { server with slots := (server.slots.release id).2 } peers
      taken [] := by
  have hupdate := SlotTable.state?_release hlent
  have hids := SlotTable.identities_update hupdate
  have hcontents := SlotTable.contents_update hupdate
  simp only [hlent, SlotState.value?, Option.map_some, Option.map_none, Option.bind_some,
    Option.bind_none, Option.toList_some, Option.toList_none, List.nil_append] at hids hcontents
  exact {
    clients := by simpa [Ledger.add] using h.clients
    connections := by
      intro entry
      have hbefore := h.connections entry
      have hcount := (hcontents.map Connection.entry).count_eq entry
      simp only [Ledger.add, List.append_nil, inHand, carried_slots, List.map_append,
        List.count_append] at hbefore hcount ⊢
      omega
    hasSocket_of_ended := h.hasSocket_of_ended
    hasSocket_of_inHand := by
      intro c hmem
      refine h.hasSocket_of_inHand c ?_
      have hiff := hcontents.mem_iff (a := c)
      simp only [inHand, carried_slots, List.mem_append] at hiff hmem ⊢
      tauto
    slots := by
      intro id'
      have hbefore := h.slots id'
      have hcount := hids.count_eq id'
      simp only [Ledger.add, List.append_nil, List.count_append] at hbefore hcount ⊢
      omega
    finished := by
      intro hclosing hstopped id'
      have hbefore := h.finished hclosing hstopped id'
      simp only [Ledger.add, List.append_nil, List.count_append, List.count_nil] at hbefore ⊢
      omega
    ages := by
      intro hphase hfreed
      simp only [Ledger.add, List.length_append, List.length_singleton] at hfreed ⊢
      obtain ⟨hages, hpast⟩ := h.ages hphase (by omega)
      have hid : server.slots.generationAt id.index = id.generation :=
        SlotTable.generationAt_of_state? hlent
      have hage := hages id.index
      -- the generations do not start again, since there are more of them than freeings
      have hnext : SlotId.nextGeneration id.generation = id.generation + 1 :=
        SlotTable.nextGeneration_of_lt (by omega)
      simp only [SlotTable.generationAt_release hlent, hnext]
      refine ⟨fun index => ?_, fun id' hmem => ?_⟩
      · have hindex := hages index
        split <;> omega
      · rcases List.mem_append.1 hmem with hbefore | hlast
        · have hold := hpast id' hbefore
          split
          · next heq =>
            rw [heq] at hold
            omega
          · exact hold
        · rw [List.mem_singleton.1 hlast, if_pos rfl]
          omega
    distinct := by
      intro hfreed
      simp only [Ledger.add, List.length_append, List.append_nil] at hfreed ⊢
      exact h.distinct (by omega) }

/-- The loop gives a client a slot. -/
lemma Balance.insert {peer : Nat} (h : Balance ledger server [peer] taken closed)
    (hw : server.slots.WellFormed) (hphase : server.phase ≠ .stopped)
    (hinsert : server.slots.insert (fun id => { id, peer }) = some (id, slots)) :
    Balance (ledger.add [] [(id, peer)] [] []) { server with slots } [] taken closed := by
  obtain ⟨hnone, hupdate, -⟩ := SlotTable.insert_spec hw hinsert
  have hids := SlotTable.identities_update hupdate
  have hcontents := SlotTable.contents_update hupdate
  simp only [hnone, SlotState.value?, Option.map_some, Option.map_none, Option.bind_some,
    Option.bind_none, Option.toList_some, Option.toList_none, List.nil_append] at hids hcontents
  exact {
    clients := by
      intro peer'
      have hbefore := h.clients peer'
      simp only [Ledger.add, List.append_nil, List.map_append, List.map_cons, List.map_nil,
        List.count_append, List.count_nil] at hbefore ⊢
      omega
    connections := by
      intro entry
      have hbefore := h.connections entry
      have hcount := (hcontents.map Connection.entry).count_eq entry
      simp only [Ledger.add, inHand, carried_slots, List.map_append, List.map_cons, List.map_nil,
        Connection.entry, List.count_append] at hbefore hcount ⊢
      omega
    hasSocket_of_ended := h.hasSocket_of_ended
    hasSocket_of_inHand := by
      intro c hmem
      have hiff := hcontents.mem_iff (a := c)
      simp only [inHand, carried_slots, List.mem_append, List.mem_singleton] at hiff hmem
      by_cases hc : c = { id, peer }
      · rw [hc]
      · refine h.hasSocket_of_inHand c ?_
        simp only [inHand, List.mem_append]
        tauto
    slots := by
      intro id'
      have hbefore := h.slots id'
      have hcount := hids.count_eq id'
      simp only [Ledger.add, List.append_nil, List.map_append, List.map_cons, List.map_nil,
        List.count_append] at hbefore hcount ⊢
      omega
    finished := by simpa [Ledger.add] using h.finished
    ages := by
      intro _ hfreed
      simp only [Ledger.add, List.append_nil, SlotTable.generationAt_insert hw hinsert] at hfreed ⊢
      exact h.ages hphase hfreed
    distinct := by
      intro hfreed
      simp only [Ledger.add, List.append_nil, List.map_append, List.map_cons, List.map_nil]
        at hfreed ⊢
      -- the identity has the generation of its slot, and those that have been freed an older one
      have hfresh : id ∉ ledger.freed := by
        intro hmem
        have hold := (h.ages hphase hfreed).2 id hmem
        rw [SlotTable.generationAt, ← (SlotTable.slots_insert hinsert).1] at hold
        omega
      have hvacant : id ∉ server.slots.identities := by
        simp [SlotTable.mem_identities, hnone]
      have hcount := h.slots id
      rw [List.count_eq_zero_of_not_mem hfresh, List.count_eq_zero_of_not_mem hvacant] at hcount
      rw [List.nodup_append_comm]
      exact List.nodup_cons.2 ⟨List.count_eq_zero.1 hcount, h.distinct hfreed⟩ }

end Slots

end Server

end SiteServer
