import SiteServer.Proofs.Server.Turnover

/-!
# The accounts of a server

A ledger is kept of a server from its start on, whatever it answers from at each moment
(`Audited`).  What it says of slots that are freed is read off the slot table, before and
after each move.  `Audited.accounts` puts together what the ledger and the server say of each other:
no client and no connection is lost or counted twice, a slot is freed once and only for a connection
that has come to its end, and when the server has stopped, everything that it ever accepted has been
closed.
-/

open scoped List

namespace SiteServer.Server

variable {H : Type} {around : Surroundings H} {server next : Server} {ledger : Ledger}
  {limit listeners workers connectionLimit : Nat}

/-! ### The ledger of a run -/

/-- The identities whose slots are allocated before a move, or given away by it, and are not
allocated after it. -/
def released (server next : Server) (move : ServerMove) : List SlotId :=
  (server.slots.identities ++ (server.enrolled? move).toList.map Prod.fst).filter fun id =>
    (next.slots.state? id).isNone

/-- The ledger after a move. -/
def enter (around : Surroundings H) (server next : Server) (ledger : Ledger) (move : ServerMove) :
    Ledger :=
  ledger.add (server.taken? move).toList (server.enrolled? move).toList
    (server.finished? around move).toList (server.released next move)

/-- The journal of what becomes of clients and slots. -/
def ledgerJournal (H : Type) : Journal H Ledger where
  blank := {}
  enter around server next move ledger := server.enter around next ledger move

/-- A server that a new one can come to, with its ledger. -/
def Audited (H : Type) (listeners workers connectionLimit : Nat) (ledger : Ledger)
    (server : Server) : Prop :=
  Run (ledgerJournal H) (.start listeners workers connectionLimit) ledger server

/-- The identity that a client is given was not allocated. -/
lemma nodup_enrolled (hw : server.slots.WellFormed) (move : ServerMove) :
    (server.slots.identities ++ (server.enrolled? move).toList.map Prod.fst).Nodup := by
  have hids := SlotTable.nodup_identities server.slots
  rcases henrolled : server.enrolled? move with _ | ⟨id, peer⟩
  · simpa using hids
  · have hvacant : id ∉ server.slots.identities := by
      cases move with
      | loop registers =>
        simp only [enrolled?, admitted?] at henrolled
        split at henrolled
        · obtain ⟨⟨id', slots⟩, hinsert, hid⟩ := Option.map_eq_some_iff.1 henrolled
          obtain ⟨rfl, rfl⟩ := Prod.mk.inj hid
          simp [SlotTable.mem_identities, (SlotTable.insert_spec hw hinsert).1]
        · simp at henrolled
      | _ => simp [enrolled?] at henrolled
    rw [List.nodup_append_comm]
    exact List.nodup_cons.2 ⟨hvacant, hids⟩

/-- The slots that are seen to be freed are those that the balance says. -/
lemma released_perm {move : ServerMove} {accepted : List Nat} {finished freed : List SlotId}
    (h : Balance ledger server [] [] []) (hw : server.slots.WellFormed)
    (hnext : Balance (ledger.add accepted (server.enrolled? move).toList finished freed) next
      [] [] []) : (server.released next move).Perm freed := by
  have hperm : (server.slots.identities ++ (server.enrolled? move).toList.map Prod.fst).Perm
      (freed ++ next.slots.identities) := by
    refine List.perm_iff_count.2 fun id => ?_
    have hbefore := h.slots id
    have hafter := hnext.slots id
    simp only [Ledger.add, List.map_append, List.count_append] at hbefore hafter ⊢
    omega
  have hnodup := hperm.nodup_iff.1 (nodup_enrolled hw move)
  have hfreed : freed.filter (fun id => (next.slots.state? id).isNone) = freed := by
    refine List.filter_eq_self.2 fun id hmem => ?_
    have hnot := List.disjoint_of_nodup_append hnodup hmem
    rw [SlotTable.mem_identities] at hnot
    simpa using hnot
  have hkept : next.slots.identities.filter (fun id => (next.slots.state? id).isNone) = [] := by
    refine List.filter_eq_nil_iff.2 fun id hmem => ?_
    have hsome := SlotTable.mem_identities.1 hmem
    simp [Option.isSome_iff_ne_none.1 hsome]
  have hfilter := hperm.filter fun id => (next.slots.state? id).isNone
  rwa [List.filter_append freed, hfreed, hkept, List.append_nil] at hfilter

/-- It does not matter in which order slots have been freed. -/
lemma Balance.of_freed_perm {accepted : List Nat} {admitted : List (SlotId × Nat)}
    {finished freed freed' : List SlotId} (hperm : freed'.Perm freed)
    (h : Balance (ledger.add accepted admitted finished freed) server [] [] []) :
    Balance (ledger.add accepted admitted finished freed') server [] [] [] where
  clients := h.clients
  connections := h.connections
  hasSocket_of_ended := h.hasSocket_of_ended
  hasSocket_of_inHand := h.hasSocket_of_inHand
  slots := by
    intro id
    have hbefore := h.slots id
    simp only [Ledger.add, List.count_append, hperm.count_eq] at hbefore ⊢
    exact hbefore
  finished := by
    intro hclosing hstopped id
    have hbefore := h.finished hclosing hstopped id
    simp only [Ledger.add, List.count_append, hperm.count_eq] at hbefore ⊢
    exact hbefore
  ages := by
    intro hphase hfreed
    simp only [Ledger.add, List.length_append, hperm.length_eq, List.mem_append, hperm.mem_iff]
      at hfreed ⊢
    have hbefore := h.ages hphase (by simpa [Ledger.add] using hfreed)
    simpa only [Ledger.add, List.length_append, List.mem_append] using hbefore
  distinct := by
    intro hfreed
    simp only [Ledger.add, List.length_append, hperm.length_eq] at hfreed
    exact h.distinct (by simpa [Ledger.add] using hfreed)

/-- At the start there is nothing to be counted. -/
lemma balance_start (listeners workers connectionLimit : Nat) :
    Balance {} (start listeners workers connectionLimit) [] [] [] := by
  have hids : (start listeners workers connectionLimit).slots.identities = [] := rfl
  have hheld : (start listeners workers connectionLimit).pool.held = [] := by
    simp [start, Pool.start, Pool.held, Pool.live, Pool.discarded, ControllerPhase.job?,
      Worker.jobs, WorkerPhase.job?]
  have hhand : (start listeners workers connectionLimit).inHand = [] := by
    rw [inHand, SlotTable.contents, hids, carried, hheld]
    rfl
  exact {
    clients := fun _ => rfl
    connections := by
      intro entry
      rw [hhand]
      rfl
    hasSocket_of_ended := by simp [start]
    hasSocket_of_inHand := by simp [hhand]
    slots := by
      intro id
      rw [hids]
      rfl
    finished := fun _ _ _ => rfl
    ages := fun _ _ => ⟨fun index => by simp [start, SlotTable.generationAt,
      SlotTable.withCapacity], by simp⟩
    distinct := fun _ => List.nodup_nil }

/-- Along a run the ledger balances. -/
lemma Audited.balance (h : Audited H listeners workers connectionLimit ledger server) :
    Balance ledger server [] [] [] := by
  induction h with
  | start => exact balance_start _ _ _
  | step _ hbefore hmove ih =>
    have hs := hbefore.staged_of_start
    obtain ⟨freed, hnext⟩ := ih.move hs (moved_of_move? hmove)
    exact hnext.of_freed_perm (released_perm ih hs.wellFormed hnext)

/-! ### The accounts -/

/-- What the loop does with a client that has been accepted: it is given a slot under an identity
that nobody has, and its connection is parked there or closed; or its socket is closed, since all
slots are allocated, and nothing else happens. -/
inductive Welcomed (limit : Nat) (server : Server) (peer : Nat) (registers : Bool) (next : Server) :
    Prop where
  | admitted {id : SlotId} (room : server.slots.size < limit)
    (admitted : server.admitted? = some (id, peer)) (vacant : server.slots.state? id = none)
    (unowned : server.owners id = []) (refused : next.refused = server.refused)
    (outcome : if registers then next.slots.state? id = some (.parked { id, peer })
      else next.slots.state? id = none ∧ Connection.close { id, peer } ∈ next.ended)
  | refused (full : server.slots.size = limit)
    (refused : next.refused = server.refused ++ [peer]) (slots : next.slots = server.slots)
    (ended : next.ended = server.ended) (pool : next.pool = server.pool)

/-- What a ledger and its server say of each other, when `limit` slots may be allocated. -/
structure Accounts (limit : Nat) (ledger : Ledger) (server : Server) : Prop where
  size_eq : server.slots.size = server.slots.identities.length
  size_le : server.slots.size ≤ limit
  /-- A job that accepts a client reports it. -/
  reported : ∀ worker next, server.accept? worker = some next →
    ∃ peer, server.taken? (.accept worker) = some peer ∧
      next.completions = server.completions ++ [.accepted peer]
  /-- A client that has been accepted is in one report, or has been refused, or has been given a
  slot. -/
  accepted_perm : ledger.accepted.Perm
    (server.completions.filterMap Completion.peer? ++ server.refused
      ++ ledger.admitted.map Prod.snd)
  welcomed : ∀ peer rest registers, server.phase = .draining →
    server.completions = .accepted peer :: rest →
    ∃ next, server.loop? registers = some next ∧ next.completions = rest ∧
      Welcomed limit server peer registers next
  /-- A client that has been given a slot has one connection, whose socket is open until it has
  come to its end. -/
  admitted_perm : ledger.admitted.Perm ((server.ended ++ server.inHand).map Connection.entry)
  hasSocket_of_ended : ∀ c ∈ server.ended, c.hasSocket = false
  hasSocket_of_inHand : ∀ c ∈ server.inHand, c.hasSocket = true
  /-- A slot that has been given away is allocated, or has been freed once. -/
  slots_perm : (ledger.admitted.map Prod.fst).Perm (ledger.freed ++ server.slots.identities)
  nodup : ledger.freed.length < SlotId.generationCount →
    (ledger.admitted.map Prod.fst).Nodup ∧ ledger.freed.Nodup
  /-- Before everything is closed, a slot has been freed when the loop has seen that its connection
  has come to its end, and not otherwise. -/
  finished_perm : server.phase ≠ .closing → server.phase ≠ .stopped →
    ledger.finished.Perm (ledger.freed ++ server.completions.filterMap Completion.closed?)
  counted : server.phase ≠ .draining → server.phase ≠ .publishing →
    server.connectionCount = server.slots.size
  /-- When nothing is on its way, the allocated slots are those of open sockets. -/
  quiet : server.pool.active = true → server.pool.live = [] → server.completions = [] →
    server.slots.size = (server.ended ++ server.inHand).countP Connection.hasSocket ∧
      (server.phase ≠ .draining → server.phase ≠ .publishing →
        server.connectionCount = (server.ended ++ server.inHand).countP Connection.hasSocket)
  stopped : server.phase = .stopped → server.inHand = [] ∧
    ledger.accepted.Perm (server.refused ++ server.ended.map Connection.peer) ∧
    server.slots.size = 0 ∧ server.connectionCount = 0

/-- A client for which there is a slot is given it. -/
lemma Staged.welcomed_of_insert (hs : Staged limit server) {peer : Nat} {id : SlotId}
    {slots : SlotTable Connection} {rest : List Completion} (hphase : server.phase = .draining)
    (hcompletions : server.completions = .accepted peer :: rest)
    (hinsert : server.slots.insert (fun id => { id, peer }) = some (id, slots))
    (registers : Bool) :
    Welcomed limit server peer registers
      ({ server with completions := rest }.welcome registers peer) := by
  have hbooks := hs.kept.books (hs.active (by rw [hphase]; rfl))
  obtain ⟨hvacant, hslots, -⟩ := SlotTable.insert_spec hs.wellFormed hinsert
  have hroom : server.slots.size < limit := by
    by_contra hfull
    rw [(SlotTable.insert_eq_none_iff hs.wellFormed hs.within).2 (Nat.not_lt.1 hfull)] at hinsert
    simp at hinsert
  have hadmitted : server.admitted? = some (id, peer) := by
    simp [admitted?, hphase, hcompletions, hinsert]
  have hparked : slots.state? id = some (.parked { id, peer }) := by
    rw [hslots, Function.update_self]
  have htake : slots.take id = some ({ id, peer }, slots.setState id.index .lent) :=
    SlotTable.take_eq_some_iff.2 ⟨hparked, rfl⟩
  have hlent : (slots.setState id.index .lent).state? id = some .lent := by
    rw [SlotTable.state?_setState hparked (by simp), Function.update_self]
  refine .admitted hroom hadmitted hvacant (owners_eq_nil hbooks hvacant) ?_ ?_
  · simp only [welcome, hinsert, htake, watch]
    split
    · rw [SlotTable.park_eq_some_iff.2 ⟨hlent, rfl⟩]
    · rfl
  · cases registers with
    | true =>
      simp only [welcome, hinsert, htake, watch, Bool.and_self, if_true,
        SlotTable.park_eq_some_iff.2 ⟨hlent, rfl⟩]
      rw [SlotTable.state?_setState hlent (by simp), Function.update_self]
    | false =>
      simp only [welcome, hinsert, htake, watch, Bool.and_false, Bool.false_eq_true, if_false]
      refine ⟨?_, by simp [bury]⟩
      simp only [bury]
      rw [SlotTable.state?_release hlent, Function.update_self]

lemma completions_welcome (server : Server) (registers : Bool) (peer : Nat) :
    (server.welcome registers peer).completions = server.completions := by
  unfold welcome
  split
  · rfl
  · split
    · rfl
    · exact (pool_watch _ _ _ _ _).2.1

/-- The loop welcomes the client that the oldest report is about. -/
lemma Staged.welcomed (hs : Staged limit server) {peer : Nat} {rest : List Completion}
    (registers : Bool) (hphase : server.phase = .draining)
    (hcompletions : server.completions = .accepted peer :: rest) :
    ∃ next, server.loop? registers = some next ∧ next.completions = rest ∧
      Welcomed limit server peer registers next := by
  have hloop : server.loop? registers
      = some ({ server with completions := rest }.welcome registers peer) := by
    simp only [loop?, hphase, hcompletions, process]
  refine ⟨_, hloop, completions_welcome _ registers peer, ?_⟩
  rcases hinsert : server.slots.insert fun id => ({ id, peer } : Connection) with _ | ⟨id, slots⟩
  · have hfull := (SlotTable.insert_eq_none_iff hs.wellFormed hs.within).1 hinsert
    have hle : server.slots.size ≤ limit := Nat.le_trans (Nat.sub_le _ _) hs.within.length_le
    simp only [welcome, hinsert]
    exact .refused (Nat.le_antisymm hle hfull) rfl rfl rfl rfl
  · exact hs.welcomed_of_insert hphase hcompletions hinsert registers

lemma reported_of_accept? {worker : Nat} (haccept : server.accept? worker = some next) :
    ∃ peer, server.taken? (.accept worker) = some peer ∧
      next.completions = server.completions ++ [.accepted peer] := by
  unfold accept? at haccept
  split at haccept
  · simp at haccept
  · next listener hlistener =>
    obtain ⟨peer, hpeer, rfl⟩ := Option.map_eq_some_iff.1 haccept
    exact ⟨peer, by simp [taken?, hlistener, hpeer], rfl⟩

/-- When no job and no report is left, every connection in hand is parked. -/
lemma Staged.inHand_of_quiet (hs : Staged limit server) (hactive : server.pool.active = true)
    (hlive : server.pool.live = []) (hcompletions : server.completions = []) :
    server.inHand = server.slots.contents ∧ server.slots.contents.length = server.slots.size := by
  have hheld : server.pool.held = [] := by
    rw [Pool.held, hlive, hs.inStep.discarded_eq hactive, List.append_nil]
  have hcarried : server.carried = [] := by
    rw [carried, hheld, List.filterMap_nil, ite_self]
  have htravelling : server.travelling = [] := by
    rw [travelling, hlive, hcompletions, List.filterMap_nil, List.filterMap_nil, List.append_nil]
  refine ⟨?_, SlotTable.length_contents hs.wellFormed fun id hlent => ?_⟩
  · rw [inHand, hcarried, hcompletions, List.filterMap_nil, List.append_nil, List.append_nil]
  · -- a slot is lent while its connection is on its way
    have hcount := (hs.kept.books hactive).count_eq id
    simp [htravelling, hlent] at hcount

/-- **Nothing that a server has accepted is lost.**  Whatever clients, events, jobs and the loop do,
in whatever order, and whatever the server answers from:

* no more slots are allocated than the limit and the identities allow;
* a client that is accepted is reported once, and then it is given a slot under an identity that is
  not in use, or, only when all slots are allocated, its socket is closed and nothing else happens;
* a slot is freed once, and only when the loop has seen that its connection has come to its end: by
  its last step, by a step that broke down, or because its socket could not be registered;
* so when no job and no report is left, the published number is that of the open sockets;
* when the server has stopped, every client that it ever accepted has been refused or has a closed
  connection, wherever that was before, and no slot is allocated. -/
theorem Audited.accounts (h : Audited H listeners workers connectionLimit ledger server) :
    Accounts (min connectionLimit SlotId.indexCount) ledger server := by
  have hs := Run.staged_of_start h
  have hbalance := h.balance
  have hslots : (ledger.admitted.map Prod.fst).Perm (ledger.freed ++ server.slots.identities) := by
    refine List.perm_iff_count.2 fun id => ?_
    rw [hbalance.slots, List.count_append]
  have hadmitted : ledger.admitted.Perm ((server.ended ++ server.inHand).map Connection.entry) := by
    refine List.perm_iff_count.2 fun entry => ?_
    rw [hbalance.connections, List.map_append, List.count_append, List.map_nil, List.count_nil,
      Nat.zero_add]
  have hended := hbalance.hasSocket_of_ended
  have hinHand : ∀ c ∈ server.inHand, c.hasSocket = true := hbalance.hasSocket_of_inHand
  exact {
    size_eq := (SlotTable.length_identities hs.wellFormed).symm
    size_le := Nat.le_trans (Nat.sub_le _ _) hs.within.length_le
    reported := fun worker next => reported_of_accept?
    accepted_perm := by
      refine List.perm_iff_count.2 fun peer => ?_
      rw [hbalance.clients, List.count_append, List.count_append, List.count_nil, Nat.zero_add]
    welcomed := fun peer rest registers => hs.welcomed registers
    admitted_perm := hadmitted
    hasSocket_of_ended := hended
    hasSocket_of_inHand := hinHand
    slots_perm := hslots
    nodup := by
      intro hfreed
      have hdistinct := hbalance.distinct hfreed
      exact ⟨hdistinct, (hslots.nodup_iff.1 hdistinct).of_append_left⟩
    finished_perm := by
      intro hclosing hstopped
      refine List.perm_iff_count.2 fun id => ?_
      rw [hbalance.finished hclosing hstopped, List.count_append, List.count_nil, Nat.add_zero]
    counted := hs.counted
    quiet := by
      intro hactive hlive hcompletions
      obtain ⟨hparked, hlength⟩ := hs.inHand_of_quiet hactive hlive hcompletions
      have hopen : (server.ended ++ server.inHand).countP Connection.hasSocket
          = server.slots.size := by
        rw [List.countP_append, List.countP_eq_zero.2 fun c hc => by simp [hended c hc],
          List.countP_eq_length.2 hinHand, Nat.zero_add, hparked, hlength]
      rw [hopen]
      exact ⟨rfl, hs.counted⟩
    stopped := by
      intro hstopped
      obtain ⟨hcompletions, hidentities⟩ := hs.emptied hstopped
      have hrest : server.inHand = [] := by
        rw [inHand, SlotTable.contents, hidentities, carried, if_pos hstopped, hcompletions]
        rfl
      have hsize : server.slots.size = 0 := by
        rw [← SlotTable.length_identities hs.wellFormed, hidentities]
        rfl
      refine ⟨hrest, List.perm_iff_count.2 fun peer => ?_, hsize, ?_⟩
      · have hpeers : (ledger.admitted.map Prod.snd).Perm (server.ended.map Connection.peer) := by
          simpa [hrest, Connection.entry, Function.comp_def] using hadmitted.map Prod.snd
        rw [hbalance.clients, hcompletions, List.count_append, hpeers.count_eq]
        simp
      · rw [hs.counted (by simp [hstopped]) (by simp [hstopped]), hsize] }

/-- Two clients come to a server that has one slot; then the one that has got it sends something,
and the server is stopped before a worker takes the job. -/
def fullHouse : List ServerMove :=
  List.flatten [
    [.arrive 0 7, .arrive 0 8, .loop true, .poll [Token.listener 0]],
    List.replicate 4 (.loop true), [.pool .raise],
    List.replicate 6 (.pool .controller), List.replicate 5 (.pool (.worker 0)),
    [.accept 0, .accept 0, .acceptEnd 0, .loop true, .poll [Token.waker]],
    List.replicate 7 (.loop true), [.poll [SlotId.token ⟨0, 0⟩], .loop true, .requestStop],
    List.replicate 8 (.loop true),
    List.replicate 3 (.pool .controller), List.replicate 5 (.pool (.worker 0)),
    List.replicate 3 (.loop true)]

theorem accounts_fullHouse :
    ∃ ledger server, Audited Empty 1 1 1 ledger server ∧ server.phase = .stopped ∧
      ledger.accepted = [7, 8] ∧ server.refused = [8] ∧ server.ended.map Connection.peer = [7] ∧
      ledger.finished = [] ∧ Accounts 1 ledger server := by
  have hmoves : ((fullHouse.foldlM ((ledgerJournal Empty).follow? bareSite)
      ({}, start 1 1 1)).map fun (ledger, server) =>
        (server.phase, ledger.accepted, server.refused, server.ended.map Connection.peer,
          ledger.finished)) = some (.stopped, [7, 8], [8], [7], []) := by
    decide +kernel
  obtain ⟨⟨ledger, server⟩, hlast, hfacts⟩ := Option.map_eq_some_iff.1 hmoves
  simp only [Prod.mk.injEq] at hfacts
  obtain ⟨hphase, haccepted, hrefused, hended, hfinished⟩ := hfacts
  have haudited : Audited Empty 1 1 1 ledger server := Run.of_foldlM .start hlast
  exact ⟨ledger, server, haudited, hphase, haccepted, hrefused, hended, hfinished,
    haudited.accounts⟩

end SiteServer.Server
