import Mathlib.Data.List.Nodup
import SiteServer.Proofs.Server.Custody
import SiteServer.Site.Calendar
import SiteServer.Storage.Edit

/-!
# Every connection has one owner

As long as the server runs, the connection of an allocated slot is in one pair of hands: it is
parked in the slot table, in a job, or in a report, or it has been closed and the report about that
has not been seen.  `owners` lists all hands that an identity is in, and `Reachable.singlyOwned`
says that there is one entry for each allocated identity and none for the others, however events,
jobs and reports follow each other, and what comes of it: two workers never move the same connection
on, a connection that comes back finds its slot, and a report of a closed connection frees its own
slot and no other.
-/

namespace SiteServer

/-- In whose hands the connection of a slot is. -/
inductive Owner where
  /-- It is parked in the slot table. -/
  | parked (connection : Connection)
  /-- A job that has not ended moves it on. -/
  | job (connection : Connection)
  /-- A job has reported that it waits. -/
  | stepped (connection : Connection)
  /-- It has been closed, and the report about that has not been seen. -/
  | closed
  deriving DecidableEq, Repr

/-- The connection that a slot has parked. -/
def SlotState.owner? : SlotState Connection → Option Owner
  | .parked connection => some (.parked connection)
  | .vacant | .lent => none

/-- What a job has in its hands of an identity. -/
def Work.owner? (id : SlotId) : Work → Option Owner
  | .accept _ => none
  | .step connection => if connection.id = id then some (.job connection) else none

/-- What a report says of an identity. -/
def Completion.owner? (id : SlotId) : Completion → Option Owner
  | .stepped connection _ => if connection.id = id then some (.stepped connection) else none
  | .closed id' => if id' = id then some .closed else none
  | .accepted _ | .acceptAgain _ => none

namespace Server

variable {H : Type} {around : Surroundings H} {server next : Server} {id : SlotId}

/-- All hands that the connection of an identity is in: the slot table, the jobs that wait in the
pool or run there, and the reports that the loop has not seen. -/
def owners (server : Server) (id : SlotId) : List Owner :=
  ((server.slots.state? id).bind SlotState.owner?).toList
    ++ server.pool.live.filterMap (Work.owner? id)
    ++ server.completions.filterMap (Completion.owner? id)

/-! ### Counting the hands -/

lemma mem_travelling {completion : Completion} {rest : List Completion}
    (hcompletions : server.completions = completion :: rest) (hid : completion.id? = some id) :
    id ∈ server.travelling := by
  rw [travelling, hcompletions, List.filterMap_cons_some hid]
  exact List.mem_append_right _ List.mem_cons_self

/-- An identity is in as many hands as it is on ways. -/
lemma length_filterMap_eq_count {α : Type} {f : α → Option Owner} {g : α → Option SlotId}
    (hfg : ∀ a, (f a).isSome ↔ g a = some id) (list : List α) :
    (list.filterMap f).length = (list.filterMap g).count id := by
  induction list with
  | nil => rfl
  | cons a rest ih =>
    have ha := hfg a
    cases hg : g a with
    | none =>
      have hf : f a = none := by simpa [hg] using ha
      rw [List.filterMap_cons_none hf, List.filterMap_cons_none hg, ih]
    | some id' =>
      rw [List.filterMap_cons_some hg, List.count_cons]
      by_cases hid : id' = id
      · obtain ⟨owner, hf⟩ := Option.isSome_iff_exists.1 (ha.2 (by rw [hg, hid]))
        simp [List.filterMap_cons_some hf, hid, ih]
      · have hf : f a = none := by simpa [hg, hid] using ha
        simp [List.filterMap_cons_none hf, hid, ih]

lemma isSome_owner?_work (id : SlotId) (work : Work) :
    (work.owner? id).isSome ↔ work.id? = some id := by
  cases work <;> simp [Work.owner?, Work.id?]

lemma isSome_owner?_completion (id : SlotId) (completion : Completion) :
    (completion.owner? id).isSome ↔ completion.id? = some id := by
  cases completion <;> simp [Completion.owner?, Completion.id?]

lemma length_owners (server : Server) (id : SlotId) :
    (server.owners id).length
      = ((server.slots.state? id).bind SlotState.owner?).toList.length
        + server.travelling.count id := by
  rw [owners, travelling, List.length_append, List.length_append,
    length_filterMap_eq_count (isSome_owner?_work id),
    length_filterMap_eq_count (isSome_owner?_completion id), List.count_append, Nat.add_assoc]

section Books

variable (h : Books server.slots server.watched server.travelling)
include h

/-- The connection of an allocated slot is in one pair of hands. -/
lemma exists_owner {state : SlotState Connection} (hstate : server.slots.state? id = some state) :
    ∃ owner, server.owners id = [owner] := by
  -- a parked connection is not on its way, and one on its way is not parked
  refine List.length_eq_one_iff.1 ?_
  have hne := SlotTable.ne_vacant_of_state? hstate
  rw [length_owners, h.count_eq, hstate]
  cases state with
  | vacant => exact absurd rfl hne
  | parked c => simp [SlotState.owner?]
  | lent => simp [SlotState.owner?]

/-- An identity that stands for nothing is in nobody's hands. -/
lemma owners_eq_nil (hstate : server.slots.state? id = none) : server.owners id = [] := by
  refine List.length_eq_zero_iff.1 ?_
  rw [length_owners, h.count_eq, hstate]
  simp

lemma nodup_travelling : server.travelling.Nodup := by
  refine List.nodup_iff_count_le_one.2 fun id => ?_
  rw [h.count_eq]
  split <;> omega

/-- Two workers move different connections on. -/
lemma id_ne_of_lt {i j : Nat} {c d : Connection} (hlt : i < j)
    (hi : server.stepping? i = some c) (hj : server.stepping? j = some d) : c.id ≠ d.id := by
  have hnodup :
      (server.pool.workers.flatMap fun worker => worker.jobs.filterMap Work.id?).Nodup := by
    have hlive := (nodup_travelling h).sublist (List.sublist_append_left _ _)
    rw [Pool.live, List.filterMap_append, List.filterMap_flatMap] at hlive
    exact hlive.sublist (List.sublist_append_right _ _)
  have hpairwise := List.pairwise_iff_getElem.1 (List.nodup_flatMap.1 hnodup).2
  -- what a worker moves on is among its jobs
  have hmem {k : Nat} {e : Connection} (hk : server.stepping? k = some e) :
      ∃ hlt : k < server.pool.workers.length,
        e.id ∈ server.pool.workers[k].jobs.filterMap Work.id? := by
    have hrunning := running?_of_stepping? hk
    unfold Pool.running? at hrunning
    split at hrunning
    · next marked slot raised found =>
      obtain ⟨hlt, hget⟩ := List.getElem?_eq_some_iff.1 found
      obtain rfl := Option.some.inj hrunning
      refine ⟨hlt, List.mem_filterMap.2 ⟨.step e, ?_, rfl⟩⟩
      rw [hget, Worker.jobs, WorkerPhase.job?]
      simp
    · simp at hrunning
  obtain ⟨hilt, hi⟩ := hmem hi
  obtain ⟨hjlt, hj⟩ := hmem hj
  intro heq
  exact hpairwise i j hilt hjlt hlt hi (heq ▸ hj)

end Books

/-! ### Closed connections -/

/-- A connection that has been reported as closed has been closed. -/
def Buried (server : Server) : Prop :=
  ∀ id, .closed id ∈ server.completions → ∃ c ∈ server.ended, c.id = id ∧ c.close = c

lemma Buried.mono (h : Buried server)
    (hcompletions : ∀ id, .closed id ∈ next.completions → Completion.closed id ∈ server.completions)
    (hended : server.ended ⊆ next.ended) : Buried next := by
  intro id hid
  obtain ⟨c, hc, hclosed⟩ := h id (hcompletions id hid)
  exact ⟨c, hended hc, hclosed⟩

lemma Buried.finishJob {reported : Server} {worker : Nat} (h : Buried reported)
    (hfinish : reported.finishJob? worker = some next) : Buried next := by
  obtain ⟨pool, -, rfl⟩ := Option.map_eq_some_iff.1 hfinish
  exact h

lemma Buried.watch (h : Buried server) (registers : Bool) (id : SlotId) (c : Connection)
    (interest : Interest) : Buried (server.watch registers id c interest) := by
  refine h.mono (by simp [(pool_watch server registers id c interest).2.1]) ?_
  unfold Server.watch
  split
  · split
    · exact List.Subset.refl _
    · exact List.subset_append_left _ _
  · exact List.subset_append_left _ _

lemma Buried.process (h : Buried server) (registers : Bool) (completion : Completion) :
    Buried (server.process registers completion) := by
  cases completion with
  | accepted peer =>
    simp only [Server.process, welcome]
    split
    · exact h
    · split
      · exact h
      · refine Buried.watch ?_ registers _ _ _
        exact h
  | acceptAgain listener => exact h
  | stepped c interest => exact h.watch registers c.id c interest
  | closed id => exact h

lemma Buried.handle (h : Buried server) (token : Nat) : Buried (server.handle token) := by
  unfold Server.handle
  split
  · exact h
  · split
    · exact h
    · split
      · unfold dispatch
        split <;> exact h
      · exact h

lemma Buried.loop (h : Buried server) (registers : Bool)
    (hloop : server.loop? registers = some next) : Buried next := by
  have hrest (completion : Completion) (rest : List Completion)
      (hcompletions : server.completions = completion :: rest) :
      Buried { server with completions := rest } :=
    h.mono (fun id hid => by simp only [hcompletions, List.mem_cons]; exact .inr hid)
      (List.Subset.refl _)
  unfold loop? at hloop
  split at hloop
  case h_2 => simp at hloop
  case h_9 => simp at hloop
  case h_4 token rest hphase =>
    obtain rfl := Option.some.inj hloop
    refine Buried.handle ?_ token
    exact h
  case h_5 =>
    split at hloop
    · obtain rfl := Option.some.inj hloop
      exact h
    · next completion rest hcompletions =>
      obtain rfl := Option.some.inj hloop
      exact (hrest completion rest hcompletions).process registers completion
  case h_7 =>
    obtain ⟨pool, -, rfl⟩ := Option.map_eq_some_iff.1 hloop
    exact h
  case h_8 =>
    split at hloop
    · obtain rfl := Option.some.inj hloop
      exact h.mono (fun _ hid => hid) (List.subset_append_left _ _)
    · next completion rest hcompletions =>
      obtain rfl := Option.some.inj hloop
      have hdrop := hrest completion rest hcompletions
      cases completion with
      | stepped c interest => exact hdrop.mono (fun _ hid => hid) (List.subset_append_left _ _)
      | _ => exact hdrop
  all_goals
    obtain rfl := Option.some.inj hloop
    exact h

lemma Buried.step (h : Buried server) {worker : Nat} {turn : Turn}
    (hstep : server.step? around worker turn = some next) : Buried next := by
  unfold step? at hstep
  split at hstep
  · simp at hstep
  · split at hstep
    · refine Buried.finishJob ?_ hstep
      exact h.mono (by simp [complete]) (List.Subset.refl _)
    · next after hafter =>
      refine Buried.finishJob (fun id hid => ?_) hstep
      simp only [complete, List.mem_append, List.mem_singleton, Completion.closed.injEq] at hid ⊢
      rcases hid with hbefore | rfl
      · obtain ⟨c, hc, hclosed⟩ := h id hbefore
        exact ⟨c, .inl hc, hclosed⟩
      · exact ⟨_, .inr rfl, rfl, rfl⟩

lemma Buried.move (h : Buried server) {move : ServerMove}
    (hmove : server.move? around move = some next) : Buried next := by
  cases move with
  | arrive listener peer =>
    obtain ⟨-, hnext⟩ := Option.ite_none_right_eq_some.1 hmove
    obtain rfl := Option.some.inj hnext
    exact h
  | pool move =>
    obtain ⟨-, hnext⟩ := Option.ite_none_right_eq_some.1 hmove
    obtain ⟨pool, -, rfl⟩ := Option.map_eq_some_iff.1 hnext
    exact h
  | accept worker =>
    simp only [move?, accept?] at hmove
    split at hmove
    · simp at hmove
    · obtain ⟨peer, -, rfl⟩ := Option.map_eq_some_iff.1 hmove
      exact h.mono (by simp [complete]) (List.Subset.refl _)
  | acceptEnd worker =>
    simp only [move?] at hmove
    split at hmove
    · simp at hmove
    · exact h.finishJob (Option.ite_none_right_eq_some.1 hmove).2
  | acceptRetry worker =>
    simp only [move?] at hmove
    split at hmove
    · simp at hmove
    · refine Buried.finishJob ?_ hmove
      exact h.mono (by simp [complete]) (List.Subset.refl _)
  | step worker turn => exact h.step hmove
  | poll tokens =>
    obtain ⟨-, hnext⟩ := Option.ite_none_right_eq_some.1 hmove
    obtain rfl := Option.some.inj hnext
    exact h
  | loop registers => exact h.loop registers hmove
  | requestStop =>
    obtain rfl := Option.some.inj hmove
    exact h

lemma Reachable.buried {listeners workers connectionLimit : Nat}
    (h : Reachable H listeners workers connectionLimit server) : Buried server :=
  Run.invariant (fun hburied hmove => hburied.move hmove) h fun id hid => by
    simp [Server.start] at hid

/-! ### One owner -/

/-- What a running server promises about its connections. -/
structure SinglyOwned (server : Server) : Prop where
  exists_owner : ∀ id state, server.slots.state? id = some state →
    ∃ owner, server.owners id = [owner]
  owners_eq_nil : ∀ id, server.slots.state? id = none → server.owners id = []
  /-- A parked connection sits in its own slot. -/
  id_eq : ∀ id c, server.slots.state? id = some (.parked c) → c.id = id
  /-- A socket is registered exactly while its connection is parked. -/
  watched_iff : ∀ id, (∃ interest, (id, interest) ∈ server.watched) ↔
    ∃ c, server.slots.state? id = some (.parked c)
  nodup_watched : (server.watched.map Prod.fst).Nodup
  /-- What has been reported as closed has been closed. -/
  closed : ∀ id, .closed id ∈ server.completions → ∃ c ∈ server.ended, c.id = id ∧ c.close = c
  /-- Two workers do not move the same connection on. -/
  id_ne : ∀ i j c d, i ≠ j → server.stepping? i = some c → server.stepping? j = some d → c.id ≠ d.id
  /-- A connection that waits finds its slot when it comes back. -/
  park_stepped : ∀ c interest rest, server.completions = .stepped c interest :: rest →
    (server.slots.park c.id c).isSome
  /-- So does a new one, which is taken out of its slot to be registered. -/
  park_accepted : ∀ peer id slots, server.slots.insert (fun id => { id, peer }) = some (id, slots) →
    ∃ lent, slots.take id = some ({ id, peer }, lent) ∧ (lent.park id { id, peer }).isSome
  /-- A report of a closed connection frees the slot of that connection, and nothing else. -/
  free_closed : ∀ id rest registers, server.phase = .draining →
    server.completions = .closed id :: rest →
    server.owners id = [.closed] ∧ server.slots.state? id = some .lent ∧
      ∃ next, server.loop? registers = some next ∧
        next.slots.state? = Function.update server.slots.state? id none ∧
        next.owners id = [] ∧ ∀ id', id' ≠ id → next.owners id' = server.owners id'

/-- A closed connection is in no other hands than the report about it. -/
lemma owners_of_mem_closed (h : Books server.slots server.watched server.travelling)
    (hmem : .closed id ∈ server.completions) :
    server.owners id = [.closed] ∧ server.slots.state? id = some .lent := by
  have htravels : id ∈ server.travelling :=
    List.mem_append_right _ (List.mem_filterMap.2 ⟨_, hmem, rfl⟩)
  have hlent := h.state?_eq_lent htravels
  obtain ⟨owner, howner⟩ := exists_owner h hlent
  -- the one owner is the one that the report names
  have hclosed : Owner.closed ∈ server.owners id := by
    refine List.mem_append_right _ (List.mem_filterMap.2 ⟨.closed id, hmem, ?_⟩)
    rw [Completion.owner?, if_pos rfl]
  rw [howner, List.mem_singleton] at hclosed
  exact ⟨by rw [howner, hclosed], hlent⟩

lemma owners_of_closed (h : Books server.slots server.watched server.travelling)
    {rest : List Completion} (hcompletions : server.completions = .closed id :: rest) :
    server.owners id = [.closed] ∧ server.slots.state? id = some .lent :=
  owners_of_mem_closed h (hcompletions ▸ List.mem_cons_self)

/-- A report of a closed connection is taken from the channel. -/
lemma loop?_of_closed {rest : List Completion} (registers : Bool)
    (hphase : server.phase = .draining)
    (hcompletions : server.completions = .closed id :: rest) :
    server.loop? registers
      = some { server with completions := rest, slots := (server.slots.release id).2 } := by
  simp only [loop?, hphase, hcompletions, process]

/-- As long as nobody has begun to shut the pool down, every connection has one owner, whatever the
server has answered from at each moment. -/
theorem Reachable.singlyOwned {listeners workers connectionLimit : Nat}
    (h : Reachable H listeners workers connectionLimit server)
    (hactive : server.pool.active = true) : SinglyOwned server := by
  have hbooks := h.kept.books hactive
  refine ⟨fun id state => exists_owner hbooks, fun id => owners_eq_nil hbooks, hbooks.id_eq, ?_,
    hbooks.nodup_watched, h.buried, ?_, ?_, ?_, ?_⟩
  · intro id
    rw [← hbooks.mem_watched_iff]
    simp
  · intro i j c d hne hi hj
    rcases Nat.lt_or_gt_of_ne hne with hlt | hgt
    · exact id_ne_of_lt hbooks hlt hi hj
    · exact (id_ne_of_lt hbooks hgt hj hi).symm
  · intro c interest rest hcompletions
    have hlent := hbooks.state?_eq_lent (mem_travelling hcompletions rfl)
    rw [SlotTable.park_eq_some_iff.2 ⟨hlent, rfl⟩]
    rfl
  · intro peer id slots hinsert
    obtain ⟨-, hslots, -⟩ := SlotTable.insert_spec hbooks.wellFormed hinsert
    have hparked : slots.state? id = some (.parked { id, peer }) := by
      rw [hslots, Function.update_self]
    refine ⟨_, SlotTable.take_eq_some_iff.2 ⟨hparked, rfl⟩, ?_⟩
    have hlent := (hbooks.enroll hinsert).state?_eq_lent List.mem_cons_self
    rw [SlotTable.park_eq_some_iff.2 ⟨hlent, rfl⟩]
    rfl
  · intro id rest registers hphase hcompletions
    obtain ⟨howners, hlent⟩ := owners_of_closed hbooks hcompletions
    have hloop := loop?_of_closed registers hphase hcompletions
    have hfreed := SlotTable.state?_release hlent
    refine ⟨howners, hlent, _, hloop, hfreed, ?_, fun id' hne => ?_⟩
    · refine owners_eq_nil ((h.kept.loop registers hloop).books hactive) ?_
      simp only [hfreed, Function.update_self]
    · have hother : (Completion.closed id).owner? id' = none := if_neg (Ne.symm hne)
      simp only [owners, hfreed, Function.update_of_ne hne, hcompletions,
        List.filterMap_cons_none hother]

/-! ### An event that comes twice -/

/-- A site without files and handlers. -/
def bareSite : Surroundings Empty where
  site := { root := ['/'], index := [], policy := .contained, routes := {}, zone := .universal }
  ask := fun handler => nomatch handler
  date := []
  tree := .empty 0

/-- A client is accepted by the only worker, and then the event that its request has arrived comes
twice. -/
def doubleEvent : List ServerMove :=
  [.arrive 0 7, .loop true, .poll [Token.listener 0, Token.waker, 5], .loop true, .loop true,
    .loop true, .loop true, .pool .raise]
    ++ List.replicate 6 (.pool .controller) ++ List.replicate 5 (.pool (.worker 0))
    ++ [.accept 0, .acceptEnd 0, .loop true, .loop true, .loop true, .loop true,
      .poll [SlotId.token ⟨0, 0⟩, SlotId.token ⟨0, 0⟩], .loop true, .loop true, .loop true]

/-- The connection is in one job only. -/
theorem singlyOwned_doubleEvent :
    ∃ server : Server, Reachable Empty 1 1 4 server ∧ server.pool.active = true ∧
      server.owners ⟨0, 0⟩ = [.job { id := ⟨0, 0⟩, peer := 7 }] ∧ SinglyOwned server := by
  have hmoves :
      ((doubleEvent.foldlM ((Journal.none Empty).follow? bareSite) ((), start 1 1 4)).map
        fun (_, server) => (server.pool.active, server.owners ⟨0, 0⟩))
          = some (true, [.job { id := ⟨0, 0⟩, peer := 7 }]) := by
    decide +kernel
  obtain ⟨⟨_, server⟩, hserver, hfacts⟩ := Option.map_eq_some_iff.1 hmoves
  obtain ⟨hactive, howners⟩ := Prod.mk.inj hfacts
  have hreachable : Reachable Empty 1 1 4 server := Run.of_foldlM .start hserver
  exact ⟨server, hreachable, hactive, howners, hreachable.singlyOwned hactive⟩

end Server

end SiteServer
