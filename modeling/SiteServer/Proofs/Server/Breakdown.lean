import SiteServer.Proofs.Connection.Withholding
import SiteServer.Proofs.Server.Continuation
import SiteServer.Proofs.Server.Hands

/-!
# A handler that breaks down

When the handler of a request breaks down in the middle of a step, the job goes on and ends as any
other (`GivesUp`): it closes the connection, to which nothing has been written, and reports its
identity.  Whatever happens afterwards, the worker goes back to its slot, and the slot of the
connection is lent until the loop has seen the report or closes everything; then it is freed, and
not a second time under this identity (`Aftermath`).

Until the slot is freed, the report waits in the channel, or the loop has thrown it away since it
closes everything (`Awaited`); no other report is about this identity, as what is on its way is on
one way only.
-/

open scoped List

namespace SiteServer

/-! ### The end of a job in the pool -/

/-- Of what is not about the job that has ended, the jobs say what they have said before. -/
lemma Pool.Moved.filterMap_live {J β : Type} {pool next : Pool J} {i : Nat} {ending : Ending}
    {job : J} {f : J → Option β} (moved : Pool.Moved pool (.finish i ending) next)
    (running : pool.running? i = some job) (hf : f job = none) :
    next.live.filterMap f = pool.live.filterMap f := by
  cases moved with
  | @finish index worker job' ending found phase =>
    obtain ⟨_, marked, slot, raised⟩ := worker
    obtain rfl := phase
    rw [running?, found] at running
    obtain rfl := Option.some.inj running
    have hjobs : ((pool.workers.set i ⟨phaseAfter ending, marked, slot, raised⟩).flatMap
        fun worker : Worker J => worker.jobs.filterMap f)
        = pool.workers.flatMap fun worker => worker.jobs.filterMap f := by
      refine flatMap_set_of_eq found ?_
      cases ending <;> simp [Worker.jobs, WorkerPhase.job?, phaseAfter, hf]
    simp only [live, put_controller, put_stack, put_workers, List.filterMap_append,
      List.filterMap_flatMap, hjobs]

namespace Server

variable {H : Type} {around : Surroundings H} {server next first later : Server}
  {registers : Bool} {id : SlotId} {c : Connection} {limit worker : Nat}
  {trace : List (Server × ServerMove)}

/-! ### The report of a closed connection -/

/-- There is one report about a closed connection. -/
lemma Afloat.count_closed (h : Afloat server) (hmem : .closed id ∈ server.completions) :
    server.completions.count (.closed id) = 1 := by
  refine Nat.le_antisymm ?_ (List.count_pos_iff.2 hmem)
  by_contra hmany
  have htwo : List.replicate 2 (.closed id) <+ server.completions :=
    List.replicate_sublist_iff.2 (Nat.not_le.1 hmany)
  have hids : [id, id] <+ server.travelling :=
    (htwo.filterMap Completion.id?).trans (List.sublist_append_right _ _)
  simpa using h.nodup.sublist hids

/-- The slot of a closed connection has not been freed: it is lent, and the report waits to be seen,
unless everything is being closed. -/
structure Awaited (server : Server) (id : SlotId) : Prop where
  lent : server.slots.state? id = some .lent
  report : .closed id ∈ server.completions ∨ server.phase = .closing

lemma completions_handle (server : Server) (token : Nat) :
    (server.handle token).completions = server.completions := by
  unfold handle dispatch
  repeat' split
  all_goals rfl

lemma completions_process (server : Server) (registers : Bool) (completion : Completion) :
    (server.process registers completion).completions = server.completions := by
  cases completion with
  | accepted peer => exact completions_welcome server registers peer
  | stepped c interest => exact (pool_watch server registers c.id c interest).2.1
  | acceptAgain | closed => rfl

/-- A report stays in the channel until the loop has seen it or throws it away. -/
lemma closed_move {move : ServerMove} (hmem : .closed id ∈ server.completions)
    (hmove : server.move? around move = some next) :
    .closed id ∈ next.completions ∨ server.phase = .closing ∨
      server.slotRequests move = [.release id] := by
  cases moved_of_move? hmove with
  | arrive | pool | acceptEnd | poll | requestStop => exact .inl hmem
  | accept | acceptRetry | wait | close => exact .inl (List.mem_append_left _ hmem)
  | loop moved => cases moved with
    | check | handled | publish | shutdown => exact .inl hmem
    | handle => exact .inl (by rw [completions_handle]; exact hmem)
    | @process completion rest phase completions =>
      rw [completions] at hmem
      rcases List.mem_cons.1 hmem with rfl | hrest
      · refine .inr (.inr ?_)
        simp only [slotRequests, phase, completions]
        rfl
      · exact .inl (by rw [completions_process]; exact hrest)
    | processed _ completions => simp [completions] at hmem
    | discard phase => exact .inr (.inl phase)
    | closeAll _ completions => simp [completions] at hmem

/-- While everything is being closed, the slots stay as they are until all of them are freed. -/
lemma closing_move {move : ServerMove} (hphase : server.phase = .closing)
    (hmove : server.move? around move = some next) :
    next.phase = .closing ∧ next.slots = server.slots ∨ server.slotRequests move = [.drain] := by
  cases moved_of_move? hmove with
  | arrive | pool | accept | acceptEnd | acceptRetry | wait | close | requestStop =>
    exact .inl ⟨hphase, rfl⟩
  | poll _ phase => simp [hphase] at phase
  | loop moved => cases moved with
    | @discard completion _ _ _ => cases completion <;> exact .inl ⟨hphase, rfl⟩
    | closeAll _ completions => exact .inr (by simp only [slotRequests, hphase, completions])
    | check phase | handle phase | handled phase | process phase | processed phase
    | publish phase | shutdown phase => simp [hphase] at phase

/-- Until a slot is freed, its connection is awaited. -/
lemma Awaited.move (h : server.Awaited id) (hs : Staged limit server)
    (ha : server.phase ≠ .stopped → Afloat server) {move : ServerMove}
    (hmove : server.move? around move = some next) :
    next.Awaited id ∨ 0 < server.slots.releases id.index (server.slotRequests move) := by
  have held : (server.slots.allocated? id.index).isSome := by
    simp [SlotTable.allocated?_of_state? h.lent]
  have hfreed {request : SlotRequest Connection} (hfrees : request = .drain ∨ request = .release id)
      (hrequests : server.slotRequests move = [request]) :
      0 < server.slots.releases id.index (server.slotRequests move) := by
    have hvacant := (SlotTable.freed_iff hs.wellFormed held).2
      (hfrees.imp_right fun heq => ⟨id, heq, SlotTable.allocated?_of_state? h.lent⟩)
    rw [hrequests, SlotTable.releases_of_frees held hvacant]
    exact Nat.succ_pos _
  have hclosing (hphase : server.phase = .closing) :
      next.Awaited id ∨ 0 < server.slots.releases id.index (server.slotRequests move) := by
    rcases closing_move hphase hmove with ⟨hphase', hslots⟩ | hdrain
    · exact .inl ⟨by rw [hslots, h.lent], .inr hphase'⟩
    · exact .inr (hfreed (.inl rfl) hdrain)
  rcases h.report with hmem | hphase
  · rcases closed_move hmem hmove with hafter | hphase | hrelease
    · have hphase' : next.phase ≠ .stopped := by
        intro hstopped
        simp [((hs.move hmove).emptied hstopped).1] at hafter
      have htravels : id ∈ next.travelling :=
        List.mem_append_right _ (List.mem_filterMap.2 ⟨_, hafter, rfl⟩)
      exact .inl ⟨(Afloat.move ha hs hmove hphase').lent id htravels, .inl hafter⟩
    · exact hclosing hphase
    · exact .inr (hfreed (.inr rfl) hrelease)
  · exact hclosing hphase

/-- The slot of a closed connection is awaited until it is freed for the first time. -/
lemma Onward.awaited (h : Onward H first trace later) (hs : Staged limit first)
    (ha : first.phase ≠ .stopped → Afloat first) (hawaited : first.Awaited id)
    (hreleases : first.slots.releases id.index (requestsAlong trace) = 0) : later.Awaited id := by
  induction h using Onward.induct with
  | start => exact hawaited
  | step _ hbefore hmove ih =>
    rw [requestsAlong_append, SlotTable.releases_append, ← hbefore.slots_eq hs] at hreleases
    have hafter := (ih (by omega)).move (Run.staged hbefore hs) (Run.afloat hbefore hs ha) hmove
    exact hafter.resolve_right (by omega)

/-- What happens when the loop sees the report of a closed connection: the slot of the connection is
freed, and nothing else changes. -/
structure Frees (id : SlotId) (rest : List Completion) (server next : Server) : Prop where
  next_eq : next = { server with completions := rest, slots := (server.slots.release id).2 }
  state?_eq : next.slots.state? = Function.update server.slots.state? id none
  owners_eq : ∀ id', id' ≠ id → next.owners id' = server.owners id'

lemma Afloat.frees (h : Afloat server) {rest : List Completion}
    (completions : server.completions = .closed id :: rest) :
    Frees id rest server
      { server with completions := rest, slots := (server.slots.release id).2 } := by
  have hlent := h.lent id (mem_travelling completions rfl)
  have hfreed := SlotTable.state?_release hlent
  refine ⟨rfl, hfreed, fun id' hne => ?_⟩
  have hother : (Completion.closed id).owner? id' = none := if_neg (Ne.symm hne)
  simp only [owners, hfreed, Function.update_of_ne hne, completions,
    List.filterMap_cons_none hother]

/-! ### The worker goes on -/

/-- How many moves a worker has made by itself along the way. -/
def ownMoves (worker : Nat) (trace : List (Server × ServerMove)) : Nat :=
  (trace.map Prod.snd).count (.pool (.worker worker))

lemma Onward.recovering (h : Onward H first trace later)
    (hrecovering : first.pool.Recovering worker 0) :
    later.pool.Recovering worker (ownMoves worker trace) := by
  induction h using Onward.induct with
  | start => exact hrecovering
  | @step trace server next _ move _ hmove ih =>
    have hcount : ownMoves worker (trace ++ [(server, move)])
        = ownMoves worker trace + if move = .pool (.worker worker) then 1 else 0 := by
      simp [ownMoves, List.count_cons]
    rw [hcount]
    cases drives_of_move? hmove with
    | rests pool move_ne =>
      rw [pool, if_neg (move_ne _)]
      exact ih
    | @inside m move_eq internal moved =>
      by_cases hown : m = .worker worker
      · rw [hown] at moved
        rw [move_eq, hown, if_pos rfl]
        exact ih.own moved
      · rw [move_eq, if_neg (by simpa using hown)]
        exact ih.of_ne moved hown
    | @outside m move_ne internal intact moved =>
      rw [if_neg (move_ne _)]
      exact ih.of_ne moved fun heq => by simp [heq, isInternal] at internal

/-! ### The job whose handler breaks down -/

/-- What the job of a worker does with its connection when the handler has broken down. -/
structure GivesUp (worker : Nat) (c : Connection) (server next : Server) : Prop where
  /-- For the pool the job ends as any other. -/
  finishes : server.pool.Moved (.finish worker .normal) next.pool
  /-- The connection is closed, to whose client nothing has been written, and its identity is
  reported; of the server nothing else changes. -/
  closes : ∃ closed : Connection, closed.id = c.id ∧ closed.peer = c.peer ∧
    closed.close = closed ∧ closed.wire = #[] ∧
    next = { server with
      pool := next.pool
      ended := server.ended ++ [closed]
      completions := server.completions ++ [.closed c.id] }
  awaited : next.Awaited c.id
  /-- The other connections stay in the hands that they are in. -/
  owners_eq : ∀ id, id ≠ c.id → next.owners id = server.owners id

/-- A connection that has not been answered has not written anything. -/
lemma Audited.unsent {ledger : Ledger} {listeners workers connectionLimit : Nat}
    (h : Audited H listeners workers connectionLimit ledger server) (hc : server.Holds c) :
    c.Unsent := by
  refine h.forall_holds (P := Connection.Unsent) Connection.unsent_fresh ?_ c hc
  intro around turn d after interest hd step
  have hafter := (hd.step around turn).unsent
  rwa [step] at hafter

/-- A worker can end the job that it runs. -/
lemma exists_finish {job : Work} (hrunning : server.pool.running? worker = some job) :
    ∃ pool, server.pool.move? (.finish worker .normal) = some pool := by
  simp [Pool.move?, Pool.finish?, hrunning]

/-- The job ends, and the connection is given up. -/
lemma exists_givesUp (hlent : server.slots.state? c.id = some .lent)
    (stepping : server.stepping? worker = some c) (unsent : c.Unsent) {turn : Turn}
    (panics : (c.step around turn).2 = .panicked) :
    ∃ next, server.move? around (.step worker turn) = some next ∧ GivesUp worker c server next := by
  have hrunning := running?_of_stepping? stepping
  obtain ⟨pool, hpool⟩ := exists_finish hrunning
  have hmoved := Pool.moved_of_move? hpool
  obtain ⟨after, step⟩ : ∃ after, c.step around turn = (after, .panicked) :=
    ⟨_, Prod.ext rfl panics⟩
  have hid : after.close.id = c.id := by
    have hid := c.id_step around turn
    rwa [step] at hid
  have hpeer : after.close.peer = c.peer := by
    have hkeeps := (c.keeps_step around turn).peer_eq
    rwa [step] at hkeeps
  have hwire : after.close.wire = #[] := by
    have hwithholds := unsent.step around turn
    rw [step] at hwithholds
    exact hwithholds.wire_of_panicked rfl
  have hmove : server.move? around (.step worker turn)
      = some (({ server with pool }.bury after).complete (.closed after.close.id)) := by
    simp only [move?, step?, stepping, step, finishJob?, complete, hpool]
    rfl
  refine ⟨_, hmove, hmoved, ⟨after.close, hid, hpeer, rfl, hwire, ?_⟩, ⟨hlent, .inl ?_⟩, ?_⟩
  · rw [← hid]
    rfl
  · rw [hid]
    exact List.mem_append_right _ List.mem_cons_self
  · intro id hne
    have hjob : (Work.step c).owner? id = none := if_neg (Ne.symm hne)
    have hreport : (Completion.closed after.close.id).owner? id = none := by
      rw [hid]
      exact if_neg (Ne.symm hne)
    have hlive : pool.live.filterMap (Work.owner? id)
        = server.pool.live.filterMap (Work.owner? id) :=
      hmoved.filterMap_live hrunning hjob
    simp only [owners, complete, bury, hlive, List.filterMap_append,
      List.filterMap_cons_none hreport, List.filterMap_nil, List.append_nil]

/-! ### What becomes of it -/

/-- How often the slot of an identity has been freed along the way. -/
def frees (first : Server) (id : SlotId) (trace : List (Server × ServerMove)) : Nat :=
  first.slots.releases id.index (requestsAlong trace)

/-- What a server has come to by some moves since the connection of an identity has been given up by
the job of a worker. -/
structure Aftermath (worker : Nat) (id : SlotId) (first : Server)
    (trace : List (Server × ServerMove)) (later : Server) : Prop where
  /-- No worker is lost with its job, and no thread of one ends before the pool is shut down. -/
  intact : later.pool.Intact
  alive : later.pool.active = true → ∀ (i : Nat) (other : Worker Work),
    later.pool.workers[i]? = some other → Pool.hasEnded other = false
  /-- The worker can always go on, and marks its slot idle with its second move; this changes
  nothing about any job. -/
  recovers : ownMoves worker trace < 2 →
    ∃ pool, later.pool.move? (.worker worker) = some pool ∧ pool.live = later.pool.live ∧
      (ownMoves worker trace = 1 →
        ∃ back, pool.workers[worker]? = some back ∧ back.marked = false)
  /-- What has been closed stays as it is. -/
  ended : first.ended <+: later.ended
  /-- The slot waits for the report, of which there is one, unless everything is being closed; while
  the pool runs the connection is in no other hands than this report. -/
  awaited : first.frees id trace = 0 → later.Awaited id ∧
    (later.phase ≠ .closing → later.completions.count (.closed id) = 1) ∧
    (later.pool.active = true → later.owners id = [.closed])
  /-- It has been freed when the channel is empty, and when the server has stopped. -/
  freed : later.completions = [] ∧ later.phase ≠ .closing ∨ later.phase = .stopped →
    0 < first.frees id trace
  /-- It has been freed for this connection once, and not again until a whole turn of the
  generations has gone by. -/
  once : first.frees id trace < SlotId.generationCount →
    first.slots.releasesOf id (requestsAlong trace) = min 1 (first.frees id trace)
  slots_eq : later.slots = first.slots.after (requestsAlong trace)
  /-- Each time that the slot has been freed it is in its next generation, under which it is given
  away again; the identity is refused until a whole turn has gone by. -/
  generation_eq : later.slots.generationAt id.index
    = (id.generation + first.frees id trace) % SlotId.generationCount
  standing : later.slots.Standing id id.generation (id.generation + first.frees id trace)
  /-- For so long no report and no job is about it, and it is in nobody's hands. -/
  gone : 0 < first.frees id trace → first.frees id trace < SlotId.generationCount →
    (later.phase ≠ .stopped → id ∉ later.travelling) ∧
      (later.pool.active = true → later.owners id = [])
  /-- To see the report frees the slot of its connection and changes nothing else; when everything
  is being closed, it is thrown away. -/
  seen : ∀ rest registers, later.completions = .closed id :: rest →
    (later.phase = .draining →
      ∃ next, later.loop? registers = some next ∧ Frees id rest later next) ∧
    (later.phase = .closing → later.loop? registers = some { later with completions := rest })

/-- The slot goes on by one generation each time that it is freed. -/
lemma Onward.generationAt_eq (h : Onward H first trace later) (hs : Staged limit first)
    (hawaited : first.Awaited id) :
    later.slots.generationAt id.index
      = (id.generation + first.frees id trace) % SlotId.generationCount := by
  have hcount := SlotTable.generationAt_after hs.wellFormed id.index (requestsAlong trace)
  rw [← h.slots_eq hs, SlotTable.generationAt_of_state? hawaited.lent] at hcount
  rw [← Nat.mod_eq_of_lt ((Run.staged h hs).generationAt_lt id.index)]
  exact hcount

lemma Onward.standing (h : Onward H first trace later) (hs : Staged limit first)
    (hawaited : first.Awaited id) :
    later.slots.Standing id id.generation (id.generation + first.frees id trace) := by
  have hlt := hs.generationAt_lt id.index
  rw [SlotTable.generationAt_of_state? hawaited.lent] at hlt
  exact SlotTable.standing_of_generationAt (Nat.mod_eq_of_lt hlt).symm
    (h.generationAt_eq hs hawaited)

/-- Once its slot has been freed, the identity stands for nothing until a whole turn has gone by. -/
lemma Onward.state?_eq_none (h : Onward H first trace later) (hs : Staged limit first)
    (hawaited : first.Awaited id) (hpos : 0 < first.frees id trace)
    (hturn : first.frees id trace < SlotId.generationCount) : later.slots.state? id = none := by
  by_contra hne
  have haccepts := SlotTable.accepts_iff_isSome.2 (Option.isSome_iff_ne_none.2 hne)
  exact SlotTable.not_modEq_of_lt (Nat.lt_add_of_pos_right hpos) (Nat.add_lt_add_left hturn _)
    ((h.standing hs hawaited).accepts_iff.1 haccepts).2

section Audited

variable {ledger : Ledger} {listeners workers connectionLimit : Nat}

/-- Whatever happens after a connection has been given up, all this is so. -/
lemma Onward.aftermath (h : Onward H first trace later)
    (hfirst : Audited H listeners workers connectionLimit ledger first)
    (hawaited : first.Awaited id) (hrecovering : first.pool.Recovering worker 0) :
    Aftermath worker id first trace later := by
  obtain ⟨_, hlater⟩ := hfirst.onward h
  have hs := Run.staged_of_start hfirst
  have hs' := Run.staged_of_start hlater
  have hkept (hzero : first.frees id trace = 0) : later.Awaited id :=
    h.awaited hs hfirst.afloat hawaited hzero
  have hreport (hzero : first.frees id trace = 0) (hphase : later.phase ≠ .closing) :
      .closed id ∈ later.completions :=
    (hkept hzero).report.resolve_right hphase
  -- when the server has stopped, the channel is empty
  have hphase {report : Completion} (hmem : report ∈ later.completions) :
      later.phase ≠ .stopped := by
    intro hstopped
    simp [(hs'.emptied hstopped).1] at hmem
  exact {
    intact := hlater.intact
    alive := fun hactive _ _ found =>
      hlater.intact.hasEnded_eq_false hs'.kept.disciplined hactive found
    recovers := (h.recovering hrecovering).exists_move
    ended := Run.ended h
    awaited := by
      intro hzero
      refine ⟨hkept hzero, fun hclosing => ?_, fun hactive => ?_⟩
      · have hmem := hreport hzero hclosing
        exact (hlater.afloat (hphase hmem)).count_closed hmem
      · have hclosing : later.phase ≠ .closing := by
          intro hclosing
          simp [hs'.kept.inactive_of_phase (.inl hclosing)] at hactive
        exact (owners_of_mem_closed (hs'.kept.books hactive) (hreport hzero hclosing)).1
    freed := by
      intro hquiet
      by_contra hnone
      have hzero := Nat.eq_zero_of_not_pos hnone
      rcases hquiet with ⟨hempty, hclosing⟩ | hstopped
      · simpa [hempty] using hreport hzero hclosing
      · exact hphase (hreport hzero (by simp [hstopped])) hstopped
    once := SlotTable.releasesOf_eq hs.wellFormed (by simp [hawaited.lent])
    slots_eq := h.slots_eq hs
    generation_eq := h.generationAt_eq hs hawaited
    standing := h.standing hs hawaited
    gone := by
      intro hpos hturn
      have hnone := h.state?_eq_none hs hawaited hpos hturn
      refine ⟨fun hphase hmem => ?_, fun hactive => owners_eq_nil (hs'.kept.books hactive) hnone⟩
      simp [(hlater.afloat hphase).lent id hmem] at hnone
    seen := by
      intro rest registers completions
      have hafloat := hlater.afloat (hphase (completions ▸ List.mem_cons_self))
      refine ⟨fun hdraining => ⟨_, loop?_of_closed registers hdraining completions,
        hafloat.frees completions⟩, fun hclosing => ?_⟩
      simp only [loop?, hclosing, completions]
      rfl }

/-- A handler that breaks down hurts its own connection only, and neither the worker nor the slot is
lost with it: whatever a server has come to, and whatever it answers from, when a job moves a
connection on and the handler breaks down, the job gives the connection up, and whatever happens
then, the worker and the slot are there again. -/
theorem Audited.breakdown_contained
    (h : Audited H listeners workers connectionLimit ledger server)
    (stepping : server.stepping? worker = some c) (around : Surroundings H) (turn : Turn)
    (panics : (c.step around turn).2 = .panicked) :
    ∃ next, server.move? around (.step worker turn) = some next ∧
      GivesUp worker c server next ∧
      ∀ trace later, Onward H next trace later → Aftermath worker c.id next trace later := by
  have hrunning := running?_of_stepping? stepping
  have hphase : server.phase ≠ .stopped := (Run.staged_of_start h).phase_of_running hrunning
  obtain ⟨pool, hpool⟩ := exists_finish hrunning
  have hlive : .step c ∈ server.pool.live :=
    (live_perm_of_running hpool hrunning).mem_iff.2 List.mem_cons_self
  have htravels : c.id ∈ server.travelling :=
    List.mem_append_left _ (List.mem_filterMap.2 ⟨_, hlive, rfl⟩)
  obtain ⟨next, hmove, hgives⟩ :=
    exists_givesUp ((h.afloat hphase).lent _ htravels) stepping (h.unsent (.job hlive)) panics
  refine ⟨next, hmove, hgives, fun trace later honward => ?_⟩
  exact honward.aftermath (Run.step around h hmove) hgives.awaited
    (Pool.recovering_of_finish hgives.finishes)

end Audited

/-- The second client has asked for what breaks down. -/
def secondTurn : Turn :=
  ⟨.data (requestFor "/b".toList), [], []⟩

/-- Two clients have a slot and have sent something, and the only worker is about to move the second
one on. -/
def secondFirst : List ServerMove :=
  sharedWorker.takeWhile (· ≠ .step 0 secondTurn)

/-- The worker goes back to its slot, and then the loop sees the report. -/
def backAgain : List ServerMove :=
  [.pool (.worker 0), .pool (.worker 0), .loop true, .loop true]

/-- The slot of the second client is freed once and given away in its next generation, while the
first one is in its job. -/
theorem breakdown_contained_secondFirst :
    ∃ (c : Connection) (ledger : Ledger) (server next later : Server)
      (trace : List (Server × ServerMove)), Audited Bool 1 1 4 ledger server ∧
      server.stepping? 0 = some c ∧ c.id = ⟨1, 0⟩ ∧
      (c.step handlerSite secondTurn).2 = .panicked ∧ GivesUp 0 c server next ∧
      Onward Bool next trace later ∧ Aftermath 0 c.id next trace later ∧
      next.frees c.id trace = 1 ∧ ownMoves 0 trace = 2 ∧
      (later.slots.insert fun id => ({ id, peer := 9 } : Connection)).map Prod.fst = some ⟨1, 1⟩ ∧
      later.owners ⟨0, 0⟩ = [.job { id := ⟨0, 0⟩, peer := 7 }] := by
  let c : Connection := { id := ⟨1, 0⟩, peer := 8 }
  let audit := (ledgerJournal Bool).follow? handlerSite
  let trace := (traceJournal Bool).follow? handlerSite
  have hfront : ((secondFirst.foldlM audit ({}, .start 1 1 4)).map
      fun (_, server) => server.stepping? 0) = some (some c) := by
    decide +kernel
  have hrest : ((secondFirst.foldlM audit ({}, .start 1 1 4)).bind
      fun state => (state.2.move? handlerSite (.step 0 secondTurn)).bind
        fun next => (backAgain.foldlM trace ([], next)).map
          fun (trace, later) => (next.frees c.id trace, ownMoves 0 trace,
            (later.slots.insert fun id => ({ id, peer := 9 } : Connection)).map Prod.fst,
            later.owners ⟨0, 0⟩))
        = some (1, 2, some ⟨1, 1⟩, [.job { id := ⟨0, 0⟩, peer := 7 }]) := by
    decide +kernel
  obtain ⟨⟨ledger, server⟩, hserver, hstepping⟩ := Option.map_eq_some_iff.1 hfront
  have haudited : Audited Bool 1 1 4 ledger server := Run.of_foldlM .start hserver
  have hpanics : (c.step handlerSite secondTurn).2 = .panicked := by decide +kernel
  obtain ⟨next, hnext, hgives, hafter⟩ :=
    haudited.breakdown_contained hstepping handlerSite secondTurn hpanics
  simp only [hserver, Option.bind_some, hnext] at hrest
  obtain ⟨⟨trace, later⟩, hlater, hcounts⟩ := Option.map_eq_some_iff.1 hrest
  simp only [Prod.mk.injEq] at hcounts
  obtain ⟨hfrees, hown, hinsert, howners⟩ := hcounts
  have honward : Onward Bool next trace later := Run.of_foldlM .start hlater
  exact ⟨c, ledger, server, next, later, trace, haudited, hstepping, rfl, hpanics, hgives, honward,
    hafter trace later honward, hfrees, hown, hinsert, howners⟩

end Server

end SiteServer
