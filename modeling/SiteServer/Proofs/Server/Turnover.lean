import SiteServer.Proofs.Server.Inventory

/-!
# What a move does to the books

Each move of a server is put together from taking things out and putting them in, and so it keeps
the balance, with an entry in the ledger for what it has done (`Balance.move`): a client has been
accepted, or has been given a slot, a connection has come to its end, a slot has been freed.  The
cases follow the moves: what the loop does with an event and with a report, how it closes what is
left when the pool has ended, and what a job does.
-/

open scoped List

namespace SiteServer.Server

variable {H : Type} {around : Surroundings H} {server next : Server} {registers : Bool}
  {ledger : Ledger} {c : Connection} {id : SlotId} {interest : Interest} {limit : Nat}
  {pool : Pool Work}

/-! ### The pool -/

lemma carried_of_phase (h : server.phase ≠ .stopped) :
    server.carried = server.pool.held.filterMap Work.connection? :=
  if_neg h

/-- A job takes over what the loop has in its hands. -/
lemma Balance.submit (work : Work) (h : Balance ledger server [] work.connection?.toList [])
    (hphase : server.phase ≠ .stopped) : Balance ledger (server.submit work) [] [] [] := by
  have hheld : (server.submit work).pool.held.Perm (work :: server.pool.held) :=
    (Pool.live_perm_of_push work _).append_right _
  refine h.of_carried ?_ ⟨rfl, rfl, rfl, rfl⟩ .inl id
  have hsubmit : (server.submit work).phase ≠ .stopped := hphase
  rw [carried_of_phase hphase, carried_of_phase hsubmit, ← filterMap_cons_toList]
  exact hheld.filterMap _

/-- Jobs run only before the loop has ended. -/
lemma Staged.phase_of_running (hs : Staged limit server) {worker : Nat} {job : Work}
    (hjob : server.pool.running? worker = some job) : server.phase ≠ .stopped := by
  intro hphase
  have hnone := running?_of_ended (hs.inStep.ended (.inr hphase)).1 worker
  simp [hnone] at hjob

/-- A job ends, and what it has in its hands is free. -/
lemma Balance.finish (h : Balance ledger server [] [] []) (hs : Staged limit server)
    {worker : Nat} {job : Work} (hjob : server.pool.running? worker = some job)
    (hmove : server.pool.move? (.finish worker .normal) = some pool) :
    Balance ledger { server with pool } [] job.connection?.toList [] := by
  have hdiscarded : pool.discarded = server.pool.discarded := by
    cases Pool.moved_of_move? hmove
    rfl
  have hheld : server.pool.held.Perm (job :: pool.held) := by
    rw [Pool.held, Pool.held, hdiscarded]
    exact (live_perm_of_running hmove hjob).append_right _
  have hphase : server.phase ≠ .stopped := hs.phase_of_running hjob
  have hafter : ({ server with pool } : Server).phase ≠ .stopped := hphase
  refine h.of_carried ?_ ⟨rfl, rfl, rfl, rfl⟩ .inl id
  rw [carried_of_phase hphase, carried_of_phase hafter, ← filterMap_cons_toList]
  exact (hheld.filterMap _).symm

/-- The pool makes a move that neither brings nor ends a job. -/
lemma Balance.internal (h : Balance ledger server [] [] []) (hd : server.pool.Disciplined)
    {m : PoolMove Work} (moved : server.pool.Moved m pool) (submitted : m.submitted? = none)
    (hm : ∀ index ending, m ≠ .finish index ending) {phase : LoopPhase}
    (hclosing : server.phase = .closing → phase = .closing ∨ phase = .stopped)
    (hstopped : phase = .stopped ↔ server.phase = .stopped) :
    Balance ledger { server with pool, phase } [] [] [] := by
  refine h.of_carried ?_ ⟨rfl, rfl, rfl, rfl⟩ hclosing hstopped.2
  have hheld := moved.held_perm hd hm
  rw [submitted] at hheld
  by_cases hphase : phase = .stopped
  · simp [carried, hphase, hstopped.1 hphase]
  · simp only [carried, hphase, mt hstopped.2 hphase, if_false, List.nil_append]
    exact hheld.filterMap _

/-- The pool is left alone, and nothing that is counted has changed. -/
lemma Balance.of_pool_eq {peers : List Nat} {taken : List Connection} {closed : List SlotId}
    (h : Balance ledger server peers taken closed) (hpool : next.pool = server.pool)
    (hsame : SameRecords server next)
    (hclosing : server.phase = .closing → next.phase = .closing ∨ next.phase = .stopped)
    (hstopped : next.phase = .stopped ↔ server.phase = .stopped) :
    Balance ledger next peers taken closed := by
  refine h.of_carried ?_ hsame hclosing hstopped.2
  simp only [carried, hpool, hstopped]
  exact .refl _

/-! ### The loop -/

/-- The connection that the loop is about to register. -/
def registering? (server : Server) : Option SlotId :=
  match server.phase, server.completions with
  | .draining, .stepped connection _ :: _ => some connection.id
  | .draining, .accepted _ :: _ => server.admitted?.map Prod.fst
  | _, _ => none

lemma add_add (ledger : Ledger) (accepted accepted' : List Nat)
    (admitted admitted' : List (SlotId × Nat)) (finished finished' freed freed' : List SlotId) :
    (ledger.add accepted admitted finished freed).add accepted' admitted' finished' freed'
      = ledger.add (accepted ++ accepted') (admitted ++ admitted') (finished ++ finished')
          (freed ++ freed') := by
  simp [Ledger.add]

/-- A connection is parked, or comes to its end when it cannot be registered. -/
lemma Balance.watch (h : Balance ledger server [] [c] [])
    (hlent : server.slots.state? c.id = some .lent) (registers : Bool) (interest : Interest) :
    Balance (ledger.add [] [] (if registers then [] else [c.id]) (if registers then [] else [c.id]))
      (server.watch registers c.id c interest) [] [] [] := by
  have hsocket : c.hasSocket = true := h.hasSocket_of_inHand c (by simp)
  cases registers with
  | true =>
    simp only [Server.watch, hsocket, Bool.and_self, if_true, add_nil,
      SlotTable.park_eq_some_iff.2 ⟨hlent, rfl⟩]
    exact h.park hlent _
  | false =>
    simp only [Server.watch, Bool.and_false, Bool.false_eq_true, if_false]
    have hfreed := (h.end c.id).release hlent
    rw [add_add] at hfreed
    exact hfreed.bury rfl

/-- An accepted client is refused when there is no slot for it. -/
lemma Balance.turnAway {peer : Nat} (h : Balance ledger server [peer] [] [])
    (hinsert : server.slots.insert (fun id => ({ id, peer } : Connection)) = none)
    (registers : Bool) : Balance ledger (server.welcome registers peer) [] [] [] := by
  simp only [welcome, hinsert]
  exact h.refuse

/-- An accepted client gets a slot. -/
lemma Balance.givePlace {peer : Nat} {slots : SlotTable Connection}
    (h : Balance ledger server [peer] [] []) (hw : server.slots.WellFormed)
    (hphase : server.phase ≠ .stopped)
    (hinsert : server.slots.insert (fun id => { id, peer }) = some (id, slots))
    (registers : Bool) :
    Balance (ledger.add [] [(id, peer)] (if registers then [] else [id])
      (if registers then [] else [id])) (server.welcome registers peer) [] [] [] := by
  have hparked : slots.state? id = some (.parked { id, peer }) := by
    rw [(SlotTable.insert_spec hw hinsert).2.1, Function.update_self]
  have htake : slots.take id = some ({ id, peer }, slots.setState id.index .lent) :=
    SlotTable.take_eq_some_iff.2 ⟨hparked, rfl⟩
  have hlent := SlotTable.state?_setState hparked (show SlotState.lent ≠ .vacant by simp)
  simp only [welcome, hinsert, htake]
  have hnew := h.insert hw hphase hinsert
  have hwatched := (hnew.take htake server.watched).watch (by simp [hlent]) registers .readable
  rwa [add_add] at hwatched

/-- The loop sees a report. -/
lemma Balance.process (h : Balance ledger server [] [] []) (hs : Staged limit server)
    (hphase : server.phase = .draining) {completion : Completion} {rest : List Completion}
    (hcompletions : server.completions = completion :: rest) (registers : Bool) :
    ∃ freed, Balance (ledger.add [] server.admitted?.toList
      (if registers then [] else server.registering?.toList) freed)
      ({ server with completions := rest }.process registers completion) [] [] [] := by
  have hactive : server.pool.active = true := hs.active (by rw [hphase]; rfl)
  have hnotStopped : ({ server with completions := rest } : Server).phase ≠ .stopped := by
    simp [hphase]
  have hseen := h.seen hcompletions
  have hlent : ∀ id, completion.id? = some id → server.slots.state? id = some .lent :=
    fun id hid => (hs.kept.books hactive).state?_eq_lent (mem_travelling hcompletions hid)
  cases completion with
  | accepted peer =>
    rcases hinsert : server.slots.insert fun id => ({ id, peer } : Connection) with _ | ⟨id, slots⟩
    · have hadmitted : server.admitted? = none := by
        simp [admitted?, hphase, hcompletions, hinsert]
      have hregistering : server.registering? = none := by
        simp [registering?, hphase, hcompletions, hadmitted]
      refine ⟨[], ?_⟩
      simp only [hadmitted, hregistering, Option.toList_none, ite_self, add_nil]
      exact hseen.turnAway hinsert registers
    · have hadmitted : server.admitted? = some (id, peer) := by
        simp [admitted?, hphase, hcompletions, hinsert]
      have hregistering : server.registering? = some id := by
        simp [registering?, hphase, hcompletions, hadmitted]
      rw [hadmitted, hregistering]
      exact ⟨_, hseen.givePlace hs.wellFormed hnotStopped hinsert registers⟩
  | acceptAgain listener =>
    have hadmitted : server.admitted? = none := by simp [admitted?, hphase, hcompletions]
    have hregistering : server.registering? = none := by simp [registering?, hphase, hcompletions]
    refine ⟨[], ?_⟩
    simp only [hadmitted, hregistering, Option.toList_none, ite_self, add_nil]
    exact Balance.submit (.accept listener) hseen hnotStopped
  | stepped c interest =>
    have hadmitted : server.admitted? = none := by simp [admitted?, hphase, hcompletions]
    have hregistering : server.registering? = some c.id := by
      simp [registering?, hphase, hcompletions]
    rw [hadmitted, hregistering]
    exact ⟨_, hseen.watch (hlent c.id rfl) registers interest⟩
  | closed id =>
    have hadmitted : server.admitted? = none := by simp [admitted?, hphase, hcompletions]
    have hregistering : server.registering? = none := by simp [registering?, hphase, hcompletions]
    refine ⟨[id], ?_⟩
    simp only [hadmitted, hregistering, Option.toList_none, ite_self]
    exact hseen.release (hlent id rfl)

/-- The loop handles an event. -/
lemma Balance.handle (h : Balance ledger server [] [] []) (hphase : server.phase ≠ .stopped)
    (token : Nat) : Balance ledger (server.handle token) [] [] [] := by
  unfold Server.handle
  split
  · exact h
  · split
    · exact Balance.submit (.accept _) h hphase
    · split
      · next id _ =>
        unfold dispatch
        split
        · exact h
        · next c slots htake =>
          have htaken := h.take htake (server.watched.filter (·.1 ≠ id))
          exact Balance.submit (.step c) htaken hphase
      · exact h

/-- After the pool has ended, the loop closes what is left in the channel. -/
lemma Balance.discard (h : Balance ledger server [] [] []) (hphase : server.phase = .closing)
    {completion : Completion} {rest : List Completion}
    (hcompletions : server.completions = completion :: rest) :
    Balance ledger ({ server with completions := rest }.discard completion) [] [] [] := by
  have hseen := h.seen hcompletions
  cases completion with
  | accepted peer => exact hseen.refuse
  | acceptAgain listener => exact hseen
  | stepped c interest => exact hseen.bury rfl
  | closed id =>
    -- the slot is freed with all others
    exact { hseen with finished := fun hclosing _ => absurd hphase hclosing }

/-- The connections that go with the pool are those that are still in jobs. -/
lemma abandoned_eq (hpool : server.pool.Ended) (hstack : server.pool.stack.items = []) :
    server.abandoned.Perm (server.pool.held.filterMap Work.connection?) := by
  unfold abandoned
  rw [hpool.held_eq hstack, Pool.discarded]
  refine (List.perm_append_comm.filterMap _).trans (.of_eq ?_)
  -- the server reads the log and the jobs with functions of its own
  refine congrArg₂ List.filterMap ?_ (congrArg (_ ++ ·) ?_)
  · funext work
    cases work <;> rfl
  · refine List.filterMap_congr fun event _ => ?_
    cases event <;> rfl

/-- The loop closes all connections that are left, and frees all slots. -/
lemma Balance.closeAll (h : Balance ledger server [] [] []) (hs : Staged limit server)
    (hphase : server.phase = .closing) (hcompletions : server.completions = []) :
    Balance (ledger.add [] [] [] server.slots.identities) server.closeAll [] [] [] := by
  obtain ⟨hpool, hstack⟩ := hs.inStep.ended (.inl hphase)
  have hcarried : server.carried = server.pool.held.filterMap Work.connection? :=
    carried_of_phase (by simp [hphase])
  have hhand : (server.slots.drain.1 ++ server.abandoned).Perm server.inHand := by
    rw [inHand, hcompletions, hcarried, SlotTable.fst_drain, List.filterMap_nil, List.append_nil]
    exact (abandoned_eq hpool hstack).append_left _
  have hrest : server.closeAll.inHand = [] := by
    have hcontents : server.closeAll.slots.contents = [] := SlotTable.contents_drain server.slots
    have hreports : server.closeAll.completions = [] := hcompletions
    rw [inHand, hcontents, hreports]
    rfl
  have hended : server.closeAll.ended
      = server.ended ++ (server.slots.drain.1 ++ server.abandoned).map Connection.close := rfl
  exact {
    clients := by
      simp only [Ledger.add, List.append_nil]
      exact h.clients
    connections := by
      intro entry
      have hbefore := h.connections entry
      have hcount := (hhand.map Connection.entry).count_eq entry
      have hclose : Connection.entry ∘ Connection.close = Connection.entry := rfl
      simp only [Ledger.add, hrest, hended, List.append_nil, List.map_append, List.map_map, hclose,
        List.map_nil, List.count_append, List.count_nil] at hbefore hcount ⊢
      omega
    hasSocket_of_ended := by
      intro c hmem
      rw [hended] at hmem
      rcases List.mem_append.1 hmem with hbefore | hlast
      · exact h.hasSocket_of_ended c hbefore
      · obtain ⟨d, -, rfl⟩ := List.mem_map.1 hlast
        rfl
    hasSocket_of_inHand := by simp [hrest]
    slots := by
      intro id
      have hidentities : server.closeAll.slots.identities = [] :=
        SlotTable.identities_drain server.slots
      have hbefore := h.slots id
      simp only [Ledger.add, hidentities, List.append_nil, List.count_append, List.count_nil]
        at hbefore ⊢
      omega
    finished := fun _ hstopped => absurd rfl hstopped
    ages := fun hstopped => absurd rfl hstopped
    distinct := by
      intro hfreed
      simp only [Ledger.add, List.length_append, List.append_nil] at hfreed ⊢
      exact h.distinct (by omega) }

lemma registering?_of_phase (hphase : server.phase ≠ .draining) : server.registering? = none := by
  unfold registering?
  split
  · next hdraining _ => exact absurd hdraining hphase
  · next hdraining _ => exact absurd hdraining hphase
  · rfl

/-- The loop makes a move. -/
lemma Balance.loop (h : Balance ledger server [] [] []) (hs : Staged limit server)
    (moved : LoopMoved server registers next) :
    ∃ freed, Balance (ledger.add [] server.admitted?.toList
      (if registers then [] else server.registering?.toList) freed) next [] [] [] := by
  -- what the loop does when it neither gives slots nor frees them
  have hsame (hphase : server.phase ≠ .draining) (hnext : Balance ledger next [] [] []) :
      ∃ freed, Balance (ledger.add [] server.admitted?.toList
        (if registers then [] else server.registering?.toList) freed) next [] [] [] := by
    refine ⟨[], ?_⟩
    rw [admitted?_of_phase hphase, registering?_of_phase hphase, Option.toList_none,
      Option.toList_none, ite_self, add_nil]
    exact hnext
  have hgo {after : Server} (hbefore : server.phase.isRunning = true)
      (hafter : after.phase ≠ .stopped) (hpool : after.pool = server.pool)
      (hrecords : SameRecords server after) : Balance ledger after [] [] [] := by
    refine h.of_pool_eq hpool hrecords (fun hphase => ?_) (iff_of_false hafter fun hphase => ?_)
    · simp [hphase, LoopPhase.isRunning] at hbefore
    · simp [hphase, LoopPhase.isRunning] at hbefore
  cases moved with
  | check phase =>
    refine hsame (by simp [phase]) (hgo (by rw [phase]; rfl) ?_ rfl ⟨rfl, rfl, rfl, rfl⟩)
    simp only
    split <;> simp
  | handled phase | publish phase =>
    exact hsame (by simp [phase]) (hgo (by rw [phase]; rfl) (by simp) rfl ⟨rfl, rfl, rfl, rfl⟩)
  | @handle token rest phase =>
    have hhandling : Balance ledger { server with phase := .handling rest } [] [] [] :=
      hgo (by rw [phase]; rfl) (by simp) rfl ⟨rfl, rfl, rfl, rfl⟩
    exact hsame (by simp [phase]) (hhandling.handle (by simp) token)
  | process phase completions => exact h.process hs phase completions registers
  | processed phase completions =>
    have hadmitted : server.admitted? = none := by simp [admitted?, phase, completions]
    have hregistering : server.registering? = none := by simp [registering?, phase, completions]
    refine ⟨[], ?_⟩
    simp only [hadmitted, hregistering, Option.toList_none, ite_self, add_nil]
    exact hgo (by rw [phase]; rfl) (by simp) rfl ⟨rfl, rfl, rfl, rfl⟩
  | shutdown phase hmoved =>
    refine hsame (by simp [phase]) ?_
    refine h.internal hs.inStep.disciplined hmoved rfl (by simp) (by simp [phase]) ?_
    split <;> simp [phase]
  | discard phase completions => exact hsame (by simp [phase]) (h.discard phase completions)
  | closeAll phase completions =>
    refine ⟨server.slots.identities, ?_⟩
    rw [admitted?_of_phase (by simp [phase]), registering?_of_phase (by simp [phase])]
    simp only [Option.toList_none, ite_self]
    exact h.closeAll hs phase completions

/-! ### The jobs -/

/-- The client that an accepting job takes. -/
def taken? (server : Server) : ServerMove → Option Nat
  | .accept worker => (server.accepting? worker).bind server.nextWaiting?
  | _ => none

/-- The client that a move gives a slot to. -/
def enrolled? (server : Server) : ServerMove → Option (SlotId × Nat)
  | .loop _ => server.admitted?
  | _ => none

/-- The connection that a move brings to its end: a step of it was the last one, or broke down, or
its socket could not be registered. -/
def finished? (around : Surroundings H) (server : Server) : ServerMove → Option SlotId
  | .step worker turn =>
    match server.stepping? worker with
    | none => none
    | some connection =>
      match (connection.step around turn).2 with
      | .wait _ => none
      | .done _ | .panicked => some connection.id
  | .loop registers => if registers then none else server.registering?
  | _ => none

/-- A job moves its connection on, and reports that it waits. -/
lemma Balance.wait (h : Balance ledger server [] [c] []) {after : Connection} {turn : Turn}
    (step : c.step around turn = (after, .wait interest)) :
    Balance ledger (server.complete (.stepped after interest)) [] [] [] := by
  have hid := c.id_step around turn
  have hkeeps := c.keeps_step around turn
  rw [step] at hid hkeeps
  have hopen : after.hasSocket = true := by
    rw [hkeeps.hasSocket_eq interest rfl]
    exact h.hasSocket_of_inHand c (by simp)
  exact Balance.complete (.stepped after interest)
    (h.replace (Prod.ext hid hkeeps.peer_eq) hopen)

/-- A job closes its connection, and reports its identity. -/
lemma Balance.close (h : Balance ledger server [] [c] []) {after : Connection} {turn : Turn}
    {result : StepResult} (step : c.step around turn = (after, result)) :
    Balance (ledger.add [] [] [after.close.id] [])
      ((server.bury after).complete (.closed after.close.id)) [] [] [] := by
  have hid := c.id_step around turn
  have hkeeps := c.keeps_step around turn
  rw [step] at hid hkeeps
  exact Balance.complete (.closed after.close.id)
    ((h.end _).bury (Prod.ext hid hkeeps.peer_eq))

/-! ### Every move -/

lemma Balance.move (h : Balance ledger server [] [] []) (hs : Staged limit server)
    {move : ServerMove} (moved : Moved around server move next) :
    ∃ freed, Balance (ledger.add (server.taken? move).toList (server.enrolled? move).toList
      (server.finished? around move).toList freed) next [] [] [] := by
  have hsame (hnext : Balance ledger next [] [] []) :
      ∃ freed, Balance (ledger.add [] [] [] freed) next [] [] [] :=
    ⟨[], by rwa [add_nil]⟩
  cases moved with
  | arrive | requestStop => exact hsame (h.of_pool_eq rfl ⟨rfl, rfl, rfl, rfl⟩ .inl .rfl)
  | poll tokens phase =>
    exact hsame (h.of_pool_eq rfl ⟨rfl, rfl, rfl, rfl⟩ (by simp [phase]) (by simp [phase]))
  | pool internal hmoved =>
    refine hsame (h.internal hs.inStep.disciplined hmoved (submitted?_of_isInternal internal) ?_
      .inl .rfl)
    rintro index ending rfl
    simp [isInternal] at internal
  | @accept worker listener peer accepting waiting =>
    have htaken : server.taken? (.accept worker) = some peer := by
      simp [taken?, accepting, waiting]
    have haccepted : Balance (ledger.add [peer] [] [] [])
        { server with waiting := server.waiting.erase (listener, peer) } [peer] [] [] :=
      (h.accept peer).of_pool_eq rfl ⟨rfl, rfl, rfl, rfl⟩ .inl .rfl
    rw [htaken]
    exact ⟨[], Balance.complete (.accepted peer) haccepted⟩
  | acceptEnd accepting _ finish =>
    exact hsame (h.finish hs (running?_of_accepting? accepting) finish)
  | acceptRetry accepting finish =>
    have hended := h.finish hs (running?_of_accepting? accepting) finish
    exact hsame (Balance.complete (.acceptAgain _) hended)
  | @wait worker turn c after interest pool stepping step finish =>
    have hended := h.finish hs (running?_of_stepping? stepping) finish
    have hfinished : server.finished? around (.step worker turn) = none := by
      simp [finished?, stepping, step]
    rw [hfinished]
    exact hsame (hended.wait step)
  | @close worker turn c after result pool stepping step result_ne finish =>
    have hended := h.finish hs (running?_of_stepping? stepping) finish
    have hclose : after.close.id = c.id := by
      have hid := c.id_step around turn
      rw [step] at hid
      exact hid
    have hfinished : server.finished? around (.step worker turn) = some after.close.id := by
      cases result with
      | wait interest => exact absurd rfl (result_ne interest)
      | done | panicked => simp [finished?, stepping, step, hclose]
    rw [hfinished]
    exact ⟨[], hended.close step⟩
  | @loop registers _ hmoved =>
    obtain ⟨freed, hnext⟩ := h.loop hs hmoved
    refine ⟨freed, ?_⟩
    have hfinished : (server.finished? around (.loop registers)).toList
        = if registers then [] else server.registering?.toList := by
      cases registers <;> rfl
    rw [hfinished]
    exact hnext

end SiteServer.Server
