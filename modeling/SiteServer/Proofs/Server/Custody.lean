import SiteServer.Proofs.Connection.Run
import SiteServer.Proofs.Pool.Custody
import SiteServer.Proofs.Server.Books
import SiteServer.Proofs.Server.Runs

/-!
# Connections on their way

A connection leaves its slot in a job, moves through the pool, and comes back in a report.  `Kept`
says that the books of the loop agree with what is on its way as long as the pool runs.  The moves
of a server are gone through one by one: a job that ends hands its connection on to its report, and
the loop hands on what it takes from the slot table or from the channel.
-/

namespace SiteServer.Server

variable {H : Type} {around : Surroundings H} {server next : Server}

/-- The identities of the connections that are in jobs that have not ended, or in reports that the
loop has not seen. -/
def travelling (server : Server) : List SlotId :=
  server.pool.live.filterMap Work.id? ++ server.completions.filterMap Completion.id?

/-- The books are right as long as the pool runs, and the loop does not end before the pool. -/
structure Kept (server : Server) : Prop where
  disciplined : server.pool.Disciplined
  inactive_of_phase : server.phase = .closing ∨ server.phase = .stopped →
    server.pool.active = false
  books : server.pool.active = true → Books server.slots server.watched server.travelling

lemma Kept.inactive_of_moved (h : Kept server) {move : PoolMove Work} {pool : Pool Work}
    (hmoved : server.pool.Moved move pool)
    (hphase : server.phase = .closing ∨ server.phase = .stopped) : pool.active = false := by
  by_contra hactive
  have hbefore := hmoved.active_of_active (Bool.of_not_eq_false hactive)
  simp [h.inactive_of_phase hphase] at hbefore

/-! ### The pool -/

lemma filterMap_id?_cons (work : Work) (works : List Work) :
    (work :: works).filterMap Work.id? = work.id?.toList ++ works.filterMap Work.id? := by
  cases work <;> rfl

/-- A move of the pool that neither brings nor ends a job. -/
lemma Kept.internal (h : Kept server) {move : PoolMove Work} {pool : Pool Work}
    (hinternal : isInternal move = true) (hmove : server.pool.move? move = some pool) :
    Kept { server with pool } := by
  have hmoved := Pool.moved_of_move? hmove
  refine ⟨hmoved.disciplined h.disciplined, h.inactive_of_moved hmoved, fun hactive => ?_⟩
  refine (h.books (hmoved.active_of_active hactive)).perm ?_
  have hperm := hmoved.live_perm h.disciplined hactive
  cases move with
  | raise => exact (hperm.filterMap _).append_right _
  | controller => exact (hperm.filterMap _).append_right _
  | worker index => exact (hperm.filterMap _).append_right _
  | _ => simp [isInternal] at hinternal

/-- A job ends, and hands its connection on to its report. -/
lemma Kept.finishJob (h : Kept server) {worker : Nat} {job : Work} {reported : Server}
    (hjob : server.pool.running? worker = some job)
    (hfinish : reported.finishJob? worker = some next) (hpool : reported.pool = server.pool)
    (hslots : reported.slots = server.slots) (hwatched : reported.watched = server.watched)
    (hphase : reported.phase = server.phase)
    (hreport : reported.completions.filterMap Completion.id?
      = server.completions.filterMap Completion.id? ++ job.id?.toList) : Kept next := by
  rw [finishJob?, hpool, Option.map_eq_some_iff] at hfinish
  obtain ⟨pool, hmove, rfl⟩ := hfinish
  have hmoved := Pool.moved_of_move? hmove
  refine ⟨hmoved.disciplined h.disciplined,
    fun hended => h.inactive_of_moved hmoved (hphase ▸ hended), fun hactive => ?_⟩
  obtain ⟨job', hjob', hperm⟩ := hmoved.live_perm h.disciplined hactive
  obtain rfl : job' = job := Option.some.inj (hjob'.symm.trans hjob)
  have hids := (hperm.filterMap Work.id?).append_right (server.completions.filterMap Completion.id?)
  rw [filterMap_id?_cons, List.append_assoc] at hids
  simp only [hslots, hwatched]
  refine (h.books (hmoved.active_of_active hactive)).perm ?_
  simp only [travelling, hreport, ← List.append_assoc]
  exact List.perm_append_comm.trans (by simpa using hids.symm)

/-- A job is submitted. -/
lemma travelling_submit (server : Server) (work : Work) :
    (server.submit work).travelling.Perm (work.id?.toList ++ server.travelling) := by
  have hperm : (server.submit work).pool.live.Perm (work :: server.pool.live) :=
    Pool.live_perm_of_push work _
  have hids := (hperm.filterMap Work.id?).append_right (server.completions.filterMap Completion.id?)
  rw [filterMap_id?_cons, List.append_assoc] at hids
  exact hids

lemma moved_submit (server : Server) (work : Work) :
    server.pool.Moved (.push work) (server.submit work).pool :=
  .push work

/-! ### The loop -/

section Loop

variable {id : SlotId} {c : Connection} {registers : Bool} {interest : Interest}

/-- What the loop does to a connection that comes back does not touch the pool. -/
lemma pool_watch (server : Server) (registers : Bool) (id : SlotId) (c : Connection)
    (interest : Interest) :
    (server.watch registers id c interest).pool = server.pool ∧
      (server.watch registers id c interest).completions = server.completions ∧
      (server.watch registers id c interest).phase = server.phase := by
  unfold watch
  split
  · split <;> exact ⟨rfl, rfl, rfl⟩
  · exact ⟨rfl, rfl, rfl⟩

/-- A connection that comes back finds its slot waiting for it. -/
lemma park_isSome {watched : List (SlotId × Interest)} {travelling : List SlotId}
    (h : Books server.slots watched (id :: travelling)) (c : Connection) :
    server.slots.park id c = some (server.slots.setState id.index (.parked c)) :=
  SlotTable.park_eq_some_iff.2 ⟨h.state?_eq_lent List.mem_cons_self, rfl⟩

/-- A connection comes back and is parked, or closed when it cannot be registered. -/
lemma books_watch (h : Books server.slots server.watched (id :: server.travelling))
    (hid : c.id = id) (registers : Bool) (interest : Interest) :
    Books (server.watch registers id c interest).slots
      (server.watch registers id c interest).watched
      (server.watch registers id c interest).travelling := by
  obtain ⟨hpool, hcompletions, -⟩ := pool_watch server registers id c interest
  have htravelling : (server.watch registers id c interest).travelling = server.travelling := by
    rw [travelling, hpool, hcompletions]
    rfl
  rw [htravelling, watch, park_isSome h c]
  -- the slot waits for the connection, so only the registration can fail
  split
  · exact h.park hid interest
  · exact h.free

/-- An accepted client gets a slot, or is turned away. -/
lemma books_welcome (h : Books server.slots server.watched server.travelling) (registers : Bool)
    (peer : Nat) :
    Books (server.welcome registers peer).slots (server.welcome registers peer).watched
      (server.welcome registers peer).travelling := by
  unfold welcome
  split
  · exact h
  · next id slots hinsert =>
    obtain ⟨-, hnext, -⟩ := SlotTable.insert_spec h.wellFormed hinsert
    have hparked : slots.state? id = some (.parked { id, peer }) := by
      rw [hnext, Function.update_self]
    have htake : slots.take id = some ({ id, peer }, slots.setState id.index .lent) :=
      SlotTable.take_eq_some_iff.2 ⟨hparked, rfl⟩
    rw [htake]
    exact books_watch (h.enroll hinsert) rfl registers .readable

lemma pool_welcome (server : Server) (registers : Bool) (peer : Nat) :
    (server.welcome registers peer).pool = server.pool ∧
      (server.welcome registers peer).phase = server.phase := by
  unfold welcome
  split
  · exact ⟨rfl, rfl⟩
  · split
    · exact ⟨rfl, rfl⟩
    · obtain ⟨hpool, -, hphase⟩ := pool_watch { server with slots := _ } registers _ _ .readable
      exact ⟨hpool, hphase⟩

/-- The loop submits a job that accepts. -/
lemma Kept.submit (h : Kept server) {work : Work} (hid : work.id? = none) :
    Kept (server.submit work) := by
  have hmoved := moved_submit server work
  refine ⟨hmoved.disciplined h.disciplined, h.inactive_of_moved hmoved, fun hactive => ?_⟩
  have hperm := travelling_submit server work
  rw [hid] at hperm
  exact (h.books (hmoved.active_of_active hactive)).perm hperm

/-- A parked connection is sent on its way; other events change nothing. -/
lemma Kept.dispatch (h : Kept server) (id : SlotId) : Kept (server.dispatch id) := by
  unfold Server.dispatch
  split
  · exact h
  · next c slots htake =>
    obtain ⟨hparked, rfl⟩ := SlotTable.take_eq_some_iff.1 htake
    set lent : Server := { server with
      slots := server.slots.setState id.index .lent
      watched := server.watched.filter (·.1 ≠ id) }
    have hmoved := moved_submit lent (.step c)
    refine ⟨hmoved.disciplined h.disciplined, h.inactive_of_moved hmoved, fun hactive => ?_⟩
    have hbooks := h.books (hmoved.active_of_active hactive)
    refine (hbooks.lend hparked).perm ?_
    -- the job carries the identity under which the connection was parked
    have hid : (Work.step c).id? = some id := congrArg some (hbooks.id_eq id c hparked)
    have hperm := travelling_submit lent (.step c)
    rw [hid] at hperm
    exact hperm

lemma Kept.handle (h : Kept server) (token : Nat) : Kept (server.handle token) := by
  unfold Server.handle
  split
  · exact h
  · split
    · exact h.submit rfl
    · split
      · exact h.dispatch _
      · exact h

/-- What a job has reported is seen. -/
lemma Kept.process {completion : Completion} (registers : Bool)
    (h : Kept { server with completions := completion :: server.completions }) :
    Kept (server.process registers completion) := by
  have hids (id : SlotId) (hid : completion.id? = some id) :
      travelling { server with completions := completion :: server.completions }
        |>.Perm (id :: server.travelling) := by
    rw [travelling, List.filterMap_cons_some hid]
    exact List.perm_middle
  cases completion with
  | accepted peer =>
    obtain ⟨hpool, hphase⟩ := pool_welcome server registers peer
    refine ⟨by simpa [Server.process, hpool] using h.disciplined, ?_, fun hactive => ?_⟩
    · simpa only [Server.process, hpool, hphase] using h.inactive_of_phase
    · have hbooks : Books server.slots server.watched server.travelling := h.books (hpool ▸ hactive)
      exact books_welcome hbooks registers peer
  | acceptAgain listener =>
    have hbefore : Kept server := ⟨h.disciplined, h.inactive_of_phase, h.books⟩
    exact hbefore.submit rfl
  | stepped c interest =>
    obtain ⟨hpool, -, hphase⟩ := pool_watch server registers c.id c interest
    refine ⟨by simpa [Server.process, hpool] using h.disciplined, ?_, fun hactive => ?_⟩
    · simpa only [Server.process, hpool, hphase] using h.inactive_of_phase
    · have hbooks : Books server.slots server.watched (c.id :: server.travelling) :=
        (h.books (hpool ▸ hactive)).perm (hids c.id rfl).symm
      exact books_watch hbooks rfl registers interest
  | closed id =>
    exact ⟨h.disciplined, h.inactive_of_phase,
      fun hactive => ((h.books hactive).perm (hids id rfl).symm).free⟩

/-- The loop makes a move. -/
lemma Kept.loop (h : Kept server) (registers : Bool) (hloop : server.loop? registers = some next) :
    Kept next := by
  unfold loop? at hloop
  split at hloop
  case h_1 hphase =>
    -- it looks whether it has been told to stop
    obtain rfl := Option.some.inj hloop
    exact ⟨h.disciplined, by simp only; split <;> simp, h.books⟩
  case h_2 => simp at hloop
  case h_3 =>
    -- all events have been handled
    obtain rfl := Option.some.inj hloop
    exact ⟨h.disciplined, by simp, h.books⟩
  case h_4 token rest hphase =>
    obtain rfl := Option.some.inj hloop
    have hrest : Kept { server with phase := .handling rest } := ⟨h.disciplined, by simp, h.books⟩
    exact hrest.handle token
  case h_5 =>
    split at hloop
    · -- all reports have been seen
      obtain rfl := Option.some.inj hloop
      exact ⟨h.disciplined, by simp, h.books⟩
    · next completion rest hcompletions =>
      obtain rfl := Option.some.inj hloop
      refine Kept.process registers ?_
      rw [← hcompletions]
      exact h
  case h_6 =>
    obtain rfl := Option.some.inj hloop
    exact ⟨h.disciplined, by simp, h.books⟩
  case h_7 =>
    -- the pool does not run any more
    obtain ⟨pool, hmove, rfl⟩ := Option.map_eq_some_iff.1 hloop
    have hmoved := Pool.moved_of_move? hmove
    have hinactive : pool.active = false := by
      by_contra hactive
      exact hmoved.live_perm h.disciplined (Bool.of_not_eq_false hactive)
    exact ⟨hmoved.disciplined h.disciplined, fun _ => hinactive, by simp [hinactive]⟩
  case h_8 hphase =>
    have hinactive := h.inactive_of_phase (.inl hphase)
    have hkept {closed : Server} (hpool : closed.pool = server.pool) : Kept closed := by
      refine ⟨hpool ▸ h.disciplined, fun _ => hpool ▸ hinactive, fun hactive => ?_⟩
      simp [hpool, hinactive] at hactive
    split at hloop
    · obtain rfl := Option.some.inj hloop
      exact hkept rfl
    · next completion rest hcompletions =>
      obtain rfl := Option.some.inj hloop
      refine hkept ?_
      cases completion <;> rfl
  case h_9 => simp at hloop

end Loop

/-! ### The jobs -/

lemma running?_of_accepting? {worker listener : Nat}
    (h : server.accepting? worker = some listener) :
    server.pool.running? worker = some (.accept listener) := by
  unfold accepting? at h
  split at h
  · next hrunning => rw [hrunning, Option.some.inj h]
  · simp at h

lemma running?_of_stepping? {worker : Nat} {c : Connection}
    (h : server.stepping? worker = some c) : server.pool.running? worker = some (.step c) := by
  unfold stepping? at h
  split at h
  · next hrunning => rw [hrunning, Option.some.inj h]
  · simp at h

lemma filterMap_id?_complete (server : Server) (completion : Completion) :
    (server.complete completion).completions.filterMap Completion.id?
      = server.completions.filterMap Completion.id? ++ completion.id?.toList := by
  rw [complete, List.filterMap_append]
  cases completion <;> rfl

/-- An accepting job takes a client. -/
lemma Kept.accept (h : Kept server) {worker : Nat} (haccept : server.accept? worker = some next) :
    Kept next := by
  unfold accept? at haccept
  split at haccept
  · simp at haccept
  · obtain ⟨peer, -, rfl⟩ := Option.map_eq_some_iff.1 haccept
    refine ⟨h.disciplined, h.inactive_of_phase, fun hactive => (h.books hactive).perm ?_⟩
    simp only [travelling, filterMap_id?_complete]
    simp [complete, Completion.id?]

/-- A job moves its connection on: the connection is in the report, or its identity is. -/
lemma Kept.step (h : Kept server) {worker : Nat} {turn : Turn}
    (hstep : server.step? around worker turn = some next) : Kept next := by
  unfold step? at hstep
  split at hstep
  · simp at hstep
  · next c hstepping =>
    have hjob := running?_of_stepping? hstepping
    have hid := c.id_step around turn
    split at hstep
    · next after interest hafter =>
      rw [hafter] at hid
      refine h.finishJob hjob hstep rfl rfl rfl rfl ?_
      rw [filterMap_id?_complete, Completion.id?, Work.id?, hid]
    · next after hafter =>
      rw [hafter] at hid
      refine h.finishJob hjob hstep rfl rfl rfl rfl ?_
      rw [filterMap_id?_complete, Completion.id?, Work.id?, ← hid]
      rfl

/-- Every move of a server keeps the books. -/
theorem Kept.move (h : Kept server) {move : ServerMove}
    (hmove : server.move? around move = some next) : Kept next := by
  cases move with
  | arrive listener peer =>
    simp only [move?, Option.ite_none_right_eq_some, Option.some.injEq] at hmove
    obtain ⟨-, rfl⟩ := hmove
    exact ⟨h.disciplined, h.inactive_of_phase, h.books⟩
  | pool move =>
    simp only [move?, Option.ite_none_right_eq_some, Option.map_eq_some_iff] at hmove
    obtain ⟨hinternal, pool, hpool, rfl⟩ := hmove
    exact h.internal hinternal hpool
  | accept worker => exact h.accept hmove
  | acceptEnd worker =>
    simp only [move?] at hmove
    split at hmove
    · simp at hmove
    · next listener haccepting =>
      have hfinish := (Option.ite_none_right_eq_some.1 hmove).2
      exact h.finishJob (running?_of_accepting? haccepting) hfinish rfl rfl rfl rfl
        (by simp [Work.id?])
  | acceptRetry worker =>
    simp only [move?] at hmove
    split at hmove
    · simp at hmove
    · next listener haccepting =>
      exact h.finishJob (running?_of_accepting? haccepting) hmove rfl rfl rfl rfl
        (filterMap_id?_complete server _)
  | step worker turn => exact h.step hmove
  | poll tokens =>
    simp only [move?, Option.ite_none_right_eq_some, Option.some.injEq] at hmove
    obtain ⟨-, rfl⟩ := hmove
    exact ⟨h.disciplined, by simp, h.books⟩
  | loop registers => exact h.loop registers hmove
  | requestStop =>
    simp only [move?, Option.some.injEq] at hmove
    subst hmove
    exact ⟨h.disciplined, h.inactive_of_phase, h.books⟩

lemma kept_start (listeners workers connectionLimit : Nat) :
    Kept (start listeners workers connectionLimit) where
  disciplined := Pool.disciplined_start workers
  inactive_of_phase := by simp [start]
  books := by
    intro _
    have hlive : (Pool.start workers : Pool Work).live = [] := by
      simp [Pool.live, Pool.start, ControllerPhase.job?, Worker.jobs, WorkerPhase.job?]
    have htravelling : (start listeners workers connectionLimit).travelling = [] := by
      rw [travelling, start, hlive]
      rfl
    rw [htravelling]
    exact .empty connectionLimit

/-- The books are right in every server that a new one can come to. -/
theorem Reachable.kept {listeners workers connectionLimit : Nat}
    (h : Reachable H listeners workers connectionLimit server) : Kept server :=
  Run.invariant (fun hkept hmove => hkept.move hmove) h
    (kept_start listeners workers connectionLimit)

end SiteServer.Server
