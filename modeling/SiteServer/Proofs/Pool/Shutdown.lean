import SiteServer.Proofs.Pool.Tallies
import SiteServer.Proofs.Pool.Wakeups
import SiteServer.Proofs.Pool.WindingDown

/-!
# Shutting a pool down

Shutting down clears the flag that the threads look at before they wait, and then raises every
signal.  A thread that has been called since the flag was cleared does not wait with its signal
lowered (`Closing`).  So when all have been called, each thread can move until it has ended or runs
a job, and the join comes to its end (`Closing.exists_move`); what it leaves behind is a pool in
which nothing starts any more (`Ended.stays`).  `shutdown_ends_all` puts this together.
-/

namespace SiteServer

variable {J : Type}

/-- The signal of the thread has been raised since the pool was told to stop. -/
def ShutdownPhase.hasCalled : ShutdownPhase → PoolThread → Bool
  | .raisingWorker _, .controller => true
  | .raisingWorker index, .worker i => i < index
  | .joining, _ | .draining, _ => true
  | .idle, _ | .raisingController, _ => false

lemma ShutdownPhase.ne_idle_of_hasCalled {phase : ShutdownPhase} {thread : PoolThread}
    (h : phase.hasCalled thread = true) : phase ≠ .idle := by
  rintro rfl
  simp [hasCalled] at h

namespace Pool

/-- All threads have ended, and the pool does not go on. -/
structure Ended (pool : Pool J) : Prop where
  inactive : pool.active = false
  controller : pool.controller = .stopped
  workers : ∀ worker ∈ pool.workers, hasEnded worker = true

/-- What holds of a pool while it is shut down. -/
structure Closing (pool : Pool J) : Prop where
  awake : ∀ thread, pool.shutdown.hasCalled thread = true → pool.waits thread = true →
    pool.signalled thread = true
  ended : pool.shutdown = .draining → pool.Ended

section Moves

variable {pool next : Pool J} {m : PoolMove J}

lemma controllerEnded_iff : pool.controllerEnded = true ↔ pool.controller = .stopped := by
  unfold controllerEnded
  cases pool.controller <;> simp

/-! ### Pools that have ended -/

/-- An ended worker has nothing left to do. -/
lemma phase_of_hasEnded {worker : Worker J} (h : hasEnded worker = true) :
    worker.phase = .stopped ∨ worker.phase = .dead := by
  unfold hasEnded at h
  cases phase : worker.phase <;> simp_all

/-- In an ended pool only submitters move, and who shuts it down once more. -/
lemma Ended.thread?_eq_none (h : pool.Ended) (moved : Moved pool m next) : m.thread? = none := by
  have running : ∀ {index : Nat} {worker : Worker J}, pool.workers[index]? = some worker →
      worker.phase = .stopped ∨ worker.phase = .dead :=
    fun found => phase_of_hasEnded (h.workers _ (List.mem_of_getElem? found))
  cases moved with
  | push => rfl
  | raise => rfl
  | shutdown => rfl
  | controller moved =>
    have hstopped := h.controller
    cases moved <;> simp_all
  | worker found moved =>
    rcases running found with hphase | hphase <;> cases moved <;> simp_all
  | finish ending found phase =>
    rcases running found with hphase | hphase <;> simp [phase] at hphase

/-- A move of a pool that has ended: a submitted job comes onto the stack, unless jobs are taken off
there and discarded. -/
lemma Ended.step (h : pool.Ended) (moved : Moved pool m next) :
    next.Ended ∧ ∃ dropped : List J, next.log = dropped.map .dropped ++ pool.log ∧
      m.submitted?.toList ++ pool.stack.items = next.stack.items ++ dropped ∧
      (m ≠ .shutdown → dropped = []) := by
  have hthread := h.thread?_eq_none moved
  have same : next.workers = pool.workers → next.controller = pool.controller → next.Ended :=
    fun workers controller => ⟨moved.inactive h.inactive, controller.trans h.controller,
      workers ▸ h.workers⟩
  cases moved with
  | push job =>
    exact ⟨same rfl rfl, [], rfl, by simp [PoolMove.submitted?, WorkStack.push], by simp⟩
  | raise => exact ⟨same rfl rfl, [], rfl, by simp [PoolMove.submitted?], by simp⟩
  | controller => simp [PoolMove.thread?] at hthread
  | worker => simp [PoolMove.thread?] at hthread
  | finish => simp [PoolMove.thread?] at hthread
  | shutdown moved' =>
    cases moved' with
    | @raiseWorker index worker phase found =>
      refine ⟨⟨h.inactive, h.controller, fun w hw => ?_⟩, [], rfl, by simp [PoolMove.submitted?],
        by simp⟩
      rcases List.mem_or_eq_of_mem_set hw with hw | rfl
      · exact h.workers w hw
      · exact h.workers worker (List.mem_of_getElem? found)
    | drain phase =>
      exact ⟨same rfl rfl, pool.stack.items, rfl, by simp [PoolMove.submitted?], by simp⟩
    | _ => exact ⟨same rfl rfl, [], rfl, by simp [PoolMove.submitted?], by simp⟩

/-- No ended worker is registered on a counter. -/
lemma Ended.counters (h : pool.Ended) (tallied : pool.Tallied) :
    pool.total = 0 ∧ pool.busy = 0 := by
  rw [tallied.total, tallied.busy, List.countP_eq_zero, List.countP_eq_zero]
  constructor <;> intro worker hmem <;>
    rcases phase_of_hasEnded (h.workers worker hmem) with phase | phase <;>
    simp [phase, WorkerPhase.isLiving, WorkerPhase.isBusy]

/-! ### Pools that are shut down -/

/-- Who has been called stays awake, and who is called is awake. -/
lemma Moved.awake (moved : Moved pool m next) (h : pool.Closing) (hd : pool.Disciplined)
    (thread : PoolThread) (called : next.shutdown.hasCalled thread = true)
    (waits : next.waits thread = true) : next.signalled thread = true := by
  by_cases before : pool.shutdown.hasCalled thread = true
  · have inactive := hd.active_of_shutdown (ShutdownPhase.ne_idle_of_hasCalled before)
    cases moved.winding inactive thread with
    | own _ _ waits' => simp [waits] at waits'
    | other _ _ waits' signalled => exact signalled (h.awake thread before (waits' ▸ waits))
  · -- the move has called the thread
    cases moved with
    | controller moved => cases moved <;> exact absurd called before
    | worker found moved => cases moved <;> exact absurd called before
    | shutdown moved =>
      cases moved with
      | raiseController phase =>
        cases thread with
        | controller => rfl
        | worker i => simp [ShutdownPhase.hasCalled] at called
      | @raiseWorker index worker phase found =>
        have hlt := (List.getElem?_eq_some_iff.1 found).1
        cases thread with
        | controller => simp [phase, ShutdownPhase.hasCalled] at before
        | worker i =>
          have hi : i = index := by
            simp only [phase, put_shutdown, ShutdownPhase.hasCalled, decide_eq_true_eq]
              at before called
            omega
          simp [signalled, hi, hlt]
      | @raisedAll index phase found =>
        cases thread with
        | controller => simp [phase, ShutdownPhase.hasCalled] at before
        | worker i =>
          have hle : index ≤ i := by simpa [phase, ShutdownPhase.hasCalled] using before
          have hnone : pool.workers[i]? = none :=
            List.getElem?_eq_none_iff.2 (Nat.le_trans (List.getElem?_eq_none_iff.1 found) hle)
          simp [Pool.waits, hnone] at waits
      | join phase => simp [phase, ShutdownPhase.hasCalled] at before
      | begin => simp [ShutdownPhase.hasCalled] at called
      | drain => simp [ShutdownPhase.hasCalled] at called
    | _ => exact absurd called before

lemma Moved.closing (moved : Moved pool m next) (h : pool.Closing) (hd : pool.Disciplined) :
    next.Closing where
  awake := moved.awake h hd
  ended := by
    intro hnext
    by_cases hpool : pool.shutdown = .draining
    · exact ((h.ended hpool).step moved).1
    · cases moved with
      | controller moved => cases moved <;> exact absurd hnext hpool
      | worker found moved => cases moved <;> exact absurd hnext hpool
      | shutdown moved =>
        cases moved with
        | join phase controller workers =>
          exact ⟨hd.active_of_shutdown (by simp [phase]), controllerEnded_iff.1 controller,
            List.all_eq_true.1 workers⟩
        | _ => simp at hnext
      | _ => exact absurd hnext hpool

lemma closing_start (size : Nat) : (start size : Pool J).Closing :=
  ⟨by simp [start, ShutdownPhase.hasCalled], by simp [start]⟩

theorem Reachable.closing {size : Nat} (h : Reachable size pool) : pool.Closing := by
  induction h with
  | start => exact closing_start size
  | step hreachable hstep ih =>
    obtain ⟨m, hm⟩ := hstep
    exact (moved_of_move? hm).closing ih hreachable.disciplined

/-! ### There is always somebody who can move -/

/-- Only at the join the thread that shuts the pool down is held up. -/
lemma shutdown_moves (h : pool.shutdown ≠ .joining) : (pool.move? .shutdown).isSome = true := by
  cases phase : pool.shutdown with
  | raisingWorker index =>
    simp only [move?, shutdownMove?, phase]
    split <;> rfl
  | joining => exact absurd phase h
  | _ => simp [move?, shutdownMove?, phase]

/-- A controller is held up only when it waits with its signal lowered. -/
lemma controller_moves (running : pool.controller ≠ .stopped)
    (awake : pool.waits .controller = true → pool.signalled .controller = true) :
    (pool.move? .controller).isSome = true := by
  cases phase : pool.controller with
  | waiting =>
    have hraised : pool.raised = true := awake (by simp [waits, phase, ControllerPhase.isWaiting])
    simp [move?, controllerMove?, phase, hraised]
  | stopped => exact absurd phase running
  | _ =>
    simp only [move?, controllerMove?, phase]
    repeat' split
    all_goals rfl

/-- A worker is held up only when it waits with its signal lowered, or runs a job. -/
lemma worker_moves {index : Nat} {worker : Worker J} (found : pool.workers[index]? = some worker)
    (running : hasEnded worker = false)
    (awake : pool.waits (.worker index) = true → pool.signalled (.worker index) = true) :
    (pool.move? (.worker index)).isSome = true ∨ ∃ job, pool.running? index = some job := by
  cases phase : worker.phase with
  | waiting =>
    left
    have hraised : worker.raised = true := by
      simpa [signalled, found] using awake (by simp [waits, found, phase, WorkerPhase.isWaiting])
    simp [move?, found, workerMove?, phase, hraised]
  | running job =>
    right
    exact ⟨job, by simp [running?_eq, Pool.running, found, phase, WorkerPhase.running?]⟩
  | fetching =>
    left
    cases slot : worker.job <;> simp [move?, found, workerMove?, phase, slot]
  | stopped => simp [hasEnded, phase] at running
  | dead => simp [hasEnded, phase] at running
  | _ => left; simp [move?, found, workerMove?, phase]

/-- While a pool is shut down, somebody can move or a job is running. -/
lemma Closing.exists_move (h : pool.Closing) :
    (pool.move? .shutdown).isSome = true ∨
    (∃ thread : PoolThread, (pool.move? thread.move).isSome = true) ∨
    ∃ index job, pool.running? index = some job := by
  by_cases hphase : pool.shutdown = .joining
  · have awake : ∀ thread, pool.waits thread = true → pool.signalled thread = true :=
      fun thread => h.awake thread (by simp [hphase, ShutdownPhase.hasCalled])
    by_cases hcontroller : pool.controller = .stopped
    · by_cases hworkers : pool.workers.all hasEnded = true
      · left
        simp [move?, shutdownMove?, hphase, controllerEnded_iff.2 hcontroller, hworkers]
      · obtain ⟨worker, hmem, hworker⟩ : ∃ worker ∈ pool.workers, hasEnded worker = false := by
          simpa using hworkers
        obtain ⟨index, found⟩ := List.mem_iff_getElem?.1 hmem
        rcases worker_moves found hworker (awake _) with hmove | ⟨job, hjob⟩
        · exact .inr (.inl ⟨.worker index, hmove⟩)
        · exact .inr (.inr ⟨index, job, hjob⟩)
    · exact .inr (.inl ⟨.controller, controller_moves hcontroller (awake _)⟩)
  · exact .inl (shutdown_moves hphase)

end Moves

/-! ### Runs -/

/-- How a pool comes to its end once all threads have been called: `more` has been done since. -/
structure WindsDown (pool : Pool J) (more : List (PoolMove J)) (last : Pool J) : Prop where
  /-- No thread is held up waiting. -/
  awake : ∀ thread, last.waits thread = true → last.signalled thread = true
  /-- A thread that waited ends its wait at most once, and no thread begins to wait. -/
  waits : ∀ thread, (pool.waitsEnded more).count thread + (last.waits thread).toNat
    ≤ (pool.waits thread).toNat
  starts : ∀ index, (last.startedBy index).length ≤ (pool.startedBy index).length + 1
  /-- There is an end to the moves of each thread. -/
  moves : ∀ thread, more.countP (·.thread? = some thread) ≤ pool.remaining thread
  /-- As long as the threads have not been joined, somebody can move or a job is running. -/
  goes_on : last.shutdown ≠ .idle →
    (last.move? .shutdown).isSome = true ∨
    (∃ thread : PoolThread, (last.move? thread.move).isSome = true) ∨
    ∃ index job, last.running? index = some job

/-- What becomes of a pool that has been shut down: `later` has been done since. -/
structure StaysDown (pool : Pool J) (later : List (PoolMove J)) (last : Pool J) : Prop where
  ended : last.Ended
  total : last.total = 0
  busy : last.busy = 0
  started : last.started = pool.started
  /-- The jobs that have been submitted since are on the stack, the newest first, or have been
  discarded by shutting the pool down again. -/
  submitted : ∃ dropped : List J, last.log = dropped.map .dropped ++ pool.log ∧
    (later.filterMap PoolMove.submitted?).reverse ++ pool.stack.items
      = last.stack.items ++ dropped ∧
    (.shutdown ∉ later → dropped = [])

/-- Nothing happens in an ended pool but that jobs come onto the stack and are discarded. -/
lemma Ended.run {pool last : Pool J} {later : List (PoolMove J)} (h : pool.Ended)
    (hlater : pool.after? later = some last) :
    last.Ended ∧ ∃ dropped : List J, last.log = dropped.map .dropped ++ pool.log ∧
      (later.filterMap PoolMove.submitted?).reverse ++ pool.stack.items
        = last.stack.items ++ dropped ∧
      (.shutdown ∉ later → dropped = []) := by
  induction later generalizing pool with
  | nil =>
    obtain rfl : pool = last := Option.some.inj hlater
    exact ⟨h, [], rfl, by simp, fun _ => rfl⟩
  | cons m rest ih =>
    obtain ⟨next, hm, hrest⟩ := after?_cons.1 hlater
    obtain ⟨hnext, first, hlog, hstack, hfirst⟩ := h.step (moved_of_move? hm)
    obtain ⟨hlast, dropped, hlog', hstack', hdropped⟩ := ih hnext hrest
    refine ⟨hlast, dropped ++ first, by simp [hlog', hlog], ?_, fun hnot => ?_⟩
    · have hsubmitted : ((m :: rest).filterMap PoolMove.submitted?).reverse
          = (rest.filterMap PoolMove.submitted?).reverse ++ m.submitted?.toList := by
        rcases hm : m.submitted? with _ | job <;> simp [hm]
      rw [hsubmitted, List.append_assoc, hstack, ← List.append_assoc, hstack', List.append_assoc]
    · obtain ⟨hhead, htail⟩ := not_or.1 (mt List.mem_cons.2 hnot)
      rw [hdropped htail, hfirst (Ne.symm hhead)]
      rfl

lemma Ended.stays {size : Nat} {pool last : Pool J} {later : List (PoolMove J)} (h : pool.Ended)
    (hlater : pool.after? later = some last) (hlast : Reachable size last) :
    StaysDown pool later last := by
  obtain ⟨ended, dropped, hlog, hstack, hdropped⟩ := h.run hlater
  obtain ⟨total, busy⟩ := ended.counters hlast.tallied
  refine ⟨ended, total, busy, ?_, dropped, hlog, hstack, hdropped⟩
  simp [started, hlog, List.filterMap_map, Function.comp_def, PoolEvent.started?]

lemma Reachable.windsDown {size : Nat} {pool last : Pool J} {more : List (PoolMove J)}
    (h : Reachable size pool) (phase : pool.shutdown = .joining)
    (hmore : pool.after? more = some last) (hlast : Reachable size last) :
    WindsDown pool more last := by
  have wound := wound_of_after? (h.disciplined.active_of_shutdown (by simp [phase])) hmore
  have awake : ∀ thread, pool.waits thread = true → pool.signalled thread = true :=
    fun thread => h.closing.awake thread (by simp [phase, ShutdownPhase.hasCalled])
  refine ⟨fun thread hwaits => ?_, fun thread => (wound thread).waits, fun index => ?_,
    fun thread => ?_, fun _ => hlast.closing.exists_move⟩
  · exact (wound thread).signalled hwaits (awake thread ((wound thread).waits_of_waits hwaits))
  · have hstarts := (wound (.worker index)).starts
    simp only [starts] at hstarts
    have hmay := Bool.toNat_le (pool.workers[index]?.any (·.phase.mayStart))
    omega
  · have hremaining := (wound thread).remaining
    omega

/-- **Shutting down does not deadlock, and ends everything.**  After any run of the threads of a
pool:

* the thread that shuts the pool down is held up only when it joins the others;
* from then on, whatever the threads do, none of them is held up waiting, each one waits at most
  once more and has a bounded number of moves left, a worker starts at most one job, and as long as
  the pool has not been shut down, somebody can move or a job is running;
* when it has been shut down, all threads have ended, nobody is counted any more, the stack is empty
  and whatever is done afterwards, no job is started, and one that is submitted stays on the stack
  unless the pool is shut down again. -/
theorem shutdown_ends_all {size : Nat} {moves : List (PoolMove J)} {pool : Pool J}
    (h : (start size).after? moves = some pool) :
    (pool.shutdown ≠ .joining → (pool.move? .shutdown).isSome = true) ∧
    (pool.shutdown = .joining →
      ∀ more last, pool.after? more = some last → WindsDown pool more last) ∧
    ∀ next, pool.shutdown ≠ .idle → pool.move? .shutdown = some next → next.shutdown = .idle →
      next.Ended ∧ next.total = 0 ∧ next.busy = 0 ∧ next.stack.items = [] ∧
      ∀ later last, next.after? later = some last → StaysDown next later last := by
  have hpool := reachable_of_after? h
  have reachable : ∀ {more : List (PoolMove J)} {last : Pool J}, pool.after? more = some last →
      Reachable size last :=
    fun hmore => reachable_of_after? (after?_append.2 ⟨pool, h, hmore⟩)
  refine ⟨shutdown_moves, fun phase more last hmore => ?_, fun next hbefore hm hafter => ?_⟩
  · exact hpool.windsDown phase hmore (reachable hmore)
  · have moved := moved_of_move? hm
    have run : ∀ {later : List (PoolMove J)} {last : Pool J}, next.after? later = some last →
        Reachable size last :=
      fun hlater => reachable (after?_cons.2 ⟨next, hm, hlater⟩)
    cases moved with
    | shutdown moved =>
      cases moved with
      | begin phase => exact absurd phase hbefore
      | drain phase =>
        have hended := ((hpool.closing.ended phase).step (.shutdown (.drain phase))).1
        obtain ⟨total, busy⟩ := hended.counters (hpool.step ⟨_, hm⟩).tallied
        exact ⟨hended, total, busy, rfl, fun later last hlater => hended.stays hlater (run hlater)⟩
      | _ => simp at hafter

/-- A pool of two workers is shut down while one of them runs a job and another job is pending. -/
def stopBusy : List (PoolMove Nat) :=
  [.worker 0, .worker 0, .push 1, .raise, .controller, .controller, .controller, .controller,
    .controller, .controller, .worker 0, .worker 0, .worker 0, .push 2, .shutdown, .shutdown,
    .shutdown, .shutdown, .shutdown]

/-- The threads of that pool end. -/
def endBusy : List (PoolMove Nat) :=
  [.finish 0 .normal, .controller, .controller, .controller, .worker 0, .worker 0, .worker 0,
    .worker 0, .worker 0, .worker 1, .worker 1, .worker 1, .shutdown]

theorem shutdown_ends_all_stopBusy :
    (∃ pool : Pool Nat, (start 2).after? stopBusy = some pool ∧ pool.running? 0 = some 1 ∧
      pool.stack.items = [2] ∧
      ∀ more last, pool.after? more = some last → WindsDown pool more last) ∧
    ∃ pool next : Pool Nat, (start 2).after? (stopBusy ++ endBusy) = some pool ∧
      pool.move? .shutdown = some next ∧ next.Ended ∧ next.started = [1] ∧
      ∀ later last, next.after? later = some last → StaysDown next later last := by
  have hfirst : ∃ pool : Pool Nat, (start 2).after? stopBusy = some pool ∧
      pool.running? 0 = some 1 ∧ pool.stack.items = [2] ∧ pool.shutdown = .joining :=
    ⟨_, rfl, by decide⟩
  have hsecond : ∃ pool next : Pool Nat, (start 2).after? (stopBusy ++ endBusy) = some pool ∧
      pool.move? .shutdown = some next ∧ pool.shutdown = .draining ∧ next.shutdown = .idle ∧
      next.started = [1] := ⟨_, _, rfl, rfl, by decide⟩
  obtain ⟨pool, h, hrunning, hstack, hphase⟩ := hfirst
  obtain ⟨pool', next, h', hm, hbefore, hafter, hstarted⟩ := hsecond
  have hended := (shutdown_ends_all h').2.2 next (by simp [hbefore]) hm hafter
  exact ⟨⟨pool, h, hrunning, hstack, (shutdown_ends_all h).2.1 hphase⟩, pool', next, h', hm,
    hended.1, hstarted, hended.2.2.2.2⟩

end Pool

end SiteServer
