import Mathlib.Data.List.Induction
import SiteServer.Proofs.Pool.Custody
import SiteServer.Proofs.Pool.Tallies

/-!
# No wake-up of the controller is lost

The controller gives up when it has looked at every slot and found each one marked.  Meanwhile slots
may become idle behind it, and what makes it look again is its signal.  As long as nobody shuts the
pool down, every slot that it has passed in vain is still marked, or a wake-up is due: the signal is
raised, or a submitter or a worker is just about to raise it (`Attended`).  So when no thread can
move by itself and a job is left on the stack, no worker is waiting (`no_lost_wakeup`).
-/

namespace SiteServer

variable {J : Type}

/-- The worker's job broke down, and its thread has ended. -/
def WorkerPhase.isDead : WorkerPhase J → Bool
  | .dead => true
  | _ => false

namespace Worker.Orderly

variable {worker : Worker J}

/-- Nothing has been put into the slot of a worker that waits without having been called. -/
lemma of_lowered (h : worker.Orderly false) (phase : worker.phase = .waiting)
    (lowered : worker.raised = false) : worker.marked = false ∧ worker.job = none := by
  cases h with
  | idle => exact ⟨rfl, rfl⟩
  | called => simp at lowered
  | fetching => simp at phase
  | engaged engaged => obtain rfl := phase; simp [WorkerPhase.isEngaged] at engaged

lemma marked_of_isEngaged {due : Bool} (h : worker.Orderly due)
    (engaged : worker.phase.isEngaged = true) : worker.marked = true :=
  congrArg Worker.marked (h.eq_of_isEngaged engaged).2

end Worker.Orderly

namespace Pool

/-- The controller's signal is raised, or a submitter or a worker is about to raise it. -/
def WakeupDue (pool : Pool J) : Prop :=
  pool.raised = true ∨ pool.raisesDue ≠ 0 ∨
    ∃ (index : Nat) (worker : Worker J), pool.workers[index]? = some worker ∧
      worker.phase = .reporting

/-- How many slots the controller has passed in vain, with a job left over that nobody has taken
since. -/
def passed (pool : Pool J) : Nat :=
  match pool.controller with
  | .scanning _ index => index
  | .returning _ => pool.workers.length
  | .checking | .waiting => if pool.stack.items = [] then 0 else pool.workers.length
  | _ => 0

/-- The first slots are all marked. -/
def MarkedBelow (pool : Pool J) (bound : Nat) : Prop :=
  ∀ (index : Nat) (worker : Worker J), index < bound → pool.workers[index]? = some worker →
    worker.marked = true

/-- The controller will be woken, or it has nothing to look for in the slots that it has passed. -/
def Attended (pool : Pool J) : Prop :=
  pool.WakeupDue ∨ pool.MarkedBelow pool.passed

section Moves

variable {pool next : Pool J} {index : Nat} {worker new : Worker J}

lemma markedBelow_zero (pool : Pool J) : pool.MarkedBelow 0 :=
  fun _ _ hlt => absurd hlt (Nat.not_lt_zero _)

lemma MarkedBelow.mono {bound bound' : Nat} (h : pool.MarkedBelow bound) (hle : bound' ≤ bound) :
    pool.MarkedBelow bound' :=
  fun i w hlt => h i w (Nat.lt_of_lt_of_le hlt hle)

/-- The slot after the last one that has been looked at is marked as well. -/
lemma MarkedBelow.succ (h : pool.MarkedBelow index) (found : pool.workers[index]? = some worker)
    (marked : worker.marked = true) : pool.MarkedBelow (index + 1) := by
  intro i w hlt hw
  rcases Nat.lt_succ_iff_lt_or_eq.1 hlt with hlt | rfl
  · exact h i w hlt hw
  · obtain rfl : worker = w := Option.some.inj (found.symm.trans hw)
    exact marked

/-- Nothing changes for the controller but its phase, which has passed no more slots. -/
lemma Attended.of_workers_eq (h : pool.Attended) (workers : next.workers = pool.workers)
    (raised : next.raised = pool.raised) (raisesDue : next.raisesDue = pool.raisesDue)
    (passed : next.passed ≤ pool.passed) : next.Attended := by
  rcases h with due | marked
  · left
    unfold WakeupDue
    rw [raised, raisesDue, workers]
    exact due
  · right
    intro i w hlt hw
    exact marked.mono passed i w hlt (workers ▸ hw)

/-- A controller that has passed no slot is attended. -/
lemma attended_of_passed_eq_zero (h : pool.passed = 0) : pool.Attended :=
  .inr (h ▸ markedBelow_zero pool)

/-- One worker moves on and leaves its mark, and no wake-up gets lost with it. -/
lemma Attended.put (h : pool.Attended) (found : pool.workers[index]? = some worker)
    (reporting : worker.phase ≠ .reporting) (workers : next.workers = pool.workers.set index new)
    (marked : new.marked = worker.marked) (raised : next.raised = pool.raised)
    (raisesDue : next.raisesDue = pool.raisesDue) (passed : next.passed = pool.passed) :
    next.Attended := by
  rcases h with (hraised | hdue | ⟨i, w, hw, hphase⟩) | hmarked
  · exact .inl (.inl (raised ▸ hraised))
  · exact .inl (.inr (.inl (raisesDue ▸ hdue)))
  · -- the worker that is about to report is another one
    have hi : index ≠ i := by
      rintro rfl
      obtain rfl : worker = w := Option.some.inj (found.symm.trans hw)
      exact reporting hphase
    refine .inl (.inr (.inr ⟨i, w, ?_, hphase⟩))
    rw [workers, List.getElem?_set_ne hi, hw]
  · right
    rw [MarkedBelow, passed, workers]
    intro i w hlt hw
    by_cases hi : index = i
    · subst hi
      obtain ⟨hlen, -⟩ := List.getElem?_eq_some_iff.1 found
      rw [List.getElem?_set_self hlen] at hw
      rw [← Option.some.inj hw, marked]
      exact hmarked index worker hlt found
    · rw [List.getElem?_set_ne hi] at hw
      exact hmarked i w hlt hw

lemma passed_put (pool : Pool J) (index : Nat) (new : Worker J) :
    (pool.put index new).passed = pool.passed := by
  simp only [passed, put_controller, put_stack, put_workers, List.length_set]

lemma WorkerMoved.attended (moved : WorkerMoved pool index worker next)
    (found : pool.workers[index]? = some worker) (h : pool.Attended) : next.Attended := by
  cases moved with
  | start phase =>
    exact h.put found (by simp [phase]) rfl rfl rfl rfl (passed_put _ _ _)
  | goOn phase => exact h.put found (by simp [phase]) rfl rfl rfl rfl (passed_put _ _ _)
  | giveUp phase => exact h.put found (by simp [phase]) rfl rfl rfl rfl (passed_put _ _ _)
  | wake phase => exact h.put found (by simp [phase]) rfl rfl rfl rfl (passed_put _ _ _)
  | fetch phase => exact h.put found (by simp [phase]) rfl rfl rfl rfl (passed_put _ _ _)
  | miss phase => exact h.put found (by simp [phase]) rfl rfl rfl rfl (passed_put _ _ _)
  | enter phase => exact h.put found (by simp [phase]) rfl rfl rfl rfl (passed_put _ _ _)
  | leave phase => exact h.put found (by simp [phase]) rfl rfl rfl rfl (passed_put _ _ _)
  | clear phase =>
    -- the slot is idle from now on, and its worker is about to say so
    have hlen := (List.getElem?_eq_some_iff.1 found).1
    exact .inl (.inr (.inr ⟨index, _, by rw [put_workers, List.getElem?_set_self hlen], rfl⟩))
  | report phase => exact .inl (.inl rfl)
  | stop phase => exact h.put found (by simp [phase]) rfl rfl rfl rfl (passed_put _ _ _)
  | unwind phase => exact h.put found (by simp [phase]) rfl rfl rfl rfl (passed_put _ _ _)
  | die phase => exact h.put found (by simp [phase]) rfl rfl rfl rfl (passed_put _ _ _)

lemma ControllerMoved.attended (moved : ControllerMoved pool next) (active : pool.active = true)
    (h : pool.Attended) : next.Attended := by
  cases moved with
  | goOn phase => exact h.of_workers_eq rfl rfl rfl (by simp [passed, phase])
  | stop phase inactive => simp [active] at inactive
  | wake phase => exact attended_of_passed_eq_zero rfl
  | pop phase => exact attended_of_passed_eq_zero rfl
  | rest phase stack => exact attended_of_passed_eq_zero (by simp [passed, stack])
  | hold phase => exact attended_of_passed_eq_zero rfl
  | drop phase inactive => simp [active] at inactive
  | @skip job index worker phase found marked =>
    rcases h with due | below
    · exact .inl due
    · rw [show pool.passed = index by simp [passed, phase]] at below
      exact .inr (below.succ found marked)
  | assign phase found => exact attended_of_passed_eq_zero rfl
  | @scanned job index phase found =>
    have hle : pool.workers.length ≤ index := List.getElem?_eq_none_iff.1 found
    exact h.of_workers_eq rfl rfl rfl (by simp [passed, phase, hle])
  | raise phase found => exact attended_of_passed_eq_zero rfl
  | raiseNone phase found => exact attended_of_passed_eq_zero rfl
  | putBack phase =>
    exact h.of_workers_eq rfl rfl rfl (by simp [passed, phase, WorkStack.push])

/-- As long as nobody shuts the pool down, every move leaves the controller attended. -/
theorem Moved.attended {m : PoolMove J} (moved : Moved pool m next) (active : pool.active = true)
    (hm : m ≠ .shutdown) (h : pool.Attended) : next.Attended := by
  cases moved with
  | push => exact .inl (.inr (.inl (Nat.succ_ne_zero _)))
  | raise => exact .inl (.inl rfl)
  | controller moved => exact moved.attended active h
  | worker found moved => exact moved.attended found h
  | finish ending found phase =>
    exact h.put found (by simp [phase]) rfl rfl rfl rfl (passed_put _ _ _)
  | shutdown => exact absurd rfl hm

/-- The controller stops only when the pool is being shut down. -/
lemma Moved.controller_ne_stopped {m : PoolMove J} (moved : Moved pool m next)
    (active : pool.active = true) (h : pool.controller ≠ .stopped) :
    next.controller ≠ .stopped := by
  cases moved with
  | controller moved =>
    cases moved with
    | stop phase inactive => simp [active] at inactive
    | _ => simp
  | worker found moved => cases moved <;> exact h
  | shutdown moved => cases moved <;> exact h
  | _ => exact h

end Moves

/-! ### Runs -/

/-- A run leads to a pool that a new one can come to. -/
lemma reachable_of_after? {size : Nat} {moves : List (PoolMove J)} {pool : Pool J}
    (h : (start size).after? moves = some pool) : Reachable size pool := by
  induction moves using List.reverseRecOn generalizing pool with
  | nil =>
    obtain rfl : start size = pool := Option.some.inj h
    exact .start
  | append_singleton moves m ih =>
    obtain ⟨before, hbefore, hm⟩ := after?_append_singleton.1 h
    exact (ih hbefore).step ⟨m, hm⟩

/-- What holds of a pool that nobody has shut down. -/
structure Serving (pool : Pool J) : Prop where
  active : pool.active = true
  controller : pool.controller ≠ .stopped
  attended : pool.Attended

/-- A move that does not shut the pool down leaves it serving. -/
lemma Serving.step {pool next : Pool J} {m : PoolMove J} (h : pool.Serving)
    (moved : Moved pool m next) (hm : m ≠ .shutdown) : next.Serving := by
  refine ⟨?_, moved.controller_ne_stopped h.active h.controller,
    moved.attended h.active hm h.attended⟩
  rcases moved.active_eq with heq | heq
  · rw [heq, h.active]
  · exact absurd heq hm

lemma serving_start (size : Nat) : (start size : Pool J).Serving :=
  ⟨rfl, by simp [start], attended_of_passed_eq_zero rfl⟩

/-- A run that does not shut the pool down leaves it serving. -/
theorem serving_of_after? {size : Nat} {moves : List (PoolMove J)} {pool : Pool J}
    (h : (start size).after? moves = some pool) (hmoves : .shutdown ∉ moves) : pool.Serving := by
  induction moves using List.reverseRecOn generalizing pool with
  | nil =>
    obtain rfl : start size = pool := Option.some.inj h
    exact serving_start size
  | append_singleton moves m ih =>
    obtain ⟨before, hbefore, hm⟩ := after?_append_singleton.1 h
    obtain ⟨hfront, hlast⟩ := not_or.1 (mt List.mem_append.2 hmoves)
    exact (ih hbefore hfront).step (moved_of_move? hm) fun heq => hlast (by simp [heq])

/-! ### Pools at rest -/

/-- The worker does not move by itself. -/
inductive WorkerRests (worker : Worker J) : Prop where
  | waits (phase : worker.phase = .waiting) (lowered : worker.raised = false)
  | runs {job : J} (phase : worker.phase = .running job)
  | died (phase : worker.phase = .dead)

/-- Nobody moves by himself: no submitter is between putting a job onto the stack and raising the
signal, the controller waits with its signal lowered, and each worker waits with its signal lowered,
runs a job that has not ended, or is dead. -/
structure Resting (pool : Pool J) : Prop where
  raisesDue : pool.raisesDue = 0
  controller : pool.controller = .waiting
  lowered : pool.raised = false
  workers : ∀ worker ∈ pool.workers, WorkerRests worker

/-- When a job is left on the stack of a resting pool, every slot is marked. -/
lemma Resting.marked_of_stack_ne_nil {pool : Pool J} (hrest : pool.Resting)
    (h : pool.Attended) (hstack : pool.stack.items ≠ []) {worker : Worker J}
    (hmem : worker ∈ pool.workers) : worker.marked = true := by
  obtain ⟨index, found⟩ := List.mem_iff_getElem?.1 hmem
  rcases h with (hraised | hdue | ⟨i, reporter, hreporter, hphase⟩) | hbelow
  · simp [hrest.lowered] at hraised
  · exact absurd hrest.raisesDue hdue
  · rcases hrest.workers reporter (List.mem_of_getElem? hreporter) with
      ⟨phase, -⟩ | ⟨phase⟩ | ⟨phase⟩ <;> simp [hphase] at phase
  · have hpassed : pool.passed = pool.workers.length := by
      simp [passed, hrest.controller, hstack]
    exact hbelow index worker (hpassed ▸ (List.getElem?_eq_some_iff.1 found).1) found

/-- In a pool that is serving, resting means that no submitter, controller or worker has a move. -/
theorem resting_iff {pool : Pool J} (h : pool.Serving) (hd : pool.Disciplined) :
    pool.Resting ↔ pool.move? .raise = none ∧ pool.move? .controller = none ∧
      ∀ index, pool.move? (.worker index) = none := by
  constructor
  · intro hrest
    refine ⟨by simp [move?, hrest.raisesDue],
      by simp [move?, controllerMove?, hrest.controller, hrest.lowered], fun index => ?_⟩
    rcases found : pool.workers[index]? with _ | worker
    · simp [move?, found]
    · simp only [move?, found, Option.bind_some]
      rcases hrest.workers worker (List.mem_of_getElem? found) with
        ⟨phase, lowered⟩ | ⟨phase⟩ | ⟨phase⟩
      · simp [workerMove?, phase, lowered]
      · simp [workerMove?, phase]
      · simp [workerMove?, phase]
  · rintro ⟨hraise, hcontroller, hworkers⟩
    have hwaiting : pool.controller = .waiting ∧ pool.raised = false := by
      have hne := h.controller
      simp only [move?, controllerMove?] at hcontroller
      repeat' split at hcontroller
      all_goals simp_all
    refine ⟨by simpa [move?] using hraise, hwaiting.1, hwaiting.2, fun worker hmem => ?_⟩
    obtain ⟨index, found⟩ := List.mem_iff_getElem?.1 hmem
    have hmove := hworkers index
    have horderly := hd.orderly h.active index worker found
    simp only [move?, found, Option.bind_some] at hmove
    cases phase : worker.phase with
    | waiting => exact .waits phase (by simpa [workerMove?, phase] using hmove)
    | running job => exact .runs phase
    | dead => exact .died phase
    | stopped =>
      obtain ⟨-, job, rfl⟩ :=
        horderly.exists_eq_fetching (by rw [phase]; rfl) (by rw [phase]; rfl)
      simp at phase
    | fetching => cases slot : worker.job <;> simp [workerMove?, phase, slot] at hmove
    | _ => simp [workerMove?, phase] at hmove

/-- **No lost wake-up.**  After any run of the threads that does not shut the pool down, in which
jobs are submitted and end in either way: if nobody can move by himself, then

* when a job is left on the stack, no worker is waiting;
* a waiting worker has an unmarked, empty slot, and the slot of a running or dead one is marked;
* the counters say how many workers run a job and how many are alive. -/
theorem no_lost_wakeup {size : Nat} {moves : List (PoolMove J)} {pool : Pool J}
    (h : (start size).after? moves = some pool) (hmoves : .shutdown ∉ moves)
    (hrest : pool.Resting) :
    (pool.stack.items ≠ [] → ∀ worker ∈ pool.workers,
      worker.phase ≠ .waiting ∧ ((∃ job, worker.phase = .running job) ∨ worker.phase = .dead)) ∧
    (∀ worker ∈ pool.workers, worker.phase = .waiting →
      worker.marked = false ∧ worker.job = none) ∧
    (∀ worker ∈ pool.workers, (∃ job, worker.phase = .running job) ∨ worker.phase = .dead →
      worker.marked = true) ∧
    pool.busy = pool.workers.countP (·.phase.running?.isSome) ∧
    pool.total = pool.workers.countP (!·.phase.isDead) := by
  have hserving := serving_of_after? h hmoves
  have hreachable := reachable_of_after? h
  have horderly : ∀ worker ∈ pool.workers, worker.Orderly false := by
    intro worker hmem
    obtain ⟨index, found⟩ := List.mem_iff_getElem?.1 hmem
    have hraises : pool.controller.raises index = false := by rw [hrest.controller]; rfl
    exact hraises ▸ hreachable.disciplined.orderly hserving.active index worker found
  have hwaiting : ∀ worker ∈ pool.workers, worker.phase = .waiting →
      worker.marked = false ∧ worker.job = none := by
    intro worker hmem phase
    rcases hrest.workers worker hmem with ⟨-, lowered⟩ | ⟨phase'⟩ | ⟨phase'⟩
    · exact (horderly worker hmem).of_lowered phase lowered
    · simp [phase] at phase'
    · simp [phase] at phase'
  have hmarked : ∀ worker ∈ pool.workers,
      (∃ job, worker.phase = .running job) ∨ worker.phase = .dead → worker.marked = true := by
    rintro worker hmem (⟨job, phase⟩ | phase)
    · exact (horderly worker hmem).marked_of_isEngaged (by rw [phase]; rfl)
    · exact (horderly worker hmem).marked_of_isEngaged (by rw [phase]; rfl)
  refine ⟨fun hstack worker hmem => ?_, hwaiting, hmarked, ?_, ?_⟩
  · -- the controller has passed all slots, so each of them is marked
    have hall : worker.marked = true := hrest.marked_of_stack_ne_nil hserving.attended hstack hmem
    rcases hrest.workers worker hmem with ⟨phase, -⟩ | ⟨phase⟩ | ⟨phase⟩
    · rw [(hwaiting worker hmem phase).1] at hall
      simp at hall
    · exact ⟨by simp [phase], .inl ⟨_, phase⟩⟩
    · exact ⟨by simp [phase], .inr phase⟩
  · rw [hreachable.tallied.busy]
    refine List.countP_congr fun worker hmem => ?_
    rcases hrest.workers worker hmem with ⟨phase, -⟩ | ⟨phase⟩ | ⟨phase⟩ <;>
      simp [phase, WorkerPhase.isBusy, WorkerPhase.running?]
  · rw [hreachable.tallied.total]
    refine List.countP_congr fun worker hmem => ?_
    rcases hrest.workers worker hmem with ⟨phase, -⟩ | ⟨phase⟩ | ⟨phase⟩ <;>
      simp [phase, WorkerPhase.isLiving, WorkerPhase.isDead]

/-- A run of two workers in which one job breaks down, one goes on, and the third finds no
worker. -/
def crowding : List (PoolMove Nat) :=
  [.push 1, .raise] ++ List.replicate 8 .controller ++ List.replicate 5 (.worker 0)
    ++ [.finish 0 .panic, .worker 0, .worker 0, .push 2, .raise] ++ List.replicate 8 .controller
    ++ List.replicate 5 (.worker 1) ++ [.push 3, .raise] ++ List.replicate 8 .controller

/-- What that run leads to. -/
def crowded : Pool Nat :=
  { stack := ⟨[3]⟩
    controller := .waiting
    workers := [{ phase := .dead, marked := true }, { phase := .running 2, marked := true }]
    total := 1
    busy := 1
    log := [.started 2 1, .ended 1 0 .panic, .started 1 0] }

theorem no_lost_wakeup_crowded :
    (start 2).after? crowding = some crowded ∧ crowded.Resting ∧ crowded.stack.items = [3] ∧
      (∀ worker ∈ crowded.workers, worker.phase ≠ .waiting) ∧
      crowded.busy = crowded.workers.countP (·.phase.running?.isSome) ∧
      crowded.total = crowded.workers.countP (!·.phase.isDead) := by
  have hrun : (start 2).after? crowding = some crowded := by decide
  have hrest : crowded.Resting := by
    refine ⟨rfl, rfl, rfl, fun worker hmem => ?_⟩
    simp only [crowded, List.mem_cons, List.not_mem_nil, or_false] at hmem
    rcases hmem with rfl | rfl
    · exact .died rfl
    · exact .runs rfl
  obtain ⟨hwaiting, -, -, hbusy, htotal⟩ := no_lost_wakeup hrun (by decide) hrest
  have hstack : crowded.stack.items ≠ [] := by decide
  exact ⟨hrun, hrest, rfl, fun worker hmem => (hwaiting hstack worker hmem).1, hbusy, htotal⟩

end Pool

end SiteServer
