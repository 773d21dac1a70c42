import Mathlib.Data.List.Basic
import SiteServer.Pool.Threads

/-!
# What the threads of a pool can do

Every move of a pool, written out once: what has to hold for a thread to make it, and the pool that
it leaves behind.  `Moved` has one rule for each place in a thread's loop, and `moved_of_move?` says
that there are no other moves, so that an invariant is checked rule by rule.
-/

namespace SiteServer.Pool

variable {J : Type}

/-- The pool with a worker put at an index. -/
def put (pool : Pool J) (index : Nat) (worker : Worker J) : Pool J :=
  { pool with workers := pool.workers.set index worker }

section Put

variable (pool : Pool J) (index : Nat) (worker : Worker J)

@[simp] lemma put_workers : (pool.put index worker).workers = pool.workers.set index worker := rfl

@[simp] lemma put_stack : (pool.put index worker).stack = pool.stack := rfl

@[simp] lemma put_active : (pool.put index worker).active = pool.active := rfl

@[simp] lemma put_raised : (pool.put index worker).raised = pool.raised := rfl

@[simp] lemma put_controller : (pool.put index worker).controller = pool.controller := rfl

@[simp] lemma put_total : (pool.put index worker).total = pool.total := rfl

@[simp] lemma put_busy : (pool.put index worker).busy = pool.busy := rfl

@[simp] lemma put_raisesDue : (pool.put index worker).raisesDue = pool.raisesDue := rfl

@[simp] lemma put_shutdown : (pool.put index worker).shutdown = pool.shutdown := rfl

@[simp] lemma put_log : (pool.put index worker).log = pool.log := rfl

end Put

/-- Changing the worker at an index puts the changed one there. -/
lemma updateWorker_eq_put {pool : Pool J} {index : Nat} {worker : Worker J}
    (h : pool.workers[index]? = some worker) (f : Worker J → Worker J) :
    pool.updateWorker index f = pool.put index (f worker) := by
  have hworkers : pool.workers.modify index f = pool.workers.set index (f worker) := by
    apply List.ext_getElem?
    intro i
    rw [List.getElem?_modify, List.getElem?_set]
    by_cases hi : index = i
    · subst hi
      obtain ⟨hlt, rfl⟩ := List.getElem?_eq_some_iff.1 h
      simp [hlt]
    · simp [hi]
  rw [updateWorker, hworkers, put]

/-- The moves of a worker thread between its jobs. -/
inductive WorkerMoved (pool : Pool J) (index : Nat) (worker : Worker J) : Pool J → Prop where
  | start (phase : worker.phase = .starting) :
      WorkerMoved pool index worker
        ({ pool with total := pool.total + 1 }.put index { worker with phase := .checking })
  | goOn (phase : worker.phase = .checking) (active : pool.active = true) :
      WorkerMoved pool index worker (pool.put index { worker with phase := .waiting })
  | giveUp (phase : worker.phase = .checking) (active : pool.active = false) :
      WorkerMoved pool index worker (pool.put index { worker with phase := .stopping })
  | wake (phase : worker.phase = .waiting) (raised : worker.raised = true) :
      WorkerMoved pool index worker
        (pool.put index { worker with phase := .fetching, raised := false })
  | fetch {job : J} (phase : worker.phase = .fetching) (slot : worker.job = some job) :
      WorkerMoved pool index worker
        (pool.put index { worker with phase := .entering job, job := none })
  /-- There is no job in the slot. -/
  | miss (phase : worker.phase = .fetching) (slot : worker.job = none) :
      WorkerMoved pool index worker (pool.put index { worker with phase := .clearing })
  | enter {job : J} (phase : worker.phase = .entering job) :
      WorkerMoved pool index worker
        ({ pool with busy := pool.busy + 1, log := .started job index :: pool.log }.put index
          { worker with phase := .running job })
  | leave (phase : worker.phase = .leaving) :
      WorkerMoved pool index worker
        ({ pool with busy := pool.busy - 1 }.put index { worker with phase := .clearing })
  | clear (phase : worker.phase = .clearing) :
      WorkerMoved pool index worker
        (pool.put index { worker with phase := .reporting, marked := false })
  | report (phase : worker.phase = .reporting) :
      WorkerMoved pool index worker
        ({ pool with raised := true }.put index { worker with phase := .checking })
  | stop (phase : worker.phase = .stopping) :
      WorkerMoved pool index worker
        ({ pool with total := pool.total - 1 }.put index { worker with phase := .stopped })
  | unwind (phase : worker.phase = .unwinding) :
      WorkerMoved pool index worker
        ({ pool with busy := pool.busy - 1 }.put index { worker with phase := .dying })
  | die (phase : worker.phase = .dying) :
      WorkerMoved pool index worker
        ({ pool with total := pool.total - 1 }.put index { worker with phase := .dead })

/-- The moves of the controller thread. -/
inductive ControllerMoved (pool : Pool J) : Pool J → Prop where
  | goOn (phase : pool.controller = .checking) (active : pool.active = true) :
      ControllerMoved pool { pool with controller := .waiting }
  | stop (phase : pool.controller = .checking) (active : pool.active = false) :
      ControllerMoved pool { pool with controller := .stopped }
  | wake (phase : pool.controller = .waiting) (raised : pool.raised = true) :
      ControllerMoved pool { pool with controller := .popping, raised := false }
  | pop {job : J} {rest : List J} (phase : pool.controller = .popping)
      (stack : pool.stack.items = job :: rest) :
      ControllerMoved pool { pool with controller := .holding job, stack := ⟨rest⟩ }
  /-- The stack is empty. -/
  | rest (phase : pool.controller = .popping) (stack : pool.stack.items = []) :
      ControllerMoved pool { pool with controller := .checking }
  | hold {job : J} (phase : pool.controller = .holding job) (active : pool.active = true) :
      ControllerMoved pool { pool with controller := .scanning job 0 }
  | drop {job : J} (phase : pool.controller = .holding job) (active : pool.active = false) :
      ControllerMoved pool { pool with controller := .checking, log := .dropped job :: pool.log }
  | skip {job : J} {index : Nat} {worker : Worker J} (phase : pool.controller = .scanning job index)
      (found : pool.workers[index]? = some worker) (marked : worker.marked = true) :
      ControllerMoved pool { pool with controller := .scanning job (index + 1) }
  | assign {job : J} {index : Nat} {worker : Worker J}
      (phase : pool.controller = .scanning job index)
      (found : pool.workers[index]? = some worker) (marked : worker.marked = false) :
      ControllerMoved pool
        ({ pool with controller := .raising index }.put index
          { worker with marked := true, job := some job })
  /-- Every slot has been looked at. -/
  | scanned {job : J} {index : Nat} (phase : pool.controller = .scanning job index)
      (found : pool.workers[index]? = none) :
      ControllerMoved pool { pool with controller := .returning job }
  | raise {index : Nat} {worker : Worker J} (phase : pool.controller = .raising index)
      (found : pool.workers[index]? = some worker) :
      ControllerMoved pool
        ({ pool with controller := .popping }.put index { worker with raised := true })
  /-- There is no worker to be called. -/
  | raiseNone {index : Nat} (phase : pool.controller = .raising index)
      (found : pool.workers[index]? = none) :
      ControllerMoved pool { pool with controller := .popping }
  | putBack {job : J} (phase : pool.controller = .returning job) :
      ControllerMoved pool
        { pool with controller := .checking, stack := pool.stack.push job }

/-- The moves of the thread that shuts the pool down. -/
inductive ShutdownMoved (pool : Pool J) : Pool J → Prop where
  | begin (phase : pool.shutdown = .idle) :
      ShutdownMoved pool { pool with active := false, shutdown := .raisingController }
  | raiseController (phase : pool.shutdown = .raisingController) :
      ShutdownMoved pool { pool with raised := true, shutdown := .raisingWorker 0 }
  | raiseWorker {index : Nat} {worker : Worker J} (phase : pool.shutdown = .raisingWorker index)
      (found : pool.workers[index]? = some worker) :
      ShutdownMoved pool
        ({ pool with shutdown := .raisingWorker (index + 1) }.put index
          { worker with raised := true })
  | raisedAll {index : Nat} (phase : pool.shutdown = .raisingWorker index)
      (found : pool.workers[index]? = none) :
      ShutdownMoved pool { pool with shutdown := .joining }
  | join (phase : pool.shutdown = .joining) (controller : pool.controllerEnded = true)
      (workers : pool.workers.all hasEnded = true) :
      ShutdownMoved pool { pool with shutdown := .draining }
  | drain (phase : pool.shutdown = .draining) :
      ShutdownMoved pool
        { pool with
          shutdown := .idle
          stack := {}
          log := pool.stack.items.map .dropped ++ pool.log }

/-- All moves of a pool. -/
inductive Moved (pool : Pool J) : PoolMove J → Pool J → Prop where
  | push (job : J) :
      Moved pool (.push job)
        { pool with stack := pool.stack.push job, raisesDue := pool.raisesDue + 1 }
  | raise (due : pool.raisesDue ≠ 0) :
      Moved pool .raise { pool with raised := true, raisesDue := pool.raisesDue - 1 }
  | controller {next : Pool J} (moved : ControllerMoved pool next) : Moved pool .controller next
  | worker {index : Nat} {worker : Worker J} {next : Pool J}
      (found : pool.workers[index]? = some worker) (moved : WorkerMoved pool index worker next) :
      Moved pool (.worker index) next
  | finish {index : Nat} {worker : Worker J} {job : J} (ending : Ending)
      (found : pool.workers[index]? = some worker) (phase : worker.phase = .running job) :
      Moved pool (.finish index ending)
        ({ pool with log := .ended job index ending :: pool.log }.put index
          { worker with phase := phaseAfter ending })
  | shutdown {next : Pool J} (moved : ShutdownMoved pool next) : Moved pool .shutdown next

lemma workerMoved_of_workerMove? {pool next : Pool J} {index : Nat} {worker : Worker J}
    (found : pool.workers[index]? = some worker)
    (h : pool.workerMove? index worker = some next) : WorkerMoved pool index worker next := by
  cases phase : worker.phase with
  | starting =>
    simp only [workerMove?, phase, setPhase, Option.some.injEq] at h
    rw [← h, updateWorker_eq_put (by exact found)]
    exact .start phase
  | checking =>
    simp only [workerMove?, phase, setPhase, Option.some.injEq] at h
    rw [← h, updateWorker_eq_put found]
    cases active : pool.active with
    | true => exact .goOn phase active
    | false => exact .giveUp phase active
  | waiting =>
    simp only [workerMove?, phase, Option.ite_none_right_eq_some, Option.some.injEq] at h
    rw [← h.2, updateWorker_eq_put found]
    exact .wake phase h.1
  | fetching =>
    cases slot : worker.job with
    | none =>
      simp only [workerMove?, phase, slot, setPhase, Option.some.injEq] at h
      rw [← h, updateWorker_eq_put found]
      exact .miss phase slot
    | some job =>
      simp only [workerMove?, phase, slot, Option.some.injEq] at h
      rw [← h, updateWorker_eq_put found]
      exact .fetch phase slot
  | entering job =>
    simp only [workerMove?, phase, setPhase, Option.some.injEq] at h
    rw [← h, updateWorker_eq_put (by exact found)]
    exact .enter phase
  | running job => simp [workerMove?, phase] at h
  | leaving =>
    simp only [workerMove?, phase, setPhase, Option.some.injEq] at h
    rw [← h, updateWorker_eq_put (by exact found)]
    exact .leave phase
  | clearing =>
    simp only [workerMove?, phase, Option.some.injEq] at h
    rw [← h, updateWorker_eq_put found]
    exact .clear phase
  | reporting =>
    simp only [workerMove?, phase, setPhase, Option.some.injEq] at h
    rw [← h, updateWorker_eq_put (by exact found)]
    exact .report phase
  | stopping =>
    simp only [workerMove?, phase, setPhase, Option.some.injEq] at h
    rw [← h, updateWorker_eq_put (by exact found)]
    exact .stop phase
  | unwinding =>
    simp only [workerMove?, phase, setPhase, Option.some.injEq] at h
    rw [← h, updateWorker_eq_put (by exact found)]
    exact .unwind phase
  | dying =>
    simp only [workerMove?, phase, setPhase, Option.some.injEq] at h
    rw [← h, updateWorker_eq_put (by exact found)]
    exact .die phase
  | stopped => simp [workerMove?, phase] at h
  | dead => simp [workerMove?, phase] at h

/-- A worker that is not there is not changed. -/
lemma updateWorker_of_getElem?_eq_none {pool : Pool J} {index : Nat}
    (h : pool.workers[index]? = none) (f : Worker J → Worker J) :
    pool.updateWorker index f = pool := by
  rw [updateWorker, List.modify_eq_self (List.getElem?_eq_none_iff.1 h)]

lemma controllerMoved_of_controllerMove? {pool next : Pool J}
    (h : pool.controllerMove? = some next) : ControllerMoved pool next := by
  cases phase : pool.controller with
  | checking =>
    simp only [controllerMove?, phase, Option.some.injEq] at h
    rw [← h]
    by_cases active : pool.active = true
    · rw [if_pos active]
      exact .goOn phase active
    · rw [if_neg active]
      exact .stop phase (Bool.eq_false_iff.2 active)
  | waiting =>
    simp only [controllerMove?, phase, Option.ite_none_right_eq_some, Option.some.injEq] at h
    rw [← h.2]
    exact .wake phase h.1
  | popping =>
    rcases stack : pool.stack.items with _ | ⟨job, rest⟩
    · simp only [controllerMove?, phase, WorkStack.pop, stack, Option.some.injEq] at h
      exact h ▸ .rest phase stack
    · simp only [controllerMove?, phase, WorkStack.pop, stack, Option.some.injEq] at h
      exact h ▸ .pop phase stack
  | holding job =>
    by_cases active : pool.active = true
    · simp only [controllerMove?, phase, if_pos active, Option.some.injEq] at h
      rw [← h]
      exact .hold phase active
    · simp only [controllerMove?, phase, if_neg active, Option.some.injEq] at h
      rw [← h]
      exact .drop phase (Bool.eq_false_iff.2 active)
  | scanning job index =>
    cases found : pool.workers[index]? with
    | none =>
      simp only [controllerMove?, phase, found, Option.some.injEq] at h
      exact h ▸ .scanned phase found
    | some worker =>
      cases marked : worker.marked with
      | true =>
        simp only [controllerMove?, phase, found, marked, if_true, Option.some.injEq] at h
        exact h ▸ .skip phase found marked
      | false =>
        simp only [controllerMove?, phase, found, marked, Bool.false_eq_true, if_false,
          Option.some.injEq] at h
        rw [← h, updateWorker_eq_put (by exact found)]
        exact .assign phase found marked
  | raising index =>
    simp only [controllerMove?, phase, Option.some.injEq] at h
    cases found : pool.workers[index]? with
    | none =>
      rw [← h, updateWorker_of_getElem?_eq_none (by exact found)]
      exact .raiseNone phase found
    | some worker =>
      rw [← h, updateWorker_eq_put (by exact found)]
      exact .raise phase found
  | returning job =>
    simp only [controllerMove?, phase, Option.some.injEq] at h
    exact h ▸ .putBack phase
  | stopped => simp [controllerMove?, phase] at h

lemma shutdownMoved_of_shutdownMove? {pool next : Pool J}
    (h : pool.shutdownMove? = some next) : ShutdownMoved pool next := by
  cases phase : pool.shutdown with
  | idle =>
    simp only [shutdownMove?, phase, Option.some.injEq] at h
    exact h ▸ .begin phase
  | raisingController =>
    simp only [shutdownMove?, phase, Option.some.injEq] at h
    exact h ▸ .raiseController phase
  | raisingWorker index =>
    cases found : pool.workers[index]? with
    | none =>
      have hlt : ¬ index < pool.workers.length := Nat.not_lt.2 (List.getElem?_eq_none_iff.1 found)
      simp only [shutdownMove?, phase, hlt, if_false, Option.some.injEq] at h
      exact h ▸ .raisedAll phase found
    | some worker =>
      have hlt : index < pool.workers.length := (List.getElem?_eq_some_iff.1 found).1
      simp only [shutdownMove?, phase, hlt, if_true, Option.some.injEq] at h
      rw [← h, updateWorker_eq_put (by exact found)]
      exact .raiseWorker phase found
  | joining =>
    simp only [shutdownMove?, phase, Option.ite_none_right_eq_some, Bool.and_eq_true,
      Option.some.injEq] at h
    obtain ⟨⟨controller, workers⟩, h⟩ := h
    exact h ▸ .join phase controller workers
  | draining =>
    simp only [shutdownMove?, phase, WorkStack.drain, List.reverse_reverse, Option.some.injEq] at h
    exact h ▸ .drain phase

/-- There are no moves but these. -/
theorem moved_of_move? {pool next : Pool J} {m : PoolMove J} (h : pool.move? m = some next) :
    Moved pool m next := by
  cases m with
  | push job =>
    simp only [move?, Option.some.injEq] at h
    exact h ▸ .push job
  | raise =>
    simp only [move?, Option.ite_none_left_eq_some, Option.some.injEq] at h
    exact h.2 ▸ .raise h.1
  | controller => exact .controller (controllerMoved_of_controllerMove? h)
  | worker index =>
    simp only [move?, Option.bind_eq_some_iff] at h
    obtain ⟨worker, found, h⟩ := h
    exact .worker found (workerMoved_of_workerMove? found h)
  | finish index ending =>
    simp only [move?, finish?, running?, Option.map_eq_some_iff] at h
    obtain ⟨job, hrunning, h⟩ := h
    split at hrunning
    case h_1 job' marked slot raised found =>
      obtain rfl := Option.some.inj hrunning
      rw [← h, setPhase, updateWorker_eq_put (by exact found)]
      exact .finish ending found rfl
    case h_2 => simp at hrunning
  | shutdown => exact .shutdown (shutdownMoved_of_shutdownMove? h)

/-! ### Runs -/

/-- The pool after a list of moves, if they can be made one after the other. -/
def after? (pool : Pool J) (moves : List (PoolMove J)) : Option (Pool J) :=
  moves.foldlM move? pool

lemma after?_append_singleton {pool last : Pool J} {moves : List (PoolMove J)} {m : PoolMove J} :
    pool.after? (moves ++ [m]) = some last ↔
      ∃ before, pool.after? moves = some before ∧ before.move? m = some last := by
  simp [after?, List.foldlM_append, Option.bind_eq_some_iff]

end SiteServer.Pool
