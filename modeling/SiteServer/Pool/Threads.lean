import SiteServer.Pool.Stack

/-!
# The worker pool

A fixed number of worker threads is fed by a controller thread.  A submitted job goes onto the stack
and the controller's signal is raised; the controller takes the newest job and gives it to the first
worker whose slot is not marked busy, or puts it back when all are.  A worker waits for its own
signal, takes the job out of its slot, runs it, marks the slot idle and raises the controller's
signal.  A signal holds one bit: it stays raised until the thread it belongs to waits, and to raise
it twice is to raise it once.

The threads are described move by move.  One move is one section under a lock, one access to a
shared flag or counter, or one operation on a signal, so that every way in which the threads can
interleave is a list of moves.  `move?` makes one move; it is `none` for a thread that is blocked,
has ended, or runs a job that has not ended yet.
-/

namespace SiteServer

/-- How a job ends. -/
inductive Ending where
  | normal
  /-- The job breaks down and ends its thread. -/
  | panic
  deriving DecidableEq, Repr

/-- Where a worker thread stands. -/
inductive WorkerPhase (J : Type) where
  /-- It is not counted among the living yet. -/
  | starting
  /-- It is about to look whether the pool still runs. -/
  | checking
  /-- It waits for its signal. -/
  | waiting
  /-- It is about to take the job out of its slot. -/
  | fetching
  /-- It has a job and is not counted as busy yet. -/
  | entering (job : J)
  | running (job : J)
  /-- Its job has ended, and it is still counted as busy. -/
  | leaving
  /-- It is about to mark its slot idle. -/
  | clearing
  /-- It is about to raise the controller's signal. -/
  | reporting
  /-- It has left its loop and is still counted among the living. -/
  | stopping
  /-- Its job broke down, and it is still counted as busy. -/
  | unwinding
  /-- Its job broke down, and it is still counted among the living. -/
  | dying
  | stopped
  | dead
  deriving DecidableEq, Repr

/-- A worker thread with its slot and its signal. -/
structure Worker (J : Type) where
  phase : WorkerPhase J := .starting
  /-- Whether the slot is marked busy. -/
  marked : Bool := false
  /-- The job in the slot. -/
  job : Option J := none
  /-- Whether the signal is raised. -/
  raised : Bool := false
  deriving DecidableEq, Repr

/-- Where the controller thread stands. -/
inductive ControllerPhase (J : Type) where
  /-- It is about to look whether the pool still runs. -/
  | checking
  /-- It waits for its signal. -/
  | waiting
  /-- It is about to take a job from the stack. -/
  | popping
  /-- It has a job and is about to look whether the pool still runs. -/
  | holding (job : J)
  /-- It has a job and is about to look at the slot of the worker with that index. -/
  | scanning (job : J) (index : Nat)
  /-- It has filled the slot of a worker and is about to raise the worker's signal. -/
  | raising (index : Nat)
  /-- Every slot was marked busy, and it is about to put the job back. -/
  | returning (job : J)
  | stopped
  deriving DecidableEq, Repr

/-- Where the thread stands that shuts the pool down. -/
inductive ShutdownPhase where
  /-- Nobody shuts the pool down. -/
  | idle
  /-- It has told the threads to stop and is about to raise the controller's signal. -/
  | raisingController
  /-- It is about to raise the signal of the worker with that index. -/
  | raisingWorker (index : Nat)
  /-- It waits for the threads to end. -/
  | joining
  /-- The threads have ended, and it is about to empty the stack. -/
  | draining
  deriving DecidableEq, Repr

/-- What can happen to a job. -/
inductive PoolEvent (J : Type) where
  | started (job : J) (worker : Nat)
  | ended (job : J) (worker : Nat) (ending : Ending)
  /-- The job is not going to start any more. -/
  | dropped (job : J)
  deriving DecidableEq, Repr

/-- A pool with its threads. -/
structure Pool (J : Type) where
  stack : WorkStack J := {}
  /-- Whether the threads are to go on. -/
  active : Bool := true
  /-- Whether the controller's signal is raised. -/
  raised : Bool := false
  controller : ControllerPhase J := .checking
  workers : List (Worker J)
  /-- Worker threads counted among the living. -/
  total : Nat := 0
  /-- Worker threads counted as busy. -/
  busy : Nat := 0
  /-- Submitted jobs for which the controller's signal has not been raised yet. -/
  raisesDue : Nat := 0
  shutdown : ShutdownPhase := .idle
  /-- What has happened, the newest first. -/
  log : List (PoolEvent J) := []
  deriving DecidableEq, Repr

/-- A move of one of the threads. -/
inductive PoolMove (J : Type) where
  /-- A job is put onto the stack. -/
  | push (job : J)
  /-- The controller's signal is raised for a job that has been put there. -/
  | raise
  | controller
  | worker (index : Nat)
  /-- The job that a worker runs ends. -/
  | finish (index : Nat) (ending : Ending)
  | shutdown
  deriving DecidableEq, Repr

namespace Pool

variable {J : Type}

/-- A pool with `size` workers, and at least one, whose threads are about to start. -/
def start (size : Nat) : Pool J :=
  { workers := List.replicate (max 1 size) {} }

/-- The pool with the worker at an index changed. -/
def updateWorker (pool : Pool J) (index : Nat) (f : Worker J → Worker J) : Pool J :=
  { pool with workers := pool.workers.modify index f }

/-- The pool with the worker at an index in another phase. -/
def setPhase (pool : Pool J) (index : Nat) (phase : WorkerPhase J) : Pool J :=
  pool.updateWorker index fun worker => { worker with phase }

/-- The next move of a worker thread. -/
def workerMove? (pool : Pool J) (index : Nat) (worker : Worker J) : Option (Pool J) :=
  match worker.phase with
  | .starting => some ({ pool with total := pool.total + 1 }.setPhase index .checking)
  | .checking => some (pool.setPhase index (if pool.active then .waiting else .stopping))
  | .waiting =>
    if worker.raised then
      some (pool.updateWorker index fun worker =>
        { worker with phase := .fetching, raised := false })
    else
      none
  | .fetching =>
    match worker.job with
    | some job =>
      some (pool.updateWorker index fun worker =>
        { worker with phase := .entering job, job := none })
    | none => some (pool.setPhase index .clearing)
  | .entering job =>
    some ({ pool with busy := pool.busy + 1, log := .started job index :: pool.log }.setPhase index
      (.running job))
  | .running _ => none
  | .leaving => some ({ pool with busy := pool.busy - 1 }.setPhase index .clearing)
  | .clearing =>
    some (pool.updateWorker index fun worker =>
      { worker with phase := .reporting, marked := false })
  | .reporting => some ({ pool with raised := true }.setPhase index .checking)
  | .stopping => some ({ pool with total := pool.total - 1 }.setPhase index .stopped)
  | .unwinding => some ({ pool with busy := pool.busy - 1 }.setPhase index .dying)
  | .dying => some ({ pool with total := pool.total - 1 }.setPhase index .dead)
  | .stopped => none
  | .dead => none

/-- The next move of the controller thread. -/
def controllerMove? (pool : Pool J) : Option (Pool J) :=
  match pool.controller with
  | .checking => some { pool with controller := if pool.active then .waiting else .stopped }
  | .waiting =>
    if pool.raised then some { pool with controller := .popping, raised := false } else none
  | .popping =>
    match pool.stack.pop with
    | some (job, stack) => some { pool with controller := .holding job, stack }
    | none => some { pool with controller := .checking }
  | .holding job =>
    if pool.active then
      some { pool with controller := .scanning job 0 }
    else
      some { pool with controller := .checking, log := .dropped job :: pool.log }
  | .scanning job index =>
    match pool.workers[index]? with
    | none => some { pool with controller := .returning job }
    | some worker =>
      if worker.marked then
        some { pool with controller := .scanning job (index + 1) }
      else
        some ({ pool with controller := .raising index }.updateWorker index
          fun worker => { worker with marked := true, job := some job })
  | .raising index =>
    some ({ pool with controller := .popping }.updateWorker index
      fun worker => { worker with raised := true })
  | .returning job =>
    some { pool with controller := .checking, stack := pool.stack.push job }
  | .stopped => none

/-- Whether a worker thread has ended. -/
def hasEnded (worker : Worker J) : Bool :=
  match worker.phase with
  | .stopped | .dead => true
  | _ => false

/-- Whether the controller thread has ended. -/
def controllerEnded (pool : Pool J) : Bool :=
  match pool.controller with
  | .stopped => true
  | _ => false

/-- The next move of the thread that shuts the pool down. -/
def shutdownMove? (pool : Pool J) : Option (Pool J) :=
  match pool.shutdown with
  | .idle => some { pool with active := false, shutdown := .raisingController }
  | .raisingController => some { pool with raised := true, shutdown := .raisingWorker 0 }
  | .raisingWorker index =>
    if index < pool.workers.length then
      some ({ pool with shutdown := .raisingWorker (index + 1) }.updateWorker index
        fun worker => { worker with raised := true })
    else
      some { pool with shutdown := .joining }
  | .joining =>
    if pool.controllerEnded && pool.workers.all hasEnded then
      some { pool with shutdown := .draining }
    else
      none
  | .draining =>
    let (jobs, stack) := pool.stack.drain
    some { pool with shutdown := .idle, stack, log := jobs.reverse.map .dropped ++ pool.log }

/-- The job that a worker runs. -/
def running? (pool : Pool J) (index : Nat) : Option J :=
  match pool.workers[index]? with
  | some ⟨.running job, _, _, _⟩ => some job
  | _ => none

/-- Where a worker stands after its job has ended. -/
def phaseAfter : Ending → WorkerPhase J
  | .normal => .leaving
  | .panic => .unwinding

/-- The pool after the job that a worker runs has ended. -/
def finish? (pool : Pool J) (index : Nat) (ending : Ending) : Option (Pool J) :=
  (pool.running? index).map fun job =>
    { pool with log := .ended job index ending :: pool.log }.setPhase index (phaseAfter ending)

/-- The pool after a move, if the thread can make it. -/
def move? (pool : Pool J) : PoolMove J → Option (Pool J)
  | .push job =>
    some { pool with stack := pool.stack.push job, raisesDue := pool.raisesDue + 1 }
  | .raise =>
    if pool.raisesDue = 0 then none
    else some { pool with raised := true, raisesDue := pool.raisesDue - 1 }
  | .controller => pool.controllerMove?
  | .worker index => pool.workers[index]?.bind (pool.workerMove? index)
  | .finish index ending => pool.finish? index ending
  | .shutdown => pool.shutdownMove?

/-- One pool comes from another by one move. -/
def Step (pool next : Pool J) : Prop :=
  ∃ m, pool.move? m = some next

/-- The pools that a new pool of that size can come to. -/
inductive Reachable (size : Nat) : Pool J → Prop where
  | start : Reachable size (start size)
  | step {pool next : Pool J} : Reachable size pool → Step pool next → Reachable size next

end Pool

end SiteServer
