import SiteServer.Pool.Threads

/-!
# A pool driven from outside

A pool whose jobs end when they are told to.  After each request to the pool all threads move until
none of them can, always the first one that can, in a fixed order; what is reported then is the
rest state of the pool.
-/

namespace SiteServer

namespace Pool

variable {J : Type}

/-- The moves that are tried, in this order; `ending` says which running jobs are to end, and
how. -/
def candidates (pool : Pool J) (ending : J → Option Ending) : List (PoolMove J) :=
  let indices := List.range pool.workers.length
  let endings := indices.filterMap fun index =>
    (pool.running? index).bind fun job => (ending job).map (.finish index)
  .raise :: .controller :: indices.map .worker ++ endings
    ++ if pool.shutdown = .idle then [] else [.shutdown]

/-- The pool after the first move that a thread can make. -/
def advance? (pool : Pool J) (ending : J → Option Ending) : Option (Pool J) :=
  (pool.candidates ending).findSome? pool.move?

/-- The pool after at most `fuel` moves. -/
def advance (ending : J → Option Ending) : Nat → Pool J → Pool J
  | 0, pool => pool
  | fuel + 1, pool =>
    match pool.advance? ending with
    | none => pool
    | some next => advance ending fuel next

/-- More moves than the threads can make before they all rest: each pending or running job, each
wake-up of the controller and each worker costs a few moves and one look at every slot. -/
def fuel (pool : Pool J) : Nat :=
  40 * (pool.stack.size + pool.workers.length + 3) * (pool.workers.length + 4)

/-- The pool when no thread can move any more. -/
def settle (ending : J → Option Ending) (pool : Pool J) : Pool J :=
  advance ending pool.fuel pool

end Pool

/-- When a job of a trial ends. -/
inductive TrialJob.Kind where
  /-- At once. -/
  | brief
  /-- When it is released. -/
  | held
  /-- At once, by breaking down. -/
  | broken
  deriving DecidableEq, Repr

/-- A job of a trial. -/
structure TrialJob where
  id : Nat
  kind : TrialJob.Kind
  deriving DecidableEq, Repr

/-- What is asked of a pool. -/
inductive TrialRequest where
  | submit (job : TrialJob)
  /-- A held job may end, now or when it comes to run. -/
  | release (id : Nat)
  | shutdown
  deriving DecidableEq, Repr

/-- A pool with the held jobs that have been released. -/
structure Trial where
  pool : Pool TrialJob
  released : List Nat
  deriving Repr

/-- What is seen of a pool at rest. -/
structure PoolReport where
  /-- What has happened since the last report, the oldest first. -/
  events : List (PoolEvent TrialJob)
  /-- The workers that run a job, with the job's number. -/
  running : List (Nat × Nat)
  pending : Nat
  busy : Nat
  total : Nat
  deriving Repr

namespace Trial

/-- How a job ends, when some held jobs have been released. -/
def ending (released : List Nat) (job : TrialJob) : Option Ending :=
  match job.kind with
  | .brief => some .normal
  | .broken => some .panic
  | .held => if job.id ∈ released then some .normal else none

/-- The trial with its pool at rest. -/
def settle (trial : Trial) : Trial :=
  { trial with pool := trial.pool.settle (ending trial.released) }

/-- A pool of that size at rest. -/
def start (size : Nat) : Trial :=
  { pool := .start size, released := [] : Trial }.settle

/-- The trial after the first moves that a request makes. -/
def accept (trial : Trial) : TrialRequest → Trial
  | .submit job => { trial with pool := (trial.pool.move? (.push job)).getD trial.pool }
  | .release id => { trial with released := id :: trial.released }
  | .shutdown => { trial with pool := (trial.pool.move? .shutdown).getD trial.pool }

/-- What is seen of a trial, when `seen` events have been reported before. -/
def report (trial : Trial) (seen : Nat) : PoolReport :=
  { events := trial.pool.log.reverse.drop seen
    running := (List.range trial.pool.workers.length).filterMap fun index =>
      (trial.pool.running? index).map fun job => (index, job.id)
    pending := trial.pool.stack.size
    busy := trial.pool.busy
    total := trial.pool.total }

/-- The reports after each of a list of requests. -/
def reports (trial : Trial) : List TrialRequest → List PoolReport
  | [] => []
  | request :: rest =>
    let next := (trial.accept request).settle
    next.report trial.pool.log.length :: next.reports rest

end Trial

end SiteServer
