import Mathlib.Data.List.Basic
import SiteServer.Pool.Trial

/-!
# A pool without threads

What the requests to a pool come to when everything is done at once and in turn.  A submitted job
goes to the first idle worker, or onto the stack when no worker is idle.  A worker whose job ends
takes the newest job from the stack, and another one when that one has ended, until a job does not
end or breaks down, or the stack is empty.  A worker whose job has broken down takes no more jobs,
and nobody takes one for it.
-/

namespace SiteServer

/-- What a worker of a pool at rest does. -/
inductive Duty (J : Type) where
  | idle
  | runs (job : J)
  /-- Its job broke down. -/
  | lost
  deriving DecidableEq, Repr

/-- A pool at rest. -/
structure Roster (J : Type) where
  duties : List (Duty J)
  /-- The jobs that wait for a worker, the newest first. -/
  stack : List J := []
  /-- What has happened, the newest first. -/
  log : List (PoolEvent J) := []
  deriving DecidableEq, Repr

namespace Roster

variable {J : Type}

/-- A worker takes jobs from a stack, one after the other. -/
def serve (ending : J → Option Ending) (index : Nat) (duties : List (Duty J)) :
    List J → List (PoolEvent J) → Roster J
  | [], log => ⟨duties.set index .idle, [], log⟩
  | job :: stack, log =>
    let log := .started job index :: log
    match ending job with
    | none => ⟨duties.set index (.runs job), stack, log⟩
    | some .panic => ⟨duties.set index .lost, stack, .ended job index .panic :: log⟩
    | some .normal => serve ending index duties stack (.ended job index .normal :: log)

/-- A worker ends its job, and goes on with a stack if the job has not broken down. -/
def finish (ending : J → Option Ending) (index : Nat) (duties : List (Duty J)) (job : J)
    (stack : List J) (log : List (PoolEvent J)) : Ending → Roster J
  | .normal => serve ending index duties stack (.ended job index .normal :: log)
  | .panic => ⟨duties.set index .lost, stack, .ended job index .panic :: log⟩

/-- The job that a worker runs. -/
def running? (roster : Roster J) (index : Nat) : Option J :=
  match roster.duties[index]? with
  | some (.runs job) => some job
  | _ => none

/-- How many workers run a job. -/
def busy (roster : Roster J) : Nat :=
  roster.duties.countP fun duty => match duty with
    | .runs _ => true
    | _ => false

/-- How many workers are left. -/
def total (roster : Roster J) : Nat :=
  roster.duties.countP fun duty => match duty with
    | .lost => false
    | _ => true

section Requests

variable [DecidableEq J]

/-- A new job goes to the first idle worker, or onto the stack. -/
def submit (ending : J → Option Ending) (roster : Roster J) (job : J) : Roster J :=
  match roster.duties.idxOf? .idle with
  | some index => serve ending index roster.duties (job :: roster.stack) roster.log
  | none => { roster with stack := job :: roster.stack }

/-- The worker that runs a job, if there is one, ends it. -/
def release (ending : J → Option Ending) (roster : Roster J) (job : J) : Roster J :=
  match roster.duties.idxOf? (.runs job) with
  | some index => finish ending index roster.duties job roster.stack roster.log .normal
  | none => roster

end Requests

section Serving

variable {ending : J → Option Ending} {index : Nat} {duties : List (Duty J)} {job : J}
  {stack : List J} {log : List (PoolEvent J)}

lemma serve_nil : serve ending index duties [] log = ⟨duties.set index .idle, [], log⟩ := rfl

/-- A job that does not end keeps its worker. -/
lemma serve_of_holds (holds : ending job = none) :
    serve ending index duties (job :: stack) log
      = ⟨duties.set index (.runs job), stack, .started job index :: log⟩ := by
  simp [serve, holds]

/-- A job that ends at once is started and ended. -/
lemma serve_of_ends {e : Ending} (ends : ending job = some e) :
    serve ending index duties (job :: stack) log
      = finish ending index duties job stack (.started job index :: log) e := by
  cases e <;> simp [serve, finish, ends]

/-- What the worker has done before it takes a job does not matter. -/
lemma serve_set (duty : Duty J) :
    serve ending index (duties.set index duty) stack log
      = serve ending index duties stack log := by
  induction stack generalizing log with
  | nil => simp [serve]
  | cons job stack ih =>
    rcases h : ending job with _ | _ | _ <;> simp [serve, h, ih]

lemma finish_set (duty : Duty J) (e : Ending) :
    finish ending index (duties.set index duty) job stack log e
      = finish ending index duties job stack log e := by
  cases e <;> simp [finish, serve_set]

end Serving

end Roster

/-- A pool without threads, with the held jobs that have been released. -/
structure SequentialTrial where
  roster : Roster TrialJob
  released : List Nat := []
  deriving DecidableEq, Repr

namespace SequentialTrial

/-- A number of idle workers, and at least one. -/
def start (size : Nat) : SequentialTrial :=
  { roster := { duties := List.replicate (max 1 size) .idle } }

/-- What a request to a pool comes to that nobody shuts down. -/
def accept (trial : SequentialTrial) : TrialRequest → SequentialTrial
  | .submit job =>
    { trial with roster := trial.roster.submit (Trial.ending trial.released) job }
  | .release id =>
    let released := id :: trial.released
    ⟨trial.roster.release (Trial.ending released) ⟨id, .held⟩, released⟩
  | .shutdown => trial

/-- What a list of requests comes to. -/
def after (size : Nat) (requests : List TrialRequest) : SequentialTrial :=
  requests.foldl accept (start size)

lemma after_append_singleton (size : Nat) (requests : List TrialRequest)
    (request : TrialRequest) :
    after size (requests ++ [request]) = (after size requests).accept request := by
  simp [after]

end SequentialTrial

/-- Three workers: the first holds a job, the second loses one, and the third, which is let go,
takes the three jobs of the stack, of which the last one holds. -/
example :
    (SequentialTrial.after 3 [.submit ⟨1, .held⟩, .submit ⟨2, .broken⟩, .submit ⟨3, .held⟩,
      .submit ⟨4, .held⟩, .submit ⟨5, .held⟩, .submit ⟨6, .brief⟩, .release 5, .release 3]).roster
      = { duties := [.runs ⟨1, .held⟩, .lost, .runs ⟨4, .held⟩]
          log := [.started ⟨4, .held⟩ 2, .ended ⟨5, .held⟩ 2 .normal, .started ⟨5, .held⟩ 2,
            .ended ⟨6, .brief⟩ 2 .normal, .started ⟨6, .brief⟩ 2, .ended ⟨3, .held⟩ 2 .normal,
            .started ⟨3, .held⟩ 2, .ended ⟨2, .broken⟩ 1 .panic, .started ⟨2, .broken⟩ 1,
            .started ⟨1, .held⟩ 0] } := by
  decide

end SiteServer
