import Mathlib.Data.List.Perm.Basic
import SiteServer.Proofs.Pool.Discipline

/-!
# Where the jobs of a pool are

A job that has been submitted is on the stack, with the controller, in the slot of a worker, with a
worker that runs it, finished, or discarded.  A move takes at most one job from one of these places
to another, and a discarding move takes each one to the end of its way, so that the jobs in all
places together are a permutation of the submitted ones (`Moved.perm`), whatever the threads do.
-/

namespace SiteServer

variable {J : Type}

/-- The job that the controller has in its hand. -/
def ControllerPhase.job? : ControllerPhase J → Option J
  | .holding job | .scanning job _ | .returning job => some job
  | _ => none

/-- The job that a worker has taken out of its slot and not ended. -/
def WorkerPhase.job? : WorkerPhase J → Option J
  | .entering job | .running job => some job
  | _ => none

/-- The job that a worker has started and not ended. -/
def WorkerPhase.running? : WorkerPhase J → Option J
  | .running job => some job
  | _ => none

/-- The jobs in a worker's slot and in its hands. -/
def Worker.jobs (worker : Worker J) : List J :=
  worker.job.toList ++ worker.phase.job?.toList

namespace PoolEvent

def started? : PoolEvent J → Option J
  | .started job _ => some job
  | _ => none

def ended? : PoolEvent J → Option J
  | .ended job _ _ => some job
  | _ => none

def dropped? : PoolEvent J → Option J
  | .dropped job => some job
  | _ => none

end PoolEvent

/-- The job that a move submits. -/
def PoolMove.submitted? : PoolMove J → Option J
  | .push job => some job
  | _ => none

open scoped List

namespace Pool

/-- The jobs that have been submitted and are neither finished nor discarded. -/
def live (pool : Pool J) : List J :=
  pool.controller.job?.toList ++ pool.stack.items ++ pool.workers.flatMap Worker.jobs

/-- The jobs that workers have started, the last one first. -/
def started (pool : Pool J) : List J :=
  pool.log.filterMap PoolEvent.started?

/-- The jobs that have ended, normally or by breaking down. -/
def finished (pool : Pool J) : List J :=
  pool.log.filterMap PoolEvent.ended?

/-- The jobs that will not be started. -/
def discarded (pool : Pool J) : List J :=
  pool.log.filterMap PoolEvent.dropped?

/-! ### Workers one by one -/

section Lists

variable {α β : Type} {list : List α} {index : Nat} {a b : α} {f : α → List β}

/-- An element may be exchanged for one that gives the same. -/
lemma flatMap_set_of_eq (found : list[index]? = some a) (h : f b = f a) :
    (list.set index b).flatMap f = list.flatMap f := by
  induction list generalizing index with
  | nil => simp at found
  | cons first rest ih =>
    cases index with
    | zero =>
      obtain rfl : first = a := by simpa using found
      simp [h]
    | succ index => simp [ih (by simpa using found)]

/-- What an element gives is exchanged with the element. -/
lemma perm_flatMap_set (found : list[index]? = some a) :
    (f b ++ list.flatMap f).Perm (f a ++ (list.set index b).flatMap f) := by
  induction list generalizing index with
  | nil => simp at found
  | cons first rest ih =>
    cases index with
    | zero =>
      obtain rfl : first = a := by simpa using found
      simp only [List.flatMap_cons, List.set_cons_zero]
      exact List.perm_append_comm_assoc _ _ _
    | succ index =>
      simp only [List.flatMap_cons, List.set_cons_succ]
      exact (List.perm_append_comm_assoc _ _ _).trans
        (((ih (by simpa using found)).append_left (f first)).trans
          (List.perm_append_comm_assoc _ _ _))

/-- What a new element gives more than the one it stands for is added. -/
lemma perm_flatMap_set_of_perm_append (found : list[index]? = some a) {more : List β}
    (h : (f b).Perm (more ++ f a)) :
    ((list.set index b).flatMap f).Perm (more ++ list.flatMap f) := by
  refine (List.perm_append_left_iff (f a)).1 ?_
  calc f a ++ (list.set index b).flatMap f
      _ ~ (f b ++ list.flatMap f) := (perm_flatMap_set found).symm
      _ ~ (more ++ f a ++ list.flatMap f) := h.append_right _
      _ ~ (f a ++ (more ++ list.flatMap f)) := by
        rw [List.append_assoc]
        exact List.perm_append_comm_assoc _ _ _

/-- What a new element gives less is taken away. -/
lemma perm_append_flatMap_set (found : list[index]? = some a) {less : List β}
    (h : (f a).Perm (less ++ f b)) :
    (list.flatMap f).Perm (less ++ (list.set index b).flatMap f) := by
  refine (List.perm_append_left_iff (f b)).1 ?_
  calc f b ++ list.flatMap f
      _ ~ (f a ++ (list.set index b).flatMap f) := perm_flatMap_set found
      _ ~ (less ++ f b ++ (list.set index b).flatMap f) := h.append_right _
      _ ~ (f b ++ (less ++ (list.set index b).flatMap f)) := by
        rw [List.append_assoc]
        exact List.perm_append_comm_assoc _ _ _

end Lists

/-! ### One move -/

section Moves

variable {pool next : Pool J} {index : Nat} {worker new : Worker J}

lemma live_put (h : worker.jobs = new.jobs) (found : pool.workers[index]? = some worker) :
    (pool.put index new).live = pool.live := by
  simp only [live, put_controller, put_stack, put_workers, flatMap_set_of_eq found h.symm]

lemma WorkerMoved.live_eq (moved : WorkerMoved pool index worker next)
    (found : pool.workers[index]? = some worker) : next.live = pool.live := by
  have jobs_eq : ∀ phase : WorkerPhase J, phase.job? = worker.phase.job? →
      worker.jobs = Worker.jobs { worker with phase } := by
    intro phase h
    rw [Worker.jobs, Worker.jobs, h]
  cases moved with
  | start phase => exact live_put (jobs_eq _ (by rw [phase]; rfl)) found
  | goOn phase => exact live_put (jobs_eq _ (by rw [phase]; rfl)) found
  | giveUp phase => exact live_put (jobs_eq _ (by rw [phase]; rfl)) found
  | wake phase => exact live_put (jobs_eq _ (by rw [phase]; rfl)) found
  | fetch phase slot =>
    refine live_put ?_ found
    simp [Worker.jobs, slot, phase, WorkerPhase.job?]
  | miss phase => exact live_put (jobs_eq _ (by rw [phase]; rfl)) found
  | enter phase => exact live_put (jobs_eq _ (by rw [phase]; rfl)) found
  | leave phase => exact live_put (jobs_eq _ (by rw [phase]; rfl)) found
  | clear phase => exact live_put (jobs_eq _ (by rw [phase]; rfl)) found
  | report phase => exact live_put (jobs_eq _ (by rw [phase]; rfl)) found
  | stop phase => exact live_put (jobs_eq _ (by rw [phase]; rfl)) found
  | unwind phase => exact live_put (jobs_eq _ (by rw [phase]; rfl)) found
  | die phase => exact live_put (jobs_eq _ (by rw [phase]; rfl)) found

/-- A worker's own move finishes and discards nothing. -/
lemma WorkerMoved.log_eq (moved : WorkerMoved pool index worker next) :
    next.finished = pool.finished ∧ next.discarded = pool.discarded := by
  cases moved <;> exact ⟨rfl, rfl⟩

/-- The controller gives a job to a worker, puts it back or discards it. -/
lemma ControllerMoved.live_perm (moved : ControllerMoved pool next) (h : pool.Disciplined) :
    (next.live ++ next.discarded).Perm (pool.live ++ pool.discarded) := by
  cases moved with
  | goOn phase => simp [live, phase, ControllerPhase.job?, discarded]
  | stop phase => simp [live, phase, ControllerPhase.job?, discarded]
  | wake phase => simp [live, phase, ControllerPhase.job?, discarded]
  | pop phase stack => simp [live, phase, stack, ControllerPhase.job?, discarded]
  | rest phase => simp [live, phase, ControllerPhase.job?, discarded]
  | hold phase => simp [live, phase, ControllerPhase.job?, discarded]
  | drop phase =>
    simp only [live, phase, ControllerPhase.job?, discarded, List.filterMap_cons,
      PoolEvent.dropped?, Option.toList_none, Option.toList_some, List.nil_append, List.cons_append]
    exact List.perm_middle
  | skip phase => simp [live, phase, ControllerPhase.job?, discarded]
  | @assign job index worker phase found marked =>
    have slot : worker.job = none := h.slot_eq_none phase found marked
    have moves : (Worker.jobs { worker with marked := true, job := some job }).Perm
        ([job] ++ worker.jobs) := by simp [Worker.jobs, slot]
    refine List.Perm.append_right _ ?_
    simp only [live, phase, ControllerPhase.job?, put_controller, put_stack, put_workers,
      Option.toList_none, Option.toList_some, List.nil_append, List.singleton_append]
    calc pool.stack.items ++ (pool.workers.set index _).flatMap Worker.jobs
        _ ~ (pool.stack.items ++ ([job] ++ pool.workers.flatMap Worker.jobs)) :=
          (perm_flatMap_set_of_perm_append found moves).append_left _
        _ ~ (job :: pool.stack.items ++ pool.workers.flatMap Worker.jobs) :=
          List.perm_middle
  | scanned phase => simp [live, phase, ControllerPhase.job?, discarded]
  | @raise index worker phase found =>
    have moves : (pool.workers.set index { worker with raised := true }).flatMap Worker.jobs
        = pool.workers.flatMap Worker.jobs := flatMap_set_of_eq found rfl
    simp [live, phase, moves, ControllerPhase.job?, discarded]
  | raiseNone phase => simp [live, phase, ControllerPhase.job?, discarded]
  | putBack phase => simp [live, phase, ControllerPhase.job?, discarded, WorkStack.push]

lemma ControllerMoved.finished_eq (moved : ControllerMoved pool next) :
    next.finished = pool.finished := by
  cases moved <;> rfl

/-- Nothing is discarded while the pool runs. -/
lemma ControllerMoved.discarded_eq (moved : ControllerMoved pool next)
    (active : pool.active = true) : next.discarded = pool.discarded := by
  cases moved with
  | drop _ inactive => simp [active] at inactive
  | _ => rfl

/-- Shutting down moves the jobs on the stack to the discarded ones. -/
lemma ShutdownMoved.live_perm (moved : ShutdownMoved pool next) :
    (next.live ++ next.discarded).Perm (pool.live ++ pool.discarded) := by
  cases moved with
  | begin => exact .refl _
  | raiseController => exact .refl _
  | @raiseWorker index worker _ found =>
    have moves : (pool.workers.set index { worker with raised := true }).flatMap Worker.jobs
        = pool.workers.flatMap Worker.jobs := flatMap_set_of_eq found rfl
    simp [live, moves, discarded]
  | raisedAll => exact .refl _
  | join => exact .refl _
  | drain =>
    have dropped : ∀ jobs : List J,
        (jobs.map PoolEvent.dropped).filterMap PoolEvent.dropped? = jobs := by
      intro jobs
      simp [List.filterMap_map, Function.comp_def, PoolEvent.dropped?]
    simp only [live, discarded, List.filterMap_append, dropped, List.append_nil, List.append_assoc]
    exact (List.perm_append_comm_assoc _ _ _).append_left _

lemma ShutdownMoved.finished_eq (moved : ShutdownMoved pool next) :
    next.finished = pool.finished := by
  cases moved with
  | drain =>
    simp [finished, List.filterMap_append, List.filterMap_map, Function.comp_def, PoolEvent.ended?]
  | _ => rfl

/-- A job that ends is not live any more. -/
lemma live_perm_of_finish {job : J} (ending : Ending)
    (found : pool.workers[index]? = some worker) (phase : worker.phase = .running job)
    (log : List (PoolEvent J)) :
    pool.live.Perm
      (job :: ({ pool with log }.put index { worker with phase := phaseAfter ending }).live) := by
  have moves : worker.jobs.Perm
      ([job] ++ Worker.jobs { worker with phase := phaseAfter ending }) := by
    have hbefore : worker.phase.job? = some job := by rw [phase]; rfl
    have hafter : (phaseAfter ending : WorkerPhase J).job? = none := by cases ending <;> rfl
    simp only [Worker.jobs, hbefore, hafter, Option.toList_some, Option.toList_none,
      List.append_nil]
    exact List.perm_append_comm
  have hworkers := perm_append_flatMap_set found moves
  simp only [live, put_controller, put_stack, put_workers]
  exact (hworkers.append_left _).trans List.perm_middle

/-- A job that is submitted is live. -/
lemma live_perm_of_push (job : J) (due : Nat) :
    { pool with stack := pool.stack.push job, raisesDue := due }.live.Perm (job :: pool.live) := by
  simp only [live, WorkStack.push, List.append_assoc]
  exact List.perm_middle

/-- The jobs in all places. -/
def everywhere (pool : Pool J) : List J :=
  pool.live ++ pool.discarded ++ pool.finished

/-- A move loses no job and makes none: all that comes in is the job that it submits. -/
theorem Moved.perm {m : PoolMove J} (moved : Moved pool m next) (h : pool.Disciplined) :
    next.everywhere.Perm (m.submitted?.toList ++ pool.everywhere) := by
  cases moved with
  | push job => exact ((live_perm_of_push job _).append_right _).append_right _
  | raise => exact .refl _
  | controller moved =>
    rw [everywhere, moved.finished_eq]
    exact (moved.live_perm h).append_right _
  | worker found moved =>
    rw [everywhere, moved.live_eq found, moved.log_eq.1, moved.log_eq.2]
    exact .refl _
  | @finish index worker job ending found phase =>
    have hlive := live_perm_of_finish ending found phase (.ended job index ending :: pool.log)
    exact List.perm_middle.trans ((hlive.symm.append_right _).append_right _)
  | shutdown moved =>
    rw [everywhere, moved.finished_eq]
    exact moved.live_perm.append_right _

/-- Only shutting down stops the pool. -/
lemma Moved.active_eq {m : PoolMove J} (moved : Moved pool m next) :
    next.active = pool.active ∨ m = .shutdown := by
  cases moved with
  | controller moved => cases moved <;> exact .inl rfl
  | worker found moved => cases moved <;> exact .inl rfl
  | shutdown => exact .inr rfl
  | _ => exact .inl rfl

/-- A pool that runs has been running before. -/
lemma Moved.active_of_active {m : PoolMove J} (moved : Moved pool m next)
    (active : next.active = true) : pool.active = true := by
  rcases moved.active_eq with heq | rfl
  · rw [← heq, active]
  · cases moved with
    | shutdown moved =>
      cases moved with
      | begin => simp at active
      | _ => exact active

/-- As long as the pool runs, nobody has moved to shut it down, and its jobs change only when one is
submitted or ends. -/
theorem Moved.live_perm {m : PoolMove J} (moved : Moved pool m next) (h : pool.Disciplined)
    (active : next.active = true) :
    match m with
    | .push job => next.live.Perm (job :: pool.live)
    | .finish index _ => ∃ job, pool.running? index = some job ∧ pool.live.Perm (job :: next.live)
    | .shutdown => False
    | _ => next.live.Perm pool.live := by
  have hactive := moved.active_of_active active
  cases moved with
  | push job => exact live_perm_of_push job _
  | raise => exact .refl _
  | controller moved =>
    have hperm := moved.live_perm h
    rw [moved.discarded_eq hactive] at hperm
    exact (List.perm_append_right_iff _).1 hperm
  | worker found moved => exact .of_eq (moved.live_eq found)
  | @finish index worker job ending found phase =>
    refine ⟨job, ?_, live_perm_of_finish ending found phase _⟩
    obtain ⟨_, marked, slot, raised⟩ := worker
    obtain rfl := phase
    rw [running?, found]
  | shutdown moved =>
    -- the first move stops the pool, and for the others it has been stopped before
    have hidle : pool.shutdown = .idle := by
      by_contra hne
      simp [h.active_of_shutdown hne] at hactive
    cases moved with
    | begin => simp at active
    | _ => simp_all

end Moves

end Pool

end SiteServer
