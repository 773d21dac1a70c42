import Mathlib.Data.List.Flatten
import Mathlib.Data.List.Induction
import Mathlib.Data.List.Nodup
import Mathlib.Data.List.Pairwise
import SiteServer.Proofs.Pool.Custody

/-!
# What has happened to the jobs of a pool

The log of a pool says which worker started which job, how jobs ended and which were discarded.  A
move writes into it that an idle worker starts a job, that a running one ends, or that some jobs are
discarded, and nothing else (`Moved.trace`).  So a worker ends the job that it started last before
it starts another, and every job is started at most once.  The main result, `jobs_in_one_place`,
puts this together with the custody of the jobs.
-/

namespace SiteServer

variable {J : Type}

open scoped List

namespace PoolEvent

/-- The job that a worker has started. -/
def startedBy? (index : Nat) : PoolEvent J → Option J
  | .started job worker => if worker = index then some job else none
  | _ => none

/-- The job of a worker that has ended. -/
def endedBy? (index : Nat) : PoolEvent J → Option J
  | .ended job worker _ => if worker = index then some job else none
  | _ => none

end PoolEvent

namespace Pool

/-- For each worker the job that it runs. -/
def running (pool : Pool J) : List (Option J) :=
  pool.workers.map fun worker => worker.phase.running?

lemma running?_eq (pool : Pool J) (index : Nat) :
    pool.running? index = pool.running[index]?.join := by
  rw [running?, running, List.getElem?_map]
  rcases pool.workers[index]? with _ | ⟨phase, marked, slot, raised⟩
  · rfl
  · cases phase <;> rfl

/-- What a move writes into the log. -/
inductive Trace (pool next : Pool J) : Prop where
  /-- Jobs are discarded, or nothing happens. -/
  | quiet (jobs : List J) (running : next.running = pool.running)
      (log : next.log = jobs.map .dropped ++ pool.log)
  | starts {index : Nat} {job : J} (idle : pool.running[index]? = some none)
      (running : next.running = pool.running.set index (some job))
      (log : next.log = .started job index :: pool.log)
  | ends {index : Nat} {job : J} {ending : Ending} (busy : pool.running[index]? = some (some job))
      (running : next.running = pool.running.set index none)
      (log : next.log = .ended job index ending :: pool.log)

section Moves

variable {pool next : Pool J} {index : Nat} {worker new : Worker J}

lemma running_put (pool : Pool J) (index : Nat) (new : Worker J) :
    (pool.put index new).running = pool.running.set index new.phase.running? := by
  simp [running, List.map_set]

lemma running_put_of_eq (found : pool.workers[index]? = some worker)
    (h : new.phase.running? = worker.phase.running?) :
    (pool.put index new).running = pool.running := by
  have hrunning : pool.running[index]? = some worker.phase.running? := by simp [running, found]
  obtain ⟨hlt, hget⟩ := List.getElem?_eq_some_iff.1 hrunning
  rw [running_put, h, ← hget, List.set_getElem_self hlt]

lemma WorkerMoved.trace (moved : WorkerMoved pool index worker next)
    (found : pool.workers[index]? = some worker) : Trace pool next := by
  have quiet : ∀ (before : Pool J) (new : Worker J), before.workers = pool.workers →
      before.log = pool.log → new.phase.running? = worker.phase.running? →
      Trace pool (before.put index new) := by
    intro before new workers log h
    have hfound : before.workers[index]? = some worker := by rw [workers]; exact found
    refine .quiet [] ?_ log
    rw [running_put_of_eq hfound h, running, running, workers]
  cases moved with
  | start phase => exact quiet _ _ rfl rfl (by rw [phase]; rfl)
  | goOn phase => exact quiet _ _ rfl rfl (by rw [phase]; rfl)
  | giveUp phase => exact quiet _ _ rfl rfl (by rw [phase]; rfl)
  | wake phase => exact quiet _ _ rfl rfl (by rw [phase]; rfl)
  | fetch phase => exact quiet _ _ rfl rfl (by rw [phase]; rfl)
  | miss phase => exact quiet _ _ rfl rfl (by rw [phase]; rfl)
  | enter phase =>
    have idle : worker.phase.running? = none := by rw [phase]; rfl
    exact .starts (by simp [running, found, idle]) (running_put _ _ _) rfl
  | leave phase => exact quiet _ _ rfl rfl (by rw [phase]; rfl)
  | clear phase => exact quiet _ _ rfl rfl (by rw [phase]; rfl)
  | report phase => exact quiet _ _ rfl rfl (by rw [phase]; rfl)
  | stop phase => exact quiet _ _ rfl rfl (by rw [phase]; rfl)
  | unwind phase => exact quiet _ _ rfl rfl (by rw [phase]; rfl)
  | die phase => exact quiet _ _ rfl rfl (by rw [phase]; rfl)

lemma ControllerMoved.trace (moved : ControllerMoved pool next) : Trace pool next := by
  cases moved with
  | @drop job => exact .quiet [job] rfl rfl
  | assign phase found => exact .quiet [] (running_put_of_eq found rfl) rfl
  | raise phase found => exact .quiet [] (running_put_of_eq found rfl) rfl
  | _ => exact .quiet [] rfl rfl

lemma ShutdownMoved.trace (moved : ShutdownMoved pool next) : Trace pool next := by
  cases moved with
  | raiseWorker phase found => exact .quiet [] (running_put_of_eq found rfl) rfl
  | drain => exact .quiet pool.stack.items rfl rfl
  | _ => exact .quiet [] rfl rfl

theorem Moved.trace {m : PoolMove J} (moved : Moved pool m next) : Trace pool next := by
  cases moved with
  | push => exact .quiet [] rfl rfl
  | raise => exact .quiet [] rfl rfl
  | controller moved => exact moved.trace
  | worker found moved => exact moved.trace found
  | finish ending found phase =>
    have busy : ∀ w : Worker J, w.phase = phaseAfter ending → w.phase.running? = none := by
      rintro w hw
      cases ending <;> simp [hw, phaseAfter, WorkerPhase.running?]
    refine .ends (by simp [running, found, phase, WorkerPhase.running?]) ?_ rfl
    rw [running_put, busy _ rfl]
    rfl
  | shutdown moved => exact moved.trace

end Moves

/-! ### The order of starts and ends -/

/-- The jobs that a worker has started are those of its jobs that have ended and the one that it
runs. -/
def Alternating (pool : Pool J) : Prop :=
  ∀ index, pool.log.filterMap (PoolEvent.startedBy? index)
    = (pool.running? index).toList ++ pool.log.filterMap (PoolEvent.endedBy? index)

lemma Trace.alternating {pool next : Pool J} (trace : Trace pool next) (h : pool.Alternating) :
    next.Alternating := by
  intro i
  have hi := h i
  rw [running?_eq] at hi ⊢
  cases trace with
  | quiet jobs running log =>
    simpa [running, log, List.filterMap_map, Function.comp_def, PoolEvent.startedBy?,
      PoolEvent.endedBy?] using hi
  | @starts index job idle running log =>
    rw [running, log]
    by_cases heq : index = i
    · subst heq
      have hlt : index < pool.running.length := (List.getElem?_eq_some_iff.1 idle).1
      simp only [idle, Option.join_some, Option.toList_none, List.nil_append] at hi
      simp [hi, hlt, List.filterMap_cons, PoolEvent.startedBy?, PoolEvent.endedBy?]
    · simpa [heq, List.filterMap_cons, PoolEvent.startedBy?, PoolEvent.endedBy?] using hi
  | @ends index job ending busy running log =>
    rw [running, log]
    by_cases heq : index = i
    · subst heq
      have hlt : index < pool.running.length := (List.getElem?_eq_some_iff.1 busy).1
      simp only [busy, Option.join_some, Option.toList_some, List.singleton_append] at hi
      simp [hi, hlt, List.filterMap_cons, PoolEvent.startedBy?, PoolEvent.endedBy?]
    · simpa [heq, List.filterMap_cons, PoolEvent.startedBy?, PoolEvent.endedBy?] using hi

/-- The jobs that have been started are those that run and those that have ended. -/
def StartsMatch (pool : Pool J) : Prop :=
  pool.started ~ pool.running.flatMap Option.toList ++ pool.finished

lemma Trace.startsMatch {pool next : Pool J} (trace : Trace pool next) (h : pool.StartsMatch) :
    next.StartsMatch := by
  unfold StartsMatch at *
  cases trace with
  | quiet jobs running log =>
    simpa [running, log, started, finished, List.filterMap_map, Function.comp_def,
      PoolEvent.started?, PoolEvent.ended?] using h
  | @starts index job idle running log =>
    have hrunning : next.running.flatMap Option.toList
        ~ [job] ++ pool.running.flatMap Option.toList := by
      rw [running]
      exact perm_flatMap_set_of_perm_append idle (by simp)
    have hstarted : next.started = job :: pool.started := by simp [started, log, PoolEvent.started?]
    have hfinished : next.finished = pool.finished := by
      simp [finished, log, List.filterMap_cons, PoolEvent.ended?]
    rw [hstarted, hfinished]
    exact (h.cons job).trans (hrunning.append_right _).symm
  | @ends index job ending busy running log =>
    have hrunning : pool.running.flatMap Option.toList
        ~ [job] ++ next.running.flatMap Option.toList := by
      rw [running]
      exact perm_append_flatMap_set busy (by simp)
    have hstarted : next.started = pool.started := by
      simp [started, log, List.filterMap_cons, PoolEvent.started?]
    have hfinished : next.finished = job :: pool.finished := by
      simp [finished, log, PoolEvent.ended?]
    rw [hstarted, hfinished]
    exact (h.trans (hrunning.append_right _)).trans List.perm_middle.symm

/-- Nothing is discarded while the pool runs. -/
lemma Moved.discarded_eq {pool next : Pool J} {m : PoolMove J} (moved : Moved pool m next)
    (h : pool.Disciplined) (active : pool.active = true) : next.discarded = pool.discarded := by
  cases moved with
  | controller moved => exact moved.discarded_eq active
  | worker found moved => exact moved.log_eq.2
  | shutdown moved =>
    cases moved with
    | drain phase =>
      have inactive := h.active_of_shutdown (by simp [phase])
      simp [active] at inactive
    | _ => rfl
  | _ => rfl

/-- A job that the controller puts into a slot does not replace another one. -/
lemma ControllerMoved.slot_eq {pool next : Pool J} (moved : ControllerMoved pool next)
    (h : pool.Disciplined) {index : Nat} {before after : Worker J}
    (hbefore : pool.workers[index]? = some before) (hafter : next.workers[index]? = some after) :
    after.job = before.job ∨ before.job = none := by
  have unchanged : next.workers = pool.workers → after.job = before.job := by
    intro workers
    rw [workers, hbefore, Option.some.injEq] at hafter
    rw [hafter]
  cases moved with
  | @assign job i worker phase found marked =>
    by_cases hi : i = index
    · subst hi
      obtain rfl : worker = before := Option.some.inj (found.symm.trans hbefore)
      exact .inr (h.slot_eq_none phase found marked)
    · rw [put_workers, List.getElem?_set_ne hi] at hafter
      exact .inl (congrArg Worker.job (Option.some.inj (hafter.symm.trans hbefore)))
  | @raise i worker phase found =>
    left
    by_cases hi : i = index
    · subst hi
      obtain rfl : worker = before := Option.some.inj (found.symm.trans hbefore)
      have hlt : i < pool.workers.length := (List.getElem?_eq_some_iff.1 found).1
      rw [put_workers, List.getElem?_set_self hlt, Option.some.injEq] at hafter
      rw [← hafter]
    · rw [put_workers, List.getElem?_set_ne hi] at hafter
      exact congrArg Worker.job (Option.some.inj (hafter.symm.trans hbefore))
  | _ => exact .inl (unchanged rfl)

/-! ### Places -/

/-- Where a job can be. -/
inductive Place where
  | stack
  | controller
  | slot (worker : Nat)
  /-- With a worker that runs it, or is about to. -/
  | hands (worker : Nat)
  | finished
  | discarded
  deriving DecidableEq, Repr

/-- The jobs in a place. -/
def jobsAt (pool : Pool J) : Place → List J
  | .stack => pool.stack.items
  | .controller => pool.controller.job?.toList
  | .slot worker => (pool.workers[worker]?.bind Worker.job).toList
  | .hands worker => (pool.workers[worker]?.bind fun worker => worker.phase.job?).toList
  | .finished => pool.finished
  | .discarded => pool.discarded

/-- The places of a pool. -/
def places (pool : Pool J) : List Place :=
  .controller :: .stack ::
    (List.range pool.workers.length).flatMap (fun worker => [.slot worker, .hands worker])
    ++ [.discarded, .finished]

lemma mem_places_of_mem_jobsAt {pool : Pool J} {place : Place} {job : J}
    (h : job ∈ pool.jobsAt place) : place ∈ pool.places := by
  have hworker : ∀ (worker : Nat) (f : Worker J → Option J),
      job ∈ (pool.workers[worker]?.bind f).toList → worker < pool.workers.length := by
    intro worker f hjob
    rw [Option.mem_toList, Option.bind_eq_some_iff] at hjob
    obtain ⟨w, found, -⟩ := hjob
    exact (List.getElem?_eq_some_iff.1 found).1
  cases place with
  | slot worker => simpa [places] using hworker worker _ h
  | hands worker => simpa [places] using hworker worker _ h
  | _ => simp [places]

lemma everywhere_eq (pool : Pool J) : pool.everywhere = pool.places.flatMap pool.jobsAt := by
  have hworkers : ∀ workers : List (Worker J),
      workers.flatMap Worker.jobs = (List.range workers.length).flatMap fun worker =>
        (workers[worker]?.bind Worker.job).toList
          ++ (workers[worker]?.bind fun worker => worker.phase.job?).toList := by
    intro workers
    induction workers with
    | nil => rfl
    | cons first rest ih =>
      rw [List.flatMap_cons, ih, List.length_cons, List.range_succ_eq_map, List.flatMap_cons,
        List.flatMap_map]
      rfl
  simp [everywhere, live, places, jobsAt, hworkers, List.flatMap_assoc]

/-- When all jobs are different, each one is in a single place. -/
lemma existsUnique_place {pool : Pool J} (h : pool.everywhere.Nodup) {job : J}
    (hjob : job ∈ pool.everywhere) : ∃! place, job ∈ pool.jobsAt place := by
  rw [everywhere_eq] at h hjob
  obtain ⟨place, -, hplace⟩ := List.mem_flatMap.1 hjob
  refine ⟨place, hplace, fun other hother => ?_⟩
  by_contra hne
  have hsymm : Std.Symm (Function.onFun List.Disjoint pool.jobsAt) :=
    ⟨fun _ _ hdisjoint _ ha hb => hdisjoint hb ha⟩
  exact (List.nodup_flatMap.1 h).2.forall (mem_places_of_mem_jobsAt hother)
    (mem_places_of_mem_jobsAt hplace) hne hother hplace

/-! ### Runs -/

/-- What a run preserves. -/
structure Accounted (moves : List (PoolMove J)) (pool : Pool J) : Prop where
  disciplined : pool.Disciplined
  perm : pool.everywhere ~ moves.filterMap PoolMove.submitted?
  alternating : pool.Alternating
  startsMatch : pool.StartsMatch
  shutdown : pool.active = false → .shutdown ∈ moves

lemma accounted_start (size : Nat) : Accounted [] (start size : Pool J) where
  disciplined := disciplined_start size
  perm := by
    have hjobs : (start size : Pool J).workers.flatMap Worker.jobs = [] := by
      rw [List.flatMap_eq_nil_iff]
      intro worker h
      obtain rfl : worker = {} := List.eq_of_mem_replicate h
      rfl
    rw [everywhere, live, hjobs]
    exact .refl _
  alternating := by
    intro index
    have hrunning : (start size : Pool J).running? index = none := by
      rw [running?_eq, running, start, List.map_replicate]
      rcases hget : (List.replicate (max 1 size) _)[index]? with _ | phase
      · rfl
      · obtain rfl := List.eq_of_mem_replicate (List.mem_of_getElem? hget)
        rfl
    rw [hrunning]
    rfl
  startsMatch := by
    have hrunning : (start size : Pool J).running.flatMap Option.toList = [] := by
      rw [List.flatMap_eq_nil_iff, running, start, List.map_replicate]
      intro phase h
      obtain rfl := List.eq_of_mem_replicate h
      rfl
    rw [StartsMatch, hrunning]
    exact .refl _
  shutdown := by simp [start]

lemma Accounted.step {moves : List (PoolMove J)} {pool next : Pool J} {m : PoolMove J}
    (h : Accounted moves pool) (moved : Moved pool m next) : Accounted (moves ++ [m]) next where
  disciplined := moved.disciplined h.disciplined
  perm := by
    rw [List.filterMap_append]
    refine (moved.perm h.disciplined).trans ((h.perm.append_left _).trans ?_)
    rcases hm : m.submitted? with _ | job
    · simp [hm]
    · simpa [hm] using (List.perm_append_singleton job _).symm
  alternating := moved.trace.alternating h.alternating
  startsMatch := moved.trace.startsMatch h.startsMatch
  shutdown := by
    intro inactive
    rcases moved.active_eq with active | rfl
    · exact List.mem_append_left _ (h.shutdown (active ▸ inactive))
    · simp

theorem accounted_of_after? {size : Nat} {moves : List (PoolMove J)} {pool : Pool J}
    (h : (start size).after? moves = some pool) : Accounted moves pool := by
  induction moves using List.reverseRecOn generalizing pool with
  | nil =>
    obtain rfl : start size = pool := Option.some.inj h
    exact accounted_start size
  | append_singleton moves m ih =>
    obtain ⟨before, hbefore, hm⟩ := after?_append_singleton.1 h
    exact (ih hbefore).step (moved_of_move? hm)

/-- **Where the jobs are.**  After any run of the threads of a pool, with jobs that end in either
way:

* the jobs in all places together are the submitted ones, and when these are different from each
  other, each is in a single place;
* no job has been started more often than it was submitted, and the jobs that a worker has started
  are the ones of its jobs that have ended and at most one that it runs;
* the controller puts a job only into a slot without one;
* a job is discarded only when the pool has been told to stop. -/
theorem jobs_in_one_place {size : Nat} {moves : List (PoolMove J)} {pool : Pool J}
    (h : (start size).after? moves = some pool) :
    pool.places.flatMap pool.jobsAt ~ moves.filterMap PoolMove.submitted? ∧
    ((moves.filterMap PoolMove.submitted?).Nodup →
      ∀ job ∈ moves.filterMap PoolMove.submitted?, ∃! place, job ∈ pool.jobsAt place) ∧
    pool.started <+~ moves.filterMap PoolMove.submitted? ∧
    (∀ index, pool.log.filterMap (PoolEvent.startedBy? index)
      = (pool.running? index).toList ++ pool.log.filterMap (PoolEvent.endedBy? index)) ∧
    (∀ (next : Pool J) (index : Nat) (before after : Worker J), pool.move? .controller = some next →
      pool.workers[index]? = some before → next.workers[index]? = some after →
      after.job = before.job ∨ before.job = none) ∧
    (∀ m next, pool.move? m = some next → next.discarded ≠ pool.discarded →
      pool.active = false) ∧
    (pool.active = false → .shutdown ∈ moves) := by
  have hrun := accounted_of_after? h
  refine ⟨everywhere_eq pool ▸ hrun.perm, fun hnodup job hjob => ?_, ?_, hrun.alternating,
    fun next index before after hm hbefore hafter => ?_, fun m next hm hne => ?_, hrun.shutdown⟩
  · exact existsUnique_place (hrun.perm.nodup_iff.2 hnodup) (hrun.perm.mem_iff.2 hjob)
  · have hrunning : pool.running.flatMap Option.toList <+ pool.live := by
      have hworkers : pool.running.flatMap Option.toList
          <+ pool.workers.flatMap Worker.jobs := by
        rw [running, List.flatMap_map]
        refine List.Sublist.flatMap_right _ fun worker _ => ?_
        refine List.Sublist.trans ?_ (List.sublist_append_right _ _)
        cases worker.phase <;> simp [WorkerPhase.running?, WorkerPhase.job?]
      exact hworkers.trans (List.sublist_append_right _ _)
    have hall : pool.running.flatMap Option.toList ++ pool.finished <+ pool.everywhere :=
      (hrunning.trans (List.sublist_append_left _ _)).append (List.Sublist.refl _)
    exact (hrun.startsMatch.subperm.trans hall.subperm).trans hrun.perm.subperm
  · have moved := moved_of_move? hm
    cases moved with
    | controller moved => exact moved.slot_eq hrun.disciplined hbefore hafter
  · by_contra hactive
    exact hne ((moved_of_move? hm).discarded_eq hrun.disciplined (by simpa using hactive))

/-- A run in which shutting down wakes a worker without a job, and the controller fills its slot
before it clears the mark; a second job has been submitted meanwhile. -/
def lateAssignment : List (PoolMove Nat) :=
  [.push 1, .raise, .controller, .controller, .controller, .controller, .worker 0, .worker 0,
    .shutdown, .shutdown, .shutdown, .push 2, .worker 0, .worker 0, .controller, .worker 0,
    .controller, .controller, .controller]

theorem jobs_in_one_place_lateAssignment :
    ∃ pool : Pool Nat, (start 1).after? lateAssignment = some pool ∧
      pool.places.flatMap pool.jobsAt ~ [1, 2] ∧
      (∃! place, 1 ∈ pool.jobsAt place) ∧ (∃! place, 2 ∈ pool.jobsAt place) := by
  have hrun : ∃ pool : Pool Nat, (start 1).after? lateAssignment = some pool :=
    Option.isSome_iff_exists.1 (by decide)
  obtain ⟨pool, h⟩ := hrun
  have hjobs := jobs_in_one_place h
  have hnodup : (lateAssignment.filterMap PoolMove.submitted?).Nodup := by decide
  exact ⟨pool, h, hjobs.1, hjobs.2.1 hnodup 1 (by decide), hjobs.2.1 hnodup 2 (by decide)⟩

end Pool

end SiteServer
