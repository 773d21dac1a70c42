import Mathlib.Data.List.Induction
import SiteServer.Proofs.Pool.Settling

/-!
# What a pool does is determined

Jobs are submitted and let go, and after each request the threads move, in any order, until none of
them can.  In which order they move cannot be seen afterwards: the events, the jobs that run, the
stack and the counters are those of the pool without threads (`Trial.quiet_determined`).

The invariant is that the course of the pool leads to the roster of the pool without threads.  A
move that a thread makes by itself is a shift, which does not change it; a request changes the
roster and the course alike, since it meets a pool in which nobody has anything to do.
-/

namespace SiteServer

open scoped List

/-- The job that a request submits. -/
def TrialRequest.submitted? : TrialRequest → Option TrialJob
  | .submit job => some job
  | _ => none

namespace Trial

/-- No thread makes a move by itself. -/
def Quiet (trial : Trial) : Prop :=
  trial.pool.Quiet (ending trial.released)

/-- A list of requests leads a new pool of that size to a trial: the threads move as they like, and
a request comes when all is quiet; only the first one may come at any time. -/
inductive Leads (size : Nat) : List TrialRequest → Trial → Prop where
  | start : Leads size [] { pool := .start size, released := [] }
  | stir {requests : List TrialRequest} {trial : Trial} {next : Pool TrialJob}
      (led : Leads size requests trial) (stirs : trial.pool.Stirs (ending trial.released) next) :
      Leads size requests { trial with pool := next }
  | request {requests : List TrialRequest} {trial : Trial} {request : TrialRequest}
      (led : Leads size requests trial) (ready : requests = [] ∨ trial.Quiet)
      (asked : request ≠ .shutdown) : Leads size (requests ++ [request]) (trial.accept request)

/-- The trial as it is run: it comes to rest after each request. -/
def after (size : Nat) (requests : List TrialRequest) : Trial :=
  requests.foldl (fun trial request => (trial.accept request).settle) (.start size)

variable {size : Nat} {requests : List TrialRequest} {trial : Trial}

/-! ### Trials come to rest -/

lemma Leads.steady (h : Leads size requests trial) : trial.pool.Steady := by
  induction h with
  | start => exact Pool.steady_start size
  | stir _ stirs ih => exact stirs.steady ih
  | @request requests trial request _ _ asked ih =>
    cases request with
    | submit job => exact ih.step (.push job) (by simp)
    | release id => exact ih
    | shutdown => exact absurd rfl asked

lemma Leads.stirs {last : Pool TrialJob} (h : Leads size requests trial)
    (stirs : Relation.ReflTransGen (Pool.Stirs (ending trial.released)) trial.pool last) :
    Leads size requests { trial with pool := last } := by
  induction stirs with
  | refl => exact h
  | tail _ stirs ih => exact ih.stir stirs

/-- A trial that settles gets quiet by moves that the threads make by themselves. -/
lemma Leads.settle (h : Leads size requests trial) (due : trial.pool.raisesDue ≤ 1) :
    Leads size requests trial.settle ∧ trial.settle.Quiet := by
  obtain ⟨stirs, quiet⟩ := Pool.quiet_settle h.steady due
  exact ⟨h.stirs stirs, quiet⟩

/-- The trial as it is run is one of those that the requests lead to, and it is quiet. -/
lemma leads_after (served : .shutdown ∉ requests) :
    Leads size requests (after size requests) ∧ (after size requests).Quiet := by
  induction requests using List.reverseRecOn with
  | nil => exact Leads.start.settle (Nat.zero_le 1)
  | append_singleton requests request ih =>
    obtain ⟨hfront, hlast⟩ := not_or.1 (mt List.mem_append.2 served)
    obtain ⟨led, quiet⟩ := ih hfront
    have asked : request ≠ .shutdown := fun heq => hlast (by simp [heq])
    have hafter : after size (requests ++ [request])
        = ((after size requests).accept request).settle := by simp [after]
    rw [hafter]
    refine (led.request (.inr quiet) asked).settle ?_
    have due : (after size requests).pool.raisesDue = 0 := (quiet.resting led.steady).1.raisesDue
    cases request with
    | submit job => exact Nat.le_of_eq (congrArg Nat.succ due)
    | release id => exact due.trans_le (Nat.zero_le 1)
    | shutdown => exact absurd rfl asked

/-! ### Trials against the pool without threads -/

/-- What a run of a trial preserves. -/
structure Follows (size : Nat) (requests : List TrialRequest) (trial : Trial) : Prop where
  released : trial.released = (SequentialTrial.after size requests).released
  course : trial.pool.view.Course (ending trial.released)
    (SequentialTrial.after size requests).roster
  jobs : trial.pool.everywhere ~ requests.filterMap TrialRequest.submitted?
  fresh : requests = [] → trial.pool.view.Fresh

lemma follows_start : Follows size [] { pool := .start size, released := [] } := by
  have hview : (Pool.start size : Pool TrialJob).view
      = ⟨List.replicate (max 1 size) .free, [], [], none⟩ := by
    simp [Pool.start, Pool.view, Worker.stance, ControllerPhase.job?, ControllerPhase.scanned?]
  have hfresh : (Pool.start size : Pool TrialJob).view.Fresh := by
    rw [hview]
    exact ⟨rfl, fun stance hmem => List.eq_of_mem_replicate hmem⟩
  have hroster : (SequentialTrial.after size []).roster
      = (Pool.start size : Pool TrialJob).view.roster := by
    rw [hview]
    simp [SequentialTrial.after, SequentialTrial.start, View.roster, View.duties, Stance.duty]
  refine ⟨rfl, ?_, (Pool.accounted_start size).perm, fun _ => hfresh⟩
  rw [hroster]
  exact .rest hfresh.calm (.inl hfresh.1)

lemma Follows.stir {next : Pool TrialJob} (h : Follows size requests trial)
    (steady : trial.pool.Steady) (stirs : trial.pool.Stirs (ending trial.released) next) :
    Follows size requests { trial with pool := next } where
  released := h.released
  course := h.course.shift (stirs.shift steady)
  jobs := by
    obtain ⟨m, moved, -, none⟩ := stirs.exists_moved
    have hperm := moved.perm steady.disciplined
    rw [none] at hperm
    exact hperm.trans h.jobs
  fresh := fun hnil => (h.fresh hnil).shift (stirs.shift steady)

/-- A request meets a pool in which nobody has anything to do. -/
lemma Follows.ready (h : Follows size requests trial) (steady : trial.pool.Steady)
    (ready : requests = [] ∨ trial.Quiet) :
    trial.pool.view.Calm (ending trial.released) ∧
      (trial.pool.view.pending = [] ∨ .free ∉ trial.pool.view.stances) ∧
      trial.pool.controller.job? = none := by
  rcases ready with hnil | quiet
  · have hfresh := h.fresh hnil
    refine ⟨hfresh.calm, .inl hfresh.1, ?_⟩
    simpa [Pool.view] using (List.append_eq_nil_iff.1 hfresh.1).1
  · obtain ⟨calm, served⟩ := Pool.Quiet.settled quiet steady
    refine ⟨calm, served, ?_⟩
    rw [(Pool.Quiet.resting quiet steady).1.controller]
    rfl

lemma Follows.submit (h : Follows size requests trial) (steady : trial.pool.Steady)
    (ready : requests = [] ∨ trial.Quiet) (job : TrialJob) :
    Follows size (requests ++ [.submit job]) (trial.accept (.submit job)) := by
  obtain ⟨calm, served, hand⟩ := h.ready steady ready
  have scanned : trial.pool.view.scanned = none := by
    cases phase : trial.pool.controller <;>
      simp_all [Pool.view, ControllerPhase.job?, ControllerPhase.scanned?]
  have hview : (trial.accept (.submit job)).pool.view
      = { trial.pool.view with pending := job :: trial.pool.view.pending } := by
    simp [accept, Pool.move?, Pool.view, hand, WorkStack.push]
  have moved : Pool.Moved trial.pool (.push job) (trial.accept (.submit job)).pool := .push job
  refine ⟨?_, ?_, ?_, by simp⟩
  · rw [SequentialTrial.after_append_singleton]
    exact h.released
  · rw [SequentialTrial.after_append_singleton, SequentialTrial.accept,
      h.course.eq_roster calm served, ← h.released, hview]
    exact .submit calm served scanned job
  · rw [List.filterMap_append]
    exact (moved.perm steady.disciplined).trans
      ((h.jobs.cons job).trans (List.perm_append_singleton job _).symm)

/-- A job of which there is a single one is run by a single worker. -/
lemma eq_of_running {pool : Pool TrialJob} {job : TrialJob} (single : pool.everywhere.count job ≤ 1)
    {i j : Nat} (hi : pool.view.stances[i]? = some (.running job))
    (hj : pool.view.stances[j]? = some (.running job)) : i = j := by
  have runs : ∀ {k : Nat}, pool.view.stances[k]? = some (.running job) →
      ∃ worker, pool.workers[k]? = some worker ∧ job ∈ worker.jobs := by
    intro k hk
    obtain ⟨worker, found, hstance⟩ : ∃ worker, pool.workers[k]? = some worker ∧
        worker.stance = .running job := by simpa [Pool.view] using hk
    exact ⟨worker, found, Worker.mem_jobs_of_stance hstance⟩
  by_contra hne
  obtain ⟨first, hfirst, hmem⟩ := runs hi
  obtain ⟨second, hsecond, hmem'⟩ := runs hj
  -- without the first worker's jobs there is still the second one's
  have hperm : pool.workers.flatMap Worker.jobs
      ~ first.jobs ++ (pool.workers.set i {}).flatMap Worker.jobs :=
    Pool.perm_append_flatMap_set hfirst (by simp [Worker.jobs, WorkerPhase.job?])
  have hleft : job ∈ (pool.workers.set i {}).flatMap Worker.jobs := by
    refine List.mem_flatMap.2 ⟨second, List.mem_of_getElem? (i := j) ?_, hmem'⟩
    rw [List.getElem?_set_ne hne, hsecond]
  have htwo : 2 ≤ (pool.workers.flatMap Worker.jobs).count job := by
    rw [hperm.count_eq, List.count_append]
    exact Nat.add_le_add (List.count_pos_iff.2 hmem) (List.count_pos_iff.2 hleft)
  have hall : (pool.workers.flatMap Worker.jobs).count job ≤ pool.everywhere.count job := by
    simp only [Pool.everywhere, Pool.live, List.count_append]
    omega
  omega

lemma Follows.release (h : Follows size requests trial) (steady : trial.pool.Steady)
    (ready : requests = [] ∨ trial.Quiet) {id : Nat}
    (single : (requests.filterMap TrialRequest.submitted?).count ⟨id, .held⟩ ≤ 1) :
    Follows size (requests ++ [.release id]) (trial.accept (.release id)) := by
  obtain ⟨calm, served, -⟩ := h.ready steady ready
  rw [show trial.accept (.release id) = { trial with released := id :: trial.released } from rfl]
  refine ⟨?_, ?_, ?_, by simp⟩
  · rw [SequentialTrial.after_append_singleton]
    exact congrArg (id :: ·) h.released
  · rw [SequentialTrial.after_append_singleton, SequentialTrial.accept,
      h.course.eq_roster calm served, ← h.released]
    refine .release calm served (by simp [ending]) (fun other hne => ?_) fun i j hi hj => ?_
    · -- only a held job with that number is let go
      obtain ⟨other, kind⟩ := other
      cases kind with
      | brief => rfl
      | broken => rfl
      | held =>
        have hother : other ≠ id := fun heq => hne (by rw [heq])
        simp [ending, hother]
    · exact eq_of_running (h.jobs.count_eq _ ▸ single) hi hj
  · rw [List.filterMap_append]
    simpa [List.filterMap_cons, TrialRequest.submitted?] using h.jobs

/-- The held jobs that a list of requests submits. -/
def heldJobs (requests : List TrialRequest) : List TrialJob :=
  (requests.filterMap TrialRequest.submitted?).filter (·.kind = .held)

/-- When the held jobs are different from each other, the course of a trial is that of the pool
without threads. -/
theorem Leads.follows (h : Leads size requests trial) (names : (heldJobs requests).Nodup) :
    Follows size requests trial := by
  induction h with
  | start => exact follows_start
  | stir led stirs ih => exact (ih names).stir led.steady stirs
  | @request requests trial request led ready asked ih =>
    have hfront : (heldJobs requests).Nodup := by
      rw [heldJobs, List.filterMap_append, List.filter_append] at names
      exact names.of_append_left
    cases request with
    | submit job => exact (ih hfront).submit led.steady ready job
    | release id =>
      refine (ih hfront).release led.steady ready ?_
      rw [← List.count_filter (p := (·.kind = .held)) (by simp)]
      exact List.nodup_iff_count_le_one.1 hfront _
    | shutdown => exact absurd rfl asked

/-- **Scheduling is determined.**  Jobs are submitted to a pool that end at once, are held, or break
down, and held jobs are let go, also before they start; the held jobs have different numbers, so
that a number says which one is let go.  Then the trial as it is run comes to rest, and whenever all
is quiet, in whatever order the threads have moved,

* the same has happened to the jobs, with the same workers, as in the pool without threads;
* the same workers run the same jobs;
* the same jobs wait on the stack, in the same order;
* the counters say how many workers of the pool without threads run a job and how many are left. -/
theorem quiet_determined {size : Nat} {requests : List TrialRequest}
    (served : .shutdown ∉ requests) (names : (heldJobs requests).Nodup) :
    (Leads size requests (after size requests) ∧ (after size requests).Quiet) ∧
    ∀ trial, Leads size requests trial → trial.Quiet →
      trial.pool.log = (SequentialTrial.after size requests).roster.log ∧
      trial.pool.stack.items = (SequentialTrial.after size requests).roster.stack ∧
      (∀ index, trial.pool.running? index
        = (SequentialTrial.after size requests).roster.running? index) ∧
      trial.pool.busy = (SequentialTrial.after size requests).roster.busy ∧
      trial.pool.total = (SequentialTrial.after size requests).roster.total := by
  refine ⟨leads_after served, fun trial led quiet => ?_⟩
  have hroster := Pool.Quiet.eq_roster quiet led.steady (led.follows names).course
  rw [hroster]
  exact (Pool.Quiet.resting quiet led.steady).1.seen led.steady

/-- Two workers; one of them loses its job, and four jobs wait for the other one. -/
def mixture : List TrialRequest :=
  [.submit ⟨1, .held⟩, .release 4, .submit ⟨2, .broken⟩, .submit ⟨6, .held⟩, .submit ⟨3, .held⟩,
    .submit ⟨4, .held⟩, .submit ⟨5, .brief⟩, .release 1]

theorem quiet_determined_mixture :
    (∃ trial, Leads 2 mixture trial ∧ trial.Quiet) ∧
    ∀ trial, Leads 2 mixture trial → trial.Quiet →
      trial.pool.log
        = [.started ⟨3, .held⟩ 0, .ended ⟨4, .held⟩ 0 .normal, .started ⟨4, .held⟩ 0,
          .ended ⟨5, .brief⟩ 0 .normal, .started ⟨5, .brief⟩ 0, .ended ⟨1, .held⟩ 0 .normal,
          .ended ⟨2, .broken⟩ 1 .panic, .started ⟨2, .broken⟩ 1, .started ⟨1, .held⟩ 0] ∧
      trial.pool.stack.items = [⟨6, .held⟩] ∧ trial.pool.running? 0 = some ⟨3, .held⟩ ∧
      trial.pool.running? 1 = none ∧ trial.pool.busy = 1 ∧ trial.pool.total = 1 := by
  have hserved : .shutdown ∉ mixture := by decide
  have hnames : (heldJobs mixture).Nodup := by decide
  obtain ⟨hrun, hquiet⟩ := @quiet_determined 2 mixture hserved hnames
  refine ⟨⟨_, hrun⟩, fun trial led quiet => ?_⟩
  obtain ⟨hlog, hstack, hrunning, hbusy, htotal⟩ := hquiet trial led quiet
  rw [hlog, hstack, hrunning, hrunning, hbusy, htotal]
  decide

end Trial

end SiteServer
