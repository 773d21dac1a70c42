import Mathlib.Algebra.GroupWithZero.Nat
import SiteServer.Proofs.Pool.Moves

/-!
# What the counters of a pool count

A worker thread registers itself when it starts to live and when it starts to be busy, and takes the
registration back at the end.  Which threads hold a registration can be read off where they stand,
so both counters are counts over the workers (`Reachable.tallied`), also when the pool is being shut
down.
-/

namespace SiteServer

variable {J : Type}

namespace WorkerPhase

/-- The worker is counted as busy. -/
def isBusy : WorkerPhase J → Bool
  | .running _ | .leaving | .unwinding => true
  | _ => false

/-- The worker is counted among the living. -/
def isLiving : WorkerPhase J → Bool
  | .starting | .stopped | .dead => false
  | _ => true

end WorkerPhase

namespace Pool

/-- Each counter says how many workers are registered on it. -/
structure Tallied (pool : Pool J) : Prop where
  busy : pool.busy = pool.workers.countP (·.phase.isBusy)
  total : pool.total = pool.workers.countP (·.phase.isLiving)

section Lists

variable {α : Type} {list : List α} {index : Nat} {a : α}

/-- What a new element counts for more than the one it stands for is added. -/
lemma sum_map_set_add (f : α → Nat) (found : list[index]? = some a) (b : α) :
    ((list.set index b).map f).sum + f a = (list.map f).sum + f b := by
  induction list generalizing index with
  | nil => simp at found
  | cons first rest ih =>
    cases index with
    | zero =>
      obtain rfl : first = a := by simpa using found
      simp only [List.set_cons_zero, List.map_cons, List.sum_cons]
      omega
    | succ index =>
      have hrest := ih (by simpa using found)
      simp only [List.set_cons_succ, List.map_cons, List.sum_cons]
      omega

lemma countP_eq_sum (p : α → Bool) (list : List α) :
    list.countP p = (list.map fun a => (p a).toNat).sum := by
  induction list with
  | nil => rfl
  | cons first rest ih =>
    rw [List.countP_cons, List.map_cons, List.sum_cons, ih]
    cases p first <;> simp [Nat.add_comm]

lemma countP_set_add (p : α → Bool) (found : list[index]? = some a) (b : α) :
    (list.set index b).countP p + (p a).toNat = list.countP p + (p b).toNat := by
  rw [countP_eq_sum, countP_eq_sum, sum_map_set_add (fun a => (p a).toNat) found b]

end Lists

namespace Tallied

variable {pool next : Pool J} {index : Nat} {worker new : Worker J}

/-- A move of one worker that registers where it gains, and takes back where it loses. -/
lemma put (h : pool.Tallied) (found : pool.workers[index]? = some worker)
    (workers : next.workers = pool.workers.set index new)
    (busy : next.busy + worker.phase.isBusy.toNat = pool.busy + new.phase.isBusy.toNat)
    (total : next.total + worker.phase.isLiving.toNat = pool.total + new.phase.isLiving.toNat) :
    next.Tallied where
  busy := by
    have hcount := countP_set_add (·.phase.isBusy) found new
    rw [workers]
    have := h.busy
    omega
  total := by
    have hcount := countP_set_add (·.phase.isLiving) found new
    rw [workers]
    have := h.total
    omega

/-- A move that changes neither the counters nor where the workers stand. -/
lemma of_workers_eq (h : pool.Tallied) (workers : next.workers = pool.workers)
    (busy : next.busy = pool.busy) (total : next.total = pool.total) : next.Tallied :=
  ⟨by rw [busy, workers, h.busy], by rw [total, workers, h.total]⟩

/-- A worker that holds a registration has been counted. -/
lemma busy_pos (h : pool.Tallied) (found : pool.workers[index]? = some worker)
    (busy : worker.phase.isBusy = true) : 0 < pool.busy := by
  rw [h.busy, List.countP_pos_iff]
  exact ⟨worker, List.mem_of_getElem? found, busy⟩

lemma total_pos (h : pool.Tallied) (found : pool.workers[index]? = some worker)
    (living : worker.phase.isLiving = true) : 0 < pool.total := by
  rw [h.total, List.countP_pos_iff]
  exact ⟨worker, List.mem_of_getElem? found, living⟩

end Tallied

lemma WorkerMoved.tallied {pool next : Pool J} {index : Nat} {worker : Worker J}
    (moved : WorkerMoved pool index worker next) (found : pool.workers[index]? = some worker)
    (h : pool.Tallied) : next.Tallied := by
  have keep : ∀ new : Worker J, new.phase.isBusy = worker.phase.isBusy →
      new.phase.isLiving = worker.phase.isLiving → (pool.put index new).Tallied :=
    fun new busy living => h.put found rfl (by rw [busy]; rfl) (by rw [living]; rfl)
  cases moved with
  | start phase =>
    exact h.put found rfl (by simp [phase, WorkerPhase.isBusy])
      (by simp [phase, WorkerPhase.isLiving])
  | goOn phase => exact keep _ (by rw [phase]; rfl) (by rw [phase]; rfl)
  | giveUp phase => exact keep _ (by rw [phase]; rfl) (by rw [phase]; rfl)
  | wake phase => exact keep _ (by rw [phase]; rfl) (by rw [phase]; rfl)
  | fetch phase => exact keep _ (by rw [phase]; rfl) (by rw [phase]; rfl)
  | miss phase => exact keep _ (by rw [phase]; rfl) (by rw [phase]; rfl)
  | enter phase =>
    exact h.put found rfl (by simp [phase, WorkerPhase.isBusy])
      (by simp [phase, WorkerPhase.isLiving])
  | leave phase =>
    have hpos := h.busy_pos found (by rw [phase]; rfl)
    refine h.put found rfl ?_ (by simp [phase, WorkerPhase.isLiving])
    simp only [phase, WorkerPhase.isBusy, Bool.toNat_true, Bool.toNat_false, put_busy]
    omega
  | clear phase => exact keep _ (by rw [phase]; rfl) (by rw [phase]; rfl)
  | report phase =>
    exact h.put found rfl (by simp [phase, WorkerPhase.isBusy])
      (by simp [phase, WorkerPhase.isLiving])
  | stop phase =>
    have hpos := h.total_pos found (by rw [phase]; rfl)
    refine h.put found rfl (by simp [phase, WorkerPhase.isBusy]) ?_
    simp only [phase, WorkerPhase.isLiving, Bool.toNat_true, Bool.toNat_false, put_total]
    omega
  | unwind phase =>
    have hpos := h.busy_pos found (by rw [phase]; rfl)
    refine h.put found rfl ?_ (by simp [phase, WorkerPhase.isLiving])
    simp only [phase, WorkerPhase.isBusy, Bool.toNat_true, Bool.toNat_false, put_busy]
    omega
  | die phase =>
    have hpos := h.total_pos found (by rw [phase]; rfl)
    refine h.put found rfl (by simp [phase, WorkerPhase.isBusy]) ?_
    simp only [phase, WorkerPhase.isLiving, Bool.toNat_true, Bool.toNat_false, put_total]
    omega

/-- The controller does not move any worker on. -/
lemma ControllerMoved.tallied {pool next : Pool J} (moved : ControllerMoved pool next)
    (h : pool.Tallied) : next.Tallied := by
  cases moved with
  | assign phase found => exact h.put found rfl rfl rfl
  | raise phase found => exact h.put found rfl rfl rfl
  | _ => exact h.of_workers_eq rfl rfl rfl

lemma ShutdownMoved.tallied {pool next : Pool J} (moved : ShutdownMoved pool next)
    (h : pool.Tallied) : next.Tallied := by
  cases moved with
  | raiseWorker phase found => exact h.put found rfl rfl rfl
  | _ => exact h.of_workers_eq rfl rfl rfl

/-- Every move keeps the counters right. -/
theorem Moved.tallied {pool next : Pool J} {m : PoolMove J} (moved : Moved pool m next)
    (h : pool.Tallied) : next.Tallied := by
  cases moved with
  | push => exact h.of_workers_eq rfl rfl rfl
  | raise => exact h.of_workers_eq rfl rfl rfl
  | controller moved => exact moved.tallied h
  | worker found moved => exact moved.tallied found h
  | finish ending found phase =>
    -- a job that has ended leaves its worker counted on both
    cases ending <;>
      exact h.put found rfl (by rw [phase]; rfl) (by rw [phase]; rfl)
  | shutdown moved => exact moved.tallied h

lemma tallied_start (size : Nat) : (start size : Pool J).Tallied :=
  ⟨by simp [start, List.countP_replicate, WorkerPhase.isBusy],
    by simp [start, List.countP_replicate, WorkerPhase.isLiving]⟩

/-- The counters are right in every pool that a new one can come to. -/
theorem Reachable.tallied {size : Nat} {pool : Pool J} (h : Reachable size pool) :
    pool.Tallied := by
  induction h with
  | start => exact tallied_start size
  | step _ hstep ih =>
    obtain ⟨m, hm⟩ := hstep
    exact (moved_of_move? hm).tallied ih

end Pool

end SiteServer
