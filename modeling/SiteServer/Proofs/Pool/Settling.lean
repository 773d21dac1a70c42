import Mathlib.Algebra.Order.BigOperators.Group.List
import Mathlib.Logic.Relation
import Mathlib.Tactic.Linarith
import SiteServer.Proofs.Pool.Stirring

/-!
# The threads of a pool come to rest

Every move that a thread makes by itself takes something off what is left to be done
(`Pool.Stirs.effort_lt`), so that a pool becomes quiet whatever the threads do first.  A wake-up of
the controller costs one look at every slot; a job costs one look at every slot, the moves of the
worker that runs it and the wake-up that follows.  What is left to be done after a request is less
than the moves that `Pool.settle` makes at most, which leads therefore to a quiet pool
(`Pool.quiet_settle`).
-/

namespace SiteServer

variable {J : Type}

/-- How many moves a worker of a pool of that size has to make between its jobs, with the wake-up of
the controller that it causes. -/
def WorkerPhase.effort (size : Nat) : WorkerPhase J → Nat
  | .starting => 2
  | .checking => 1
  | .waiting => 0
  | .fetching => 1
  | .entering _ => size + 12
  | .running _ => size + 11
  | .leaving => size + 10
  | .clearing => size + 9
  | .reporting => size + 8
  | .unwinding => 2
  | .dying => 1
  | .stopping => 1
  | .stopped | .dead => 0

/-- What is left to be done by a worker. -/
def Worker.effort (size : Nat) (worker : Worker J) : Nat :=
  worker.phase.effort size + worker.job.elim 0 (fun _ => size + 12) + 2 * worker.raised.toNat

/-- What is left to be done by the controller, with the job that it has in its hand. -/
def ControllerPhase.effort (size : Nat) : ControllerPhase J → Nat
  | .checking => 1
  | .waiting | .stopped => 0
  | .popping => size + 5
  | .holding _ => 3 * size + 21
  | .scanning _ index => 2 * size + 20 + (size - index)
  | .raising _ => size + 8
  | .returning _ => 2 * size + 19

lemma Worker.effort_le (size : Nat) (worker : Worker J) : worker.effort size ≤ 2 * size + 26 := by
  have hphase : worker.phase.effort size ≤ size + 12 := by
    cases worker.phase <;> simp [WorkerPhase.effort]
  have hjob : worker.job.elim 0 (fun _ => size + 12) ≤ size + 12 := by
    cases worker.job <;> simp
  have hraised := Bool.toNat_le worker.raised
  simp only [Worker.effort]
  omega

lemma ControllerPhase.effort_le (size : Nat) (phase : ControllerPhase J) :
    phase.effort size ≤ 3 * size + 21 := by
  cases phase <;> simp only [effort] <;> omega

namespace Pool

/-- What is left to be done by the threads of a pool. -/
def effort (pool : Pool J) : Nat :=
  pool.controller.effort pool.workers.length + pool.stack.size * (2 * pool.workers.length + 17)
    + pool.raised.toNat * (pool.workers.length + 6) + pool.raisesDue * (pool.workers.length + 7)
    + (pool.workers.map (Worker.effort pool.workers.length)).sum

section Moves

variable {pool next : Pool J} {index : Nat} {worker new : Worker J} {ending : J → Option Ending}

/-- What a worker takes off is taken off the whole. -/
lemma effort_put (pool : Pool J) (found : pool.workers[index]? = some worker) (new : Worker J) :
    (pool.put index new).effort + worker.effort pool.workers.length
      = pool.effort + new.effort pool.workers.length := by
  have hsum := sum_map_set_add (Worker.effort pool.workers.length) found new
  simp only [effort, put_controller, put_stack, put_raised, put_raisesDue, put_workers,
    List.length_set]
  omega

lemma effort_controller (pool : Pool J) (phase : ControllerPhase J) :
    ({ pool with controller := phase } : Pool J).effort + pool.controller.effort pool.workers.length
      = pool.effort + phase.effort pool.workers.length := by
  simp only [effort]
  omega

/-- To raise the controller's signal costs a wake-up, unless it is raised already. -/
lemma effort_raise_le (pool : Pool J) :
    ({ pool with raised := true } : Pool J).effort ≤ pool.effort + (pool.workers.length + 6) := by
  cases raised : pool.raised <;> simp only [effort, raised, Bool.toNat_true, Bool.toNat_false] <;>
    omega

lemma WorkerMoved.effort_lt (moved : WorkerMoved pool index worker next)
    (found : pool.workers[index]? = some worker) (active : pool.active = true) {due : Bool}
    (orderly : worker.Orderly due) : next.effort < pool.effort := by
  have moves : ∀ (before : Pool J) (new : Worker J), before.workers = pool.workers →
      before.effort = pool.effort →
      new.effort pool.workers.length < worker.effort pool.workers.length →
      (before.put index new).effort < pool.effort := by
    intro before new workers heq lt
    have hput := effort_put before (workers ▸ found) new
    rw [workers] at hput
    omega
  cases moved with
  | start phase =>
    exact moves _ _ rfl rfl (by simp [Worker.effort, phase, WorkerPhase.effort])
  | goOn phase =>
    exact moves _ _ rfl rfl (by simp [Worker.effort, phase, WorkerPhase.effort])
  | giveUp phase inactive => simp [active] at inactive
  | wake phase raised =>
    refine moves _ _ rfl rfl ?_
    simp only [Worker.effort, phase, raised, WorkerPhase.effort, Bool.toNat_true, Bool.toNat_false]
    omega
  | fetch phase slot =>
    exact moves _ _ rfl rfl (by simp [Worker.effort, phase, slot, WorkerPhase.effort])
  | miss phase slot => exact absurd slot (orderly.slot_ne_none phase)
  | enter phase =>
    exact moves _ _ rfl rfl (by simp [Worker.effort, phase, WorkerPhase.effort])
  | leave phase =>
    exact moves _ _ rfl rfl (by simp [Worker.effort, phase, WorkerPhase.effort])
  | clear phase =>
    exact moves _ _ rfl rfl (by simp [Worker.effort, phase, WorkerPhase.effort])
  | report phase =>
    -- the worker has paid for the wake-up
    have hput := effort_put { pool with raised := true } found
      { worker with phase := .checking }
    have hraise := effort_raise_le pool
    simp only [Worker.effort, phase, WorkerPhase.effort] at hput
    omega
  | stop phase => exact absurd phase orderly.phase_ne_stopping
  | unwind phase =>
    exact moves _ _ rfl rfl (by simp [Worker.effort, phase, WorkerPhase.effort])
  | die phase =>
    exact moves _ _ rfl rfl (by simp [Worker.effort, phase, WorkerPhase.effort])

lemma ControllerMoved.effort_lt (moved : ControllerMoved pool next) (active : pool.active = true)
    (disciplined : pool.Disciplined) : next.effort < pool.effort := by
  -- what changes is where the controller stands, and the job in its hand
  have moves : ∀ phase : ControllerPhase J,
      phase.effort pool.workers.length < pool.controller.effort pool.workers.length →
      ({ pool with controller := phase } : Pool J).effort < pool.effort := by
    intro phase lt
    have hcontroller := effort_controller pool phase
    omega
  cases moved with
  | goOn phase => exact moves _ (by simp [phase, ControllerPhase.effort])
  | stop phase inactive => simp [active] at inactive
  | wake phase raised =>
    simp only [effort, phase, raised, ControllerPhase.effort, Bool.toNat_true, Bool.toNat_false]
    omega
  | pop phase stack =>
    simp only [effort, phase, WorkStack.size, stack, ControllerPhase.effort, List.length_cons,
      Nat.succ_mul]
    omega
  | rest phase => exact moves _ (by simp [phase, ControllerPhase.effort])
  | hold phase => exact moves _ (by simp only [phase, ControllerPhase.effort]; omega)
  | drop phase inactive => simp [active] at inactive
  | skip phase found =>
    have hlt := (List.getElem?_eq_some_iff.1 found).1
    exact moves _ (by simp only [phase, ControllerPhase.effort]; omega)
  | @assign job i worker phase found unmarked =>
    have hlt := (List.getElem?_eq_some_iff.1 found).1
    have hcontroller := effort_controller pool (.raising i)
    have hput := effort_put { pool with controller := .raising i } found
      { worker with marked := true, job := some job }
    simp only [phase, ControllerPhase.effort] at hcontroller
    simp only [Worker.effort, disciplined.slot_eq_none phase found unmarked, Option.elim] at hput
    omega
  | scanned phase => exact moves _ (by simp only [phase, ControllerPhase.effort]; omega)
  | @raise i worker phase found =>
    have hcontroller := effort_controller pool .popping
    have hput := effort_put { pool with controller := .popping } found
      { worker with raised := true }
    simp only [phase, ControllerPhase.effort] at hcontroller
    simp only [Worker.effort, Bool.toNat_true] at hput
    omega
  | raiseNone phase => exact moves _ (by simp [phase, ControllerPhase.effort])
  | putBack phase =>
    simp only [effort, phase, WorkStack.size, WorkStack.push, ControllerPhase.effort,
      List.length_cons, Nat.succ_mul]
    omega

/-- **Every move that a thread makes by itself takes something off what is left to be done.** -/
theorem Stirs.effort_lt (h : Stirs ending pool next) (steady : pool.Steady) :
    next.effort < pool.effort := by
  have active := steady.serving.active
  cases h with
  | raise moved =>
    cases moved_of_move? moved with
    | raise due =>
      obtain ⟨dues, hdues⟩ := Nat.exists_eq_succ_of_ne_zero due
      have hraise := effort_raise_le pool
      simp only [effort, hdues, Nat.succ_mul, Nat.succ_sub_one] at hraise ⊢
      omega
  | controller moved =>
    cases moved_of_move? moved with
    | controller moved => exact moved.effort_lt active steady.disciplined
  | worker index moved =>
    cases moved_of_move? moved with
    | worker found moved =>
      exact moved.effort_lt found active (steady.disciplined.orderly active _ _ found)
  | @finish index job e running due moved =>
    cases moved_of_move? moved with
    | @finish _ worker job' _ found phase =>
      have hput := effort_put { pool with log := .ended job' index e :: pool.log } found
        { worker with phase := phaseAfter e }
      have heq : ({ pool with log := .ended job' index e :: pool.log } : Pool J).effort
          = pool.effort := rfl
      have hlt : (phaseAfter e : WorkerPhase J).effort pool.workers.length
          < pool.workers.length + 11 := by
        cases e <;> simp only [phaseAfter, WorkerPhase.effort] <;> omega
      have hrunning : (.running job' : WorkerPhase J).effort pool.workers.length
          = pool.workers.length + 11 := rfl
      simp only [Worker.effort, phase] at hput
      omega

end Moves

/-! ### The moves of a trial -/

section Settle

variable {pool next : Pool J} {ending : J → Option Ending}

lemma running?_of_mem_candidates {m : PoolMove J} (h : m ∈ pool.candidates ending)
    (shutdown : pool.shutdown = .idle) :
    m = .raise ∨ m = .controller ∨ (∃ index, m = .worker index) ∨
      ∃ index job e, pool.running? index = some job ∧ ending job = some e ∧
        m = .finish index e := by
  simp only [candidates, shutdown, if_true, List.append_nil, List.mem_append, List.mem_cons,
    List.mem_map, List.mem_filterMap, Option.bind_eq_some_iff, Option.map_eq_some_iff,
    List.mem_range] at h
  rcases h with (h | h | ⟨index, -, h⟩) | ⟨index, -, job, running, e, due, h⟩
  · exact .inl h
  · exact .inr (.inl h)
  · exact .inr (.inr (.inl ⟨index, h.symm⟩))
  · exact .inr (.inr (.inr ⟨index, job, e, running, due, h.symm⟩))

/-- The move that a trial makes is one that a thread makes by itself. -/
lemma stirs_of_advance? (h : pool.advance? ending = some next) (shutdown : pool.shutdown = .idle) :
    Stirs ending pool next := by
  obtain ⟨m, hmem, hmove⟩ := List.exists_of_findSome?_eq_some h
  rcases running?_of_mem_candidates hmem shutdown with
    rfl | rfl | ⟨index, rfl⟩ | ⟨index, job, e, running, due, rfl⟩
  · exact .raise hmove
  · exact .controller hmove
  · exact .worker index hmove
  · exact .finish running due hmove

/-- A trial misses no move. -/
lemma quiet_of_advance? (h : pool.advance? ending = none) : pool.Quiet ending := by
  have blocked : ∀ m ∈ pool.candidates ending, pool.move? m = none :=
    List.findSome?_eq_none_iff.1 h
  have present : ∀ index, index < pool.workers.length →
      .worker index ∈ pool.candidates ending := by
    intro index hlt
    simp [candidates, hlt]
  intro next stirs
  cases stirs with
  | raise moved => simp [blocked .raise (by simp [candidates])] at moved
  | controller moved => simp [blocked .controller (by simp [candidates])] at moved
  | worker index moved =>
    have hlt : index < pool.workers.length := by
      by_contra hge
      simp [move?, List.getElem?_eq_none (Nat.not_lt.1 hge)] at moved
    simp [blocked _ (present index hlt)] at moved
  | @finish index job e running due moved =>
    have hlt : index < pool.workers.length := by
      by_contra hge
      simp [running?, List.getElem?_eq_none (Nat.not_lt.1 hge)] at running
    have hmem : .finish index e ∈ pool.candidates ending := by
      simp only [candidates, List.mem_append, List.mem_filterMap, List.mem_range]
      exact .inl (.inr ⟨index, hlt, by simp [running, due]⟩)
    simp [blocked _ hmem] at moved

/-- As many moves as there is left to be done lead to a quiet pool. -/
lemma quiet_advance {fuel : Nat} (steady : pool.Steady) (h : pool.effort ≤ fuel) :
    Relation.ReflTransGen (Stirs ending) pool (advance ending fuel pool) ∧
      (advance ending fuel pool).Quiet ending := by
  induction fuel generalizing pool with
  | zero =>
    refine ⟨.refl, fun next stirs => ?_⟩
    exact Nat.not_lt_zero _ (Nat.lt_of_lt_of_le (stirs.effort_lt steady) h)
  | succ fuel ih =>
    rcases hadvance : pool.advance? ending with _ | next
    · simp only [advance, hadvance]
      exact ⟨.refl, quiet_of_advance? hadvance⟩
    · simp only [advance, hadvance]
      have stirs := stirs_of_advance? hadvance steady.shutdown
      have lt := stirs.effort_lt steady
      obtain ⟨more, quiet⟩ := ih (stirs.steady steady) (by omega)
      exact ⟨.head stirs more, quiet⟩

/-- After a request there is less left to be done than the moves that a trial makes at most. -/
lemma effort_le_fuel (due : pool.raisesDue ≤ 1) : pool.effort ≤ pool.fuel := by
  have hcontroller := pool.controller.effort_le pool.workers.length
  have hworkers : (pool.workers.map (Worker.effort pool.workers.length)).sum
      ≤ pool.workers.length * (2 * pool.workers.length + 26) := by
    have hsum := List.sum_le_card_nsmul (pool.workers.map (Worker.effort pool.workers.length))
      (2 * pool.workers.length + 26) fun cost hmem => by
        obtain ⟨worker, -, rfl⟩ := List.mem_map.1 hmem
        exact worker.effort_le _
    simpa using hsum
  have hraised : pool.raised.toNat * (pool.workers.length + 6) ≤ pool.workers.length + 6 :=
    (Nat.mul_le_mul_right _ (Bool.toNat_le _)).trans_eq (Nat.one_mul _)
  have hdue : pool.raisesDue * (pool.workers.length + 7) ≤ pool.workers.length + 7 :=
    (Nat.mul_le_mul_right _ due).trans_eq (Nat.one_mul _)
  simp only [effort, fuel]
  nlinarith [Nat.zero_le (pool.stack.size * pool.workers.length)]

/-- **A trial comes to rest.** -/
theorem quiet_settle (steady : pool.Steady) (due : pool.raisesDue ≤ 1) :
    Relation.ReflTransGen (Stirs ending) pool (pool.settle ending) ∧
      (pool.settle ending).Quiet ending :=
  quiet_advance steady (effort_le_fuel due)

end Settle

end Pool

end SiteServer
