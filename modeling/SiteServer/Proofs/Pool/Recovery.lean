import SiteServer.Proofs.Pool.Custody

/-!
# Workers after their jobs

A worker whose job has ended normally is back at its slot after two moves of its own, which nobody
can hold up, and then the slot is marked idle (`Recovering`).  Only a job that breaks down ends a
worker's thread before the pool is shut down: as long as no job is ended so, the pool stays intact
(`Moved.intact`).
-/

namespace SiteServer

variable {J : Type}

/-- The worker's job has broken down, and its thread ends with it. -/
def WorkerPhase.isBroken : WorkerPhase J → Bool
  | .unwinding | .dying | .dead => true
  | _ => false

namespace Pool

variable {pool next : Pool J} {index i : Nat} {worker new : Worker J} {m : PoolMove J}

/-- What a move does to a worker: its phase stays, or it makes the move itself, or its job ends. -/
inductive PhaseMoved (pool : Pool J) (i : Nat) (worker : Worker J) (m : PoolMove J) (next : Pool J)
    (new : Worker J) : Prop where
  | stays (phase : new.phase = worker.phase)
  | own (m_eq : m = .worker i) (moved : WorkerMoved pool i worker next)
  | ends {ending : Ending} {job : J} (m_eq : m = .finish i ending)
      (phase : worker.phase = .running job) (after : new.phase = phaseAfter ending)

lemma getElem?_put (pool : Pool J) (found : pool.workers[index]? = some worker)
    (new : Worker J) : (pool.put index new).workers[index]? = some new := by
  rw [put_workers, List.getElem?_set_self (List.getElem?_eq_some_iff.1 found).1]

lemma WorkerMoved.exists_set (moved : WorkerMoved pool index worker next) :
    ∃ new, next.workers = pool.workers.set index new := by
  cases moved <;> exact ⟨_, rfl⟩

/-- Another thread writes to a worker's slot or signal only. -/
lemma phaseMoved_set (workers : next.workers = pool.workers.set index new)
    (found : pool.workers[index]? = some worker) (phase : new.phase = worker.phase)
    {other : Worker J} (hother : pool.workers[i]? = some other) :
    ∃ changed, next.workers[i]? = some changed ∧ PhaseMoved pool i other m next changed := by
  by_cases hi : index = i
  · subst hi
    obtain rfl := Option.some.inj (hother.symm.trans found)
    refine ⟨new, ?_, .stays phase⟩
    rw [workers, List.getElem?_set_self (List.getElem?_eq_some_iff.1 found).1]
  · exact ⟨other, by rw [workers, List.getElem?_set_ne hi, hother], .stays rfl⟩

/-- What can be done to a worker by a move, whoever makes it. -/
theorem Moved.phaseMoved (moved : Moved pool m next) (found : pool.workers[i]? = some worker) :
    ∃ new, next.workers[i]? = some new ∧ PhaseMoved pool i worker m next new := by
  -- a move that leaves all workers alone
  have hsame (workers : next.workers = pool.workers) :
      ∃ new, next.workers[i]? = some new ∧ PhaseMoved pool i worker m next new :=
    ⟨worker, by rw [workers, found], .stays rfl⟩
  cases moved with
  | push | raise => exact hsame rfl
  | controller moved => cases moved with
    | assign _ hfound _ => exact phaseMoved_set (by rfl) hfound (by rfl) found
    | raise _ hfound => exact phaseMoved_set (by rfl) hfound (by rfl) found
    | _ => exact hsame rfl
  | @worker index other _ hfound moved =>
    obtain ⟨new, workers⟩ := moved.exists_set
    by_cases hi : index = i
    · subst hi
      obtain rfl := Option.some.inj (hfound.symm.trans found)
      refine ⟨new, ?_, .own rfl moved⟩
      rw [workers, List.getElem?_set_self (List.getElem?_eq_some_iff.1 found).1]
    · exact ⟨worker, by rw [workers, List.getElem?_set_ne hi, found], .stays rfl⟩
  | @finish index other job ending hfound phase =>
    by_cases hi : index = i
    · subst hi
      obtain rfl := Option.some.inj (hfound.symm.trans found)
      exact ⟨_, getElem?_put _ hfound _, .ends rfl phase rfl⟩
    · exact ⟨worker, by rw [put_workers, List.getElem?_set_ne hi, found], .stays rfl⟩
  | shutdown moved => cases moved with
    | raiseWorker _ hfound => exact phaseMoved_set (by rfl) hfound (by rfl) found
    | _ => exact hsame rfl

/-! ### Workers that are lost -/

/-- No worker has been lost with its job. -/
def Intact (pool : Pool J) : Prop :=
  ∀ (i : Nat) (worker : Worker J), pool.workers[i]? = some worker → worker.phase.isBroken = false

lemma intact_start (size : Nat) : (start size : Pool J).Intact := by
  intro i worker found
  obtain rfl := List.eq_of_mem_replicate (List.mem_of_getElem? found)
  rfl

/-- A worker that moves by itself is not lost by it. -/
lemma WorkerMoved.isBroken_eq_false (moved : WorkerMoved pool index worker next)
    (found : pool.workers[index]? = some worker) (after : next.workers[index]? = some new)
    (h : worker.phase.isBroken = false) : new.phase.isBroken = false := by
  have hlt := (List.getElem?_eq_some_iff.1 found).1
  cases moved with
  | unwind phase | die phase => simp [phase, WorkerPhase.isBroken] at h
  | _ =>
    rw [put_workers, List.getElem?_set_self hlt] at after
    obtain rfl := Option.some.inj after
    rfl

lemma Moved.length_workers (moved : Moved pool m next) :
    next.workers.length = pool.workers.length := by
  cases moved with
  | controller moved => cases moved <;> simp
  | worker found moved =>
    obtain ⟨new, workers⟩ := moved.exists_set
    rw [workers, List.length_set]
  | shutdown moved => cases moved <;> simp
  | push | raise | finish => simp

/-- Workers are lost only with jobs that break down. -/
theorem Moved.intact (moved : Moved pool m next) (hm : ∀ i, m ≠ .finish i .panic)
    (h : pool.Intact) : next.Intact := by
  intro i new after
  have hlt : i < pool.workers.length :=
    moved.length_workers ▸ (List.getElem?_eq_some_iff.1 after).1
  have found : pool.workers[i]? = some pool.workers[i] := List.getElem?_eq_getElem hlt
  have hbefore := h i _ found
  obtain ⟨new', after', hphase⟩ := moved.phaseMoved found
  obtain rfl := Option.some.inj (after.symm.trans after')
  cases hphase with
  | stays phase => rw [phase, hbefore]
  | own _ own => exact own.isBroken_eq_false found after hbefore
  | @ends ending job m_eq _ phase =>
    cases ending with
    | normal => rw [phase]; rfl
    | panic => exact absurd m_eq (hm i)

/-! ### Back at the slot -/

/-- A worker that runs no job is moved on by nobody else. -/
lemma Moved.phase_eq (moved : Moved pool m next) (found : pool.workers[i]? = some worker)
    (hm : m ≠ .worker i) (phase : ∀ job, worker.phase ≠ .running job) :
    ∃ new, next.workers[i]? = some new ∧ new.phase = worker.phase := by
  obtain ⟨new, after, hphase⟩ := moved.phaseMoved found
  cases hphase with
  | stays phase => exact ⟨new, after, phase⟩
  | own m_eq => exact absurd m_eq hm
  | ends _ running => exact absurd running (phase _)

/-- The first move of a worker whose job has ended. -/
lemma WorkerMoved.of_leaving (moved : WorkerMoved pool index worker next)
    (found : pool.workers[index]? = some worker) (leaving : worker.phase = .leaving) :
    ∃ new, next.workers[index]? = some new ∧ new.phase = .clearing := by
  have hlt := (List.getElem?_eq_some_iff.1 found).1
  cases moved with
  | leave => exact ⟨_, by rw [put_workers, List.getElem?_set_self hlt], rfl⟩
  | _ phase => rw [leaving] at phase; cases phase

/-- With the second one it marks its slot idle. -/
lemma WorkerMoved.of_clearing (moved : WorkerMoved pool index worker next)
    (found : pool.workers[index]? = some worker) (clearing : worker.phase = .clearing) :
    ∃ new, next.workers[index]? = some new ∧ new.phase = .reporting ∧ new.marked = false := by
  have hlt := (List.getElem?_eq_some_iff.1 found).1
  cases moved with
  | clear => exact ⟨_, by rw [put_workers, List.getElem?_set_self hlt], rfl, rfl⟩
  | _ phase => rw [clearing] at phase; cases phase

/-- A worker has made so many moves since its job has ended. -/
structure Recovering (pool : Pool J) (i count : Nat) : Prop where
  exists_worker : ∃ worker, pool.workers[i]? = some worker ∧
    (count = 0 → worker.phase = .leaving) ∧ (count = 1 → worker.phase = .clearing)

namespace Recovering

variable {count : Nat} (h : pool.Recovering i count)
include h

/-- The others do not hold it up. -/
lemma of_ne (moved : Moved pool m next) (hm : m ≠ .worker i) : next.Recovering i count := by
  obtain ⟨worker, found, hleaving, hclearing⟩ := h.exists_worker
  by_cases hcount : count = 0 ∨ count = 1
  · have hidle : ∀ job, worker.phase ≠ .running job := by
      rcases hcount with rfl | rfl
      · simp [hleaving]
      · simp [hclearing]
    obtain ⟨new, after, phase⟩ := moved.phase_eq found hm hidle
    exact ⟨new, after, by rwa [phase], by rwa [phase]⟩
  · obtain ⟨new, after, -⟩ := moved.phaseMoved found
    exact ⟨new, after, fun h => absurd (.inl h) hcount, fun h => absurd (.inr h) hcount⟩

lemma own (moved : Moved pool (.worker i) next) : next.Recovering i (count + 1) := by
  obtain ⟨worker, found, hleaving, -⟩ := h.exists_worker
  by_cases hcount : count = 0
  · cases moved with
    | worker found' moved =>
      obtain rfl := Option.some.inj (found'.symm.trans found)
      obtain ⟨new, after, phase⟩ := moved.of_leaving found (hleaving hcount)
      exact ⟨new, after, by simp, fun _ => phase⟩
  · obtain ⟨new, after, -⟩ := moved.phaseMoved found
    exact ⟨new, after, by simp, fun hone => absurd (Nat.succ.inj hone) hcount⟩

/-- It can go on, without touching a job, and marks its slot idle with its second move. -/
lemma exists_move (hcount : count < 2) :
    ∃ next, pool.move? (.worker i) = some next ∧ next.live = pool.live ∧
      (count = 1 → ∃ worker, next.workers[i]? = some worker ∧ worker.marked = false) := by
  obtain ⟨worker, found, hleaving, hclearing⟩ := h.exists_worker
  have hphase : worker.phase = .leaving ∨ worker.phase = .clearing := by
    rcases Nat.le_one_iff_eq_zero_or_eq_one.1 (Nat.lt_succ_iff.1 hcount) with rfl | rfl
    · exact .inl (hleaving rfl)
    · exact .inr (hclearing rfl)
  obtain ⟨next, hmove⟩ : ∃ next, pool.move? (.worker i) = some next := by
    rcases hphase with phase | phase <;> simp [move?, found, workerMove?, phase]
  refine ⟨next, hmove, ?_⟩
  cases moved_of_move? hmove with
  | worker found' moved =>
    obtain rfl := Option.some.inj (found'.symm.trans found)
    refine ⟨moved.live_eq found, fun hone => ?_⟩
    obtain ⟨new, after, -, unmarked⟩ := moved.of_clearing found (hclearing hone)
    exact ⟨new, after, unmarked⟩

end Recovering

lemma recovering_of_finish (moved : Moved pool (.finish i .normal) next) :
    next.Recovering i 0 := by
  cases moved with
  | @finish index worker job ending found phase =>
    exact ⟨_, getElem?_put _ found _, fun _ => rfl, by simp⟩

/-- While the pool is not shut down, no thread ends that is not lost with its job. -/
lemma Intact.hasEnded_eq_false (h : pool.Intact) (hd : pool.Disciplined)
    (active : pool.active = true) (found : pool.workers[i]? = some worker) :
    hasEnded worker = false := by
  have hbroken := h i worker found
  have horderly := hd.orderly active i worker found
  cases hphase : worker.phase with
  | dead => simp [hphase, WorkerPhase.isBroken] at hbroken
  | stopped =>
    obtain ⟨-, job, rfl⟩ := horderly.exists_eq_fetching (by rw [hphase]; rfl) (by rw [hphase]; rfl)
    cases hphase
  | _ => simp [hasEnded, hphase]

end Pool

end SiteServer
