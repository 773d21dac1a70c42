import SiteServer.Proofs.Pool.Moves

/-!
# The slots of the workers

The mark on a slot, the job in it and the worker's signal are written by different threads at
different times.  While the pool runs they agree in one of five ways, which `Worker.Orderly` lists.
Once the pool is being shut down a worker can be woken without a job, and it may clear the mark of a
slot that the controller has just filled; but the controller fills no slot after that one.  What is
left then is `Worker.Safe`, which holds as long as the controller looks for a slot, and it is enough
for the slot that the controller fills to be empty (`Disciplined.slot_eq_none`).
-/

namespace SiteServer

variable {J : Type}

/-- The worker is between its jobs, and its slot may be filled. -/
def WorkerPhase.isResting : WorkerPhase J → Bool
  | .starting | .checking | .waiting | .reporting => true
  | _ => false

/-- The worker has looked into its slot and has not cleared the mark since. -/
def WorkerPhase.isEngaged : WorkerPhase J → Bool
  | .entering _ | .running _ | .leaving | .clearing | .unwinding | .dying | .dead => true
  | _ => false

/-- Whether the controller is about to raise the signal of the worker with that index. -/
def ControllerPhase.raises : ControllerPhase J → Nat → Bool
  | .raising index, i => index == i
  | _, _ => false

namespace Worker

/-- How mark, slot and signal of a worker go together while the pool runs; `due` says whether the
controller is about to raise the signal. -/
inductive Orderly : Bool → Worker J → Prop where
  | idle {phase : WorkerPhase J} (resting : phase.isResting = true) :
      Orderly false ⟨phase, false, none, false⟩
  | filled {phase : WorkerPhase J} {job : J} (resting : phase.isResting = true) :
      Orderly true ⟨phase, true, some job, false⟩
  | called {phase : WorkerPhase J} {job : J} (resting : phase.isResting = true) :
      Orderly false ⟨phase, true, some job, true⟩
  | fetching {job : J} : Orderly false ⟨.fetching, true, some job, false⟩
  | engaged {phase : WorkerPhase J} (engaged : phase.isEngaged = true) :
      Orderly false ⟨phase, true, none, false⟩

/-- A slot that can be looked at: an unmarked one is empty, and so is one whose worker has taken out
what was in it. -/
structure Safe (worker : Worker J) : Prop where
  slot_of_unmarked : worker.marked = false → worker.job = none
  slot_of_engaged : worker.phase.isEngaged = true → worker.job = none

lemma not_isEngaged_of_isResting {phase : WorkerPhase J} (h : phase.isResting = true) :
    phase.isEngaged = false := by
  cases phase <;> simp_all [WorkerPhase.isResting, WorkerPhase.isEngaged]

namespace Orderly

variable {due : Bool} {worker : Worker J}

lemma safe (h : Orderly due worker) : worker.Safe := by
  cases h with
  | idle => exact ⟨fun _ => rfl, fun _ => rfl⟩
  | filled resting =>
    exact ⟨by simp, fun h => by simp [not_isEngaged_of_isResting resting] at h⟩
  | called resting =>
    exact ⟨by simp, fun h => by simp [not_isEngaged_of_isResting resting] at h⟩
  | fetching => exact ⟨by simp, by simp [WorkerPhase.isEngaged]⟩
  | engaged => exact ⟨fun _ => rfl, fun _ => rfl⟩

/-- A worker may go from one resting phase to another. -/
lemma rest (h : Orderly due worker) (before : worker.phase.isResting = true)
    {phase : WorkerPhase J} (after : phase.isResting = true) :
    Orderly due { worker with phase } := by
  cases h with
  | idle => exact .idle after
  | filled => exact .filled after
  | called => exact .called after
  | fetching => simp [WorkerPhase.isResting] at before
  | engaged engaged => rw [not_isEngaged_of_isResting before] at engaged; simp at engaged

/-- An engaged worker has emptied its slot, and nobody calls it. -/
lemma eq_of_isEngaged (h : Orderly due worker) (engaged : worker.phase.isEngaged = true) :
    due = false ∧ worker = ⟨worker.phase, true, none, false⟩ := by
  cases h with
  | idle resting => simp [not_isEngaged_of_isResting resting] at engaged
  | filled resting => simp [not_isEngaged_of_isResting resting] at engaged
  | called resting => simp [not_isEngaged_of_isResting resting] at engaged
  | fetching => simp [WorkerPhase.isEngaged] at engaged
  | engaged => exact ⟨rfl, rfl⟩

/-- A worker that is neither resting nor engaged has been called and not looked into its slot. -/
lemma exists_eq_fetching (h : Orderly due worker) (rests : worker.phase.isResting = false)
    (engages : worker.phase.isEngaged = false) :
    due = false ∧ ∃ job, worker = ⟨.fetching, true, some job, false⟩ := by
  cases h with
  | idle resting => simp [resting] at rests
  | filled resting => simp [resting] at rests
  | called resting => simp [resting] at rests
  | fetching => exact ⟨rfl, _, rfl⟩
  | engaged engaged => simp [engaged] at engages

/-- A worker may go from one engaged phase to another. -/
lemma engage (h : Orderly due worker) (before : worker.phase.isEngaged = true)
    {phase : WorkerPhase J} (after : phase.isEngaged = true) :
    Orderly due { worker with phase } := by
  obtain ⟨rfl, hworker⟩ := h.eq_of_isEngaged before
  rw [hworker]
  exact .engaged after

/-- Only a worker that has been called is woken. -/
lemma wake (h : Orderly due worker) (phase : worker.phase = .waiting)
    (raised : worker.raised = true) :
    Orderly due { worker with phase := .fetching, raised := false } := by
  cases h with
  | called => exact .fetching
  | idle => simp at raised
  | filled => simp at raised
  | fetching => simp at phase
  | engaged => simp at raised

lemma fetch (h : Orderly due worker) (phase : worker.phase = .fetching) (job : J) :
    Orderly due { worker with phase := .entering job, job := none } := by
  obtain ⟨rfl, job', rfl⟩ := h.exists_eq_fetching (by rw [phase]; rfl) (by rw [phase]; rfl)
  exact .engaged rfl

/-- A worker that looks into its slot finds a job there. -/
lemma slot_ne_none (h : Orderly due worker) (phase : worker.phase = .fetching) :
    worker.job ≠ none := by
  obtain ⟨-, job, rfl⟩ := h.exists_eq_fetching (by rw [phase]; rfl) (by rw [phase]; rfl)
  simp

lemma clear (h : Orderly due worker) (phase : worker.phase = .clearing) :
    Orderly due { worker with phase := .reporting, marked := false } := by
  obtain ⟨rfl, hworker⟩ := h.eq_of_isEngaged (by rw [phase]; rfl)
  rw [hworker]
  exact .idle rfl

/-- No worker stops. -/
lemma phase_ne_stopping (h : Orderly due worker) : worker.phase ≠ .stopping := by
  intro phase
  obtain ⟨-, job, rfl⟩ := h.exists_eq_fetching (by rw [phase]; rfl) (by rw [phase]; rfl)
  simp at phase

end Orderly

/-- A worker in another phase is safe if it does not become engaged with a job in its slot. -/
lemma Safe.setPhase {worker : Worker J} (h : worker.Safe) {phase : WorkerPhase J}
    (engaged : phase.isEngaged = true → worker.phase.isEngaged = true ∨ worker.job = none) :
    Safe { worker with phase } where
  slot_of_unmarked := h.slot_of_unmarked
  slot_of_engaged := fun hphase => (engaged hphase).elim h.slot_of_engaged id

end Worker

namespace Pool

/-- What holds of the slots of a pool at any time. -/
structure Disciplined (pool : Pool J) : Prop where
  orderly : pool.active = true → ∀ (index : Nat) (worker : Worker J),
    pool.workers[index]? = some worker → worker.Orderly (pool.controller.raises index)
  safe : ∀ (job : J) (start : Nat), pool.controller = .scanning job start →
    ∀ (index : Nat) (worker : Worker J), pool.workers[index]? = some worker → worker.Safe
  active_of_shutdown : pool.shutdown ≠ .idle → pool.active = false

lemma getElem?_set_forall {α : Type} {list : List α} {P : Nat → α → Prop} {index : Nat} {a : α}
    (others : ∀ i b, i ≠ index → list[i]? = some b → P i b) (new : P index a) :
    ∀ i b, (list.set index a)[i]? = some b → P i b := by
  intro i b h
  by_cases hi : i = index
  · subst hi
    rw [List.getElem?_set_self'] at h
    obtain ⟨-, -, rfl⟩ := Option.map_eq_some_iff.1 h
    exact new
  · rw [List.getElem?_set_ne (Ne.symm hi)] at h
    exact others i b hi h

namespace Disciplined

variable {pool next : Pool J}

/-- A move that changes one worker and leaves the controller where it is. -/
lemma put (h : pool.Disciplined) {index : Nat} {worker new : Worker J}
    (found : pool.workers[index]? = some worker) (active : next.active = pool.active)
    (controller : next.controller = pool.controller)
    (workers : next.workers = pool.workers.set index new)
    (shutdown : next.shutdown ≠ .idle → pool.shutdown ≠ .idle)
    (orderly : pool.active = true → worker.Orderly (pool.controller.raises index) →
      new.Orderly (pool.controller.raises index))
    (safe : worker.Safe → new.Safe) : next.Disciplined where
  orderly := by
    intro hactive
    rw [active] at hactive
    rw [controller, workers]
    exact getElem?_set_forall (fun i b _ hb => h.orderly hactive i b hb)
      (orderly hactive (h.orderly hactive index worker found))
  safe := by
    intro job start hscan
    rw [controller] at hscan
    rw [workers]
    exact getElem?_set_forall (P := fun _ w => w.Safe)
      (fun i b _ hb => h.safe job start hscan i b hb)
      (safe (h.safe job start hscan index worker found))
  active_of_shutdown := fun hs => active ▸ h.active_of_shutdown (shutdown hs)

/-- A move that changes no worker and after which the controller raises what it was to raise. -/
lemma of_workers_eq (h : pool.Disciplined) (workers : next.workers = pool.workers)
    (active : next.active = true → pool.active = true)
    (raises : next.active = true → ∀ index, (pool.workers[index]?).isSome →
      next.controller.raises index = pool.controller.raises index)
    (scanning : ∀ job start, next.controller = .scanning job start →
      pool.active = true ∨ ∃ job' start', pool.controller = .scanning job' start')
    (shutdown : next.shutdown ≠ .idle → next.active = false) : next.Disciplined where
  orderly := by
    intro hactive index worker found
    rw [workers] at found
    rw [raises hactive index (by simp [found])]
    exact h.orderly (active hactive) index worker found
  safe := by
    intro job start hscan index worker found
    rw [workers] at found
    rcases scanning job start hscan with hactive | ⟨job', start', hscan'⟩
    · exact (h.orderly hactive index worker found).safe
    · exact h.safe job' start' hscan' index worker found
  active_of_shutdown := shutdown

end Disciplined

lemma WorkerMoved.disciplined {pool next : Pool J} {index : Nat} {worker : Worker J}
    (moved : WorkerMoved pool index worker next) (found : pool.workers[index]? = some worker)
    (h : pool.Disciplined) : next.Disciplined := by
  cases moved with
  | start phase =>
    exact h.put found rfl rfl rfl id (fun _ o => o.rest (by rw [phase]; rfl) rfl)
      fun s => s.setPhase (by simp [WorkerPhase.isEngaged])
  | goOn phase active =>
    exact h.put found rfl rfl rfl id (fun _ o => o.rest (by rw [phase]; rfl) rfl)
      fun s => s.setPhase (by simp [WorkerPhase.isEngaged])
  | giveUp phase active =>
    exact h.put found rfl rfl rfl id (fun hactive => by simp [active] at hactive)
      fun s => s.setPhase (by simp [WorkerPhase.isEngaged])
  | wake phase raised =>
    exact h.put found rfl rfl rfl id (fun _ o => o.wake phase raised)
      fun s => ⟨s.slot_of_unmarked, by simp [WorkerPhase.isEngaged]⟩
  | fetch phase slot =>
    exact h.put found rfl rfl rfl id (fun _ o => o.fetch phase _)
      fun _ => ⟨fun _ => rfl, fun _ => rfl⟩
  | miss phase slot =>
    exact h.put found rfl rfl rfl id (fun _ o => absurd slot (o.slot_ne_none phase))
      fun s => s.setPhase fun _ => .inr slot
  | enter phase =>
    have engaged : worker.phase.isEngaged = true := by rw [phase]; rfl
    exact h.put found rfl rfl rfl id (fun _ o => o.engage engaged rfl)
      fun s => s.setPhase fun _ => .inl engaged
  | leave phase =>
    have engaged : worker.phase.isEngaged = true := by rw [phase]; rfl
    exact h.put found rfl rfl rfl id (fun _ o => o.engage engaged rfl)
      fun s => s.setPhase fun _ => .inl engaged
  | clear phase =>
    have engaged : worker.phase.isEngaged = true := by rw [phase]; rfl
    exact h.put found rfl rfl rfl id (fun _ o => o.clear phase)
      fun s => ⟨fun _ => s.slot_of_engaged engaged, fun _ => s.slot_of_engaged engaged⟩
  | report phase =>
    exact h.put found rfl rfl rfl id (fun _ o => o.rest (by rw [phase]; rfl) rfl)
      fun s => s.setPhase (by simp [WorkerPhase.isEngaged])
  | stop phase =>
    exact h.put found rfl rfl rfl id (fun _ o => absurd phase o.phase_ne_stopping)
      fun s => s.setPhase (by simp [WorkerPhase.isEngaged])
  | unwind phase =>
    have engaged : worker.phase.isEngaged = true := by rw [phase]; rfl
    exact h.put found rfl rfl rfl id (fun _ o => o.engage engaged rfl)
      fun s => s.setPhase fun _ => .inl engaged
  | die phase =>
    have engaged : worker.phase.isEngaged = true := by rw [phase]; rfl
    exact h.put found rfl rfl rfl id (fun _ o => o.engage engaged rfl)
      fun s => s.setPhase fun _ => .inl engaged

/-- While the controller is not about to raise a signal, no signal is due. -/
lemma raises_eq {before after : ControllerPhase J} (index : Nat)
    (hbefore : ∀ i, before ≠ .raising i) (hafter : ∀ i, after ≠ .raising i) :
    after.raises index = before.raises index := by
  cases before <;> cases after <;> simp_all [ControllerPhase.raises]

lemma ControllerMoved.disciplined {pool next : Pool J} (moved : ControllerMoved pool next)
    (h : pool.Disciplined) : next.Disciplined := by
  cases moved with
  | goOn phase active =>
    exact h.of_workers_eq rfl id (fun _ i _ => raises_eq i (by simp [phase]) (by simp)) (by simp)
      h.active_of_shutdown
  | stop phase active =>
    exact h.of_workers_eq rfl id (fun _ i _ => raises_eq i (by simp [phase]) (by simp)) (by simp)
      h.active_of_shutdown
  | wake phase raised =>
    exact h.of_workers_eq rfl id (fun _ i _ => raises_eq i (by simp [phase]) (by simp)) (by simp)
      h.active_of_shutdown
  | pop phase stack =>
    exact h.of_workers_eq rfl id (fun _ i _ => raises_eq i (by simp [phase]) (by simp)) (by simp)
      h.active_of_shutdown
  | rest phase stack =>
    exact h.of_workers_eq rfl id (fun _ i _ => raises_eq i (by simp [phase]) (by simp)) (by simp)
      h.active_of_shutdown
  | hold phase active =>
    exact h.of_workers_eq rfl id (fun _ i _ => raises_eq i (by simp [phase]) (by simp))
      (fun _ _ _ => .inl active) h.active_of_shutdown
  | drop phase active =>
    exact h.of_workers_eq rfl id (fun _ i _ => raises_eq i (by simp [phase]) (by simp)) (by simp)
      h.active_of_shutdown
  | skip phase found marked =>
    exact h.of_workers_eq rfl id (fun _ i _ => raises_eq i (by simp [phase]) (by simp))
      (fun _ _ _ => .inr ⟨_, _, phase⟩) h.active_of_shutdown
  | @assign job index worker phase found marked =>
    refine ⟨fun active => ?_, by simp, h.active_of_shutdown⟩
    refine getElem?_set_forall (fun i b hi hb => ?_) ?_
    · have hb := h.orderly active i b hb
      rw [phase] at hb
      simpa [ControllerPhase.raises, beq_false_of_ne (Ne.symm hi)] using hb
    · have ho := h.orderly active index worker found
      rw [phase] at ho
      cases ho with
      | idle resting => simpa [ControllerPhase.raises] using Worker.Orderly.filled resting
      | called => simp at marked
      | fetching => simp at marked
      | engaged => simp at marked
  | scanned phase found =>
    exact h.of_workers_eq rfl id (fun _ i _ => raises_eq i (by simp [phase]) (by simp)) (by simp)
      h.active_of_shutdown
  | @raise index worker phase found =>
    refine ⟨fun active => ?_, by simp, h.active_of_shutdown⟩
    refine getElem?_set_forall (fun i b hi hb => ?_) ?_
    · have hb := h.orderly active i b hb
      rw [phase] at hb
      simpa [ControllerPhase.raises, beq_false_of_ne (Ne.symm hi)] using hb
    · have ho := h.orderly active index worker found
      rw [phase] at ho
      simp only [ControllerPhase.raises, BEq.rfl] at ho
      cases ho with
      | filled resting => exact .called resting
  | @raiseNone index phase found =>
    refine h.of_workers_eq rfl id (fun _ i hi => ?_) (by simp) h.active_of_shutdown
    have hne : index ≠ i := fun heq => by rw [← heq, found] at hi; simp at hi
    simp [phase, ControllerPhase.raises, hne]
  | putBack phase =>
    exact h.of_workers_eq rfl id (fun _ i _ => raises_eq i (by simp [phase]) (by simp)) (by simp)
      h.active_of_shutdown

lemma ShutdownMoved.disciplined {pool next : Pool J} (moved : ShutdownMoved pool next)
    (h : pool.Disciplined) : next.Disciplined := by
  cases moved with
  | begin phase =>
    exact h.of_workers_eq rfl (by simp) (by simp) (fun job start hscan => .inr ⟨job, start, hscan⟩)
      fun _ => rfl
  | raiseController phase =>
    exact h.of_workers_eq rfl id (fun _ _ _ => rfl)
      (fun job start hscan => .inr ⟨job, start, hscan⟩)
      fun _ => h.active_of_shutdown (by simp [phase])
  | raiseWorker phase found =>
    have active : pool.active = false := h.active_of_shutdown (by simp [phase])
    exact h.put found rfl rfl rfl (fun _ => by simp [phase])
      (fun hactive => by simp [active] at hactive)
      fun s => ⟨s.slot_of_unmarked, s.slot_of_engaged⟩
  | raisedAll phase found =>
    exact h.of_workers_eq rfl id (fun _ _ _ => rfl)
      (fun job start hscan => .inr ⟨job, start, hscan⟩)
      fun _ => h.active_of_shutdown (by simp [phase])
  | join phase controller workers =>
    exact h.of_workers_eq rfl id (fun _ _ _ => rfl)
      (fun job start hscan => .inr ⟨job, start, hscan⟩)
      fun _ => h.active_of_shutdown (by simp [phase])
  | drain phase =>
    exact h.of_workers_eq rfl id (fun _ _ _ => rfl)
      (fun job start hscan => .inr ⟨job, start, hscan⟩) (by simp)

/-- Every move keeps the slots in order. -/
theorem Moved.disciplined {pool next : Pool J} {m : PoolMove J} (moved : Moved pool m next)
    (h : pool.Disciplined) : next.Disciplined := by
  cases moved with
  | push job =>
    exact h.of_workers_eq rfl id (fun _ _ _ => rfl)
      (fun job start hscan => .inr ⟨job, start, hscan⟩) h.active_of_shutdown
  | raise due =>
    exact h.of_workers_eq rfl id (fun _ _ _ => rfl)
      (fun job start hscan => .inr ⟨job, start, hscan⟩) h.active_of_shutdown
  | controller moved => exact moved.disciplined h
  | worker found moved => exact moved.disciplined found h
  | finish ending found phase =>
    have engaged : ∀ p : WorkerPhase J, p = phaseAfter ending → p.isEngaged = true := by
      rintro p rfl
      cases ending <;> rfl
    have before := congrArg WorkerPhase.isEngaged phase
    exact h.put found rfl rfl rfl id (fun _ o => o.engage before (engaged _ rfl))
      fun s => s.setPhase fun _ => .inl before
  | shutdown moved => exact moved.disciplined h

lemma disciplined_start (size : Nat) : (start size : Pool J).Disciplined where
  orderly := by
    intro _ index worker found
    obtain rfl : worker = {} := List.eq_of_mem_replicate (List.mem_of_getElem? found)
    exact .idle rfl
  safe := by simp [start]
  active_of_shutdown := by simp [start]

/-- The slots are in order in every pool that a new one can come to. -/
theorem Reachable.disciplined {size : Nat} {pool : Pool J} (h : Reachable size pool) :
    pool.Disciplined := by
  induction h with
  | start => exact disciplined_start size
  | step _ hstep ih =>
    obtain ⟨m, hm⟩ := hstep
    exact (moved_of_move? hm).disciplined ih

/-- The slot that the controller fills is empty. -/
theorem Disciplined.slot_eq_none {pool : Pool J} (h : pool.Disciplined) {job : J} {index : Nat}
    {worker : Worker J} (phase : pool.controller = .scanning job index)
    (found : pool.workers[index]? = some worker) (marked : worker.marked = false) :
    worker.job = none :=
  (h.safe job index phase index worker found).slot_of_unmarked marked

end Pool

end SiteServer
