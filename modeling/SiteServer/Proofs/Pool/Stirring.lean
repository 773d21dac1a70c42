import SiteServer.Proofs.Pool.Course
import SiteServer.Proofs.Pool.History
import SiteServer.Proofs.Pool.Wakeups

/-!
# What the threads of a pool do by themselves

Between two requests the submitter raises the controller's signal, the controller and the workers
make their moves, and the jobs end that are to end.  All this, in any order, is what `Pool.Stirs`
allows, and a pool is quiet when nothing of it is left to be done.  Seen from afar (`Pool.view`)
each of these moves is a shift or nothing at all (`Pool.Stirs.shift`), and in a quiet pool nobody
has anything to do (`Pool.Quiet.settled`).
-/

namespace SiteServer

variable {J : Type}

/-- How far the worker is with its jobs. -/
def Worker.stance (worker : Worker J) : Stance J :=
  match worker.phase with
  | .entering job => .bound job
  | .running job => .running job
  | .leaving | .clearing => .done
  | .unwinding | .dying | .dead => .lost
  | _ =>
    match worker.job with
    | some job => .bound job
    | none => .free

/-- The slot that the controller is about to look at. -/
def ControllerPhase.scanned? : ControllerPhase J → Option Nat
  | .scanning _ index => some index
  | _ => none

/-- A worker that runs a job has it in its hands. -/
lemma Worker.mem_jobs_of_stance {worker : Worker J} {job : J} (h : worker.stance = .running job) :
    job ∈ worker.jobs := by
  obtain ⟨phase, marked, slot, raised⟩ := worker
  cases phase <;> cases slot <;> simp_all [stance, jobs, WorkerPhase.job?]

namespace Worker.Orderly

variable {due : Bool} {worker : Worker J}

/-- An unmarked worker is free. -/
lemma stance_of_unmarked (h : worker.Orderly due) (unmarked : worker.marked = false) :
    worker.stance = .free := by
  cases h with
  | @idle phase resting => cases phase <;> simp_all [stance, WorkerPhase.isResting]
  | filled => simp at unmarked
  | called => simp at unmarked
  | fetching => simp at unmarked
  | engaged => simp at unmarked

/-- A marked worker has a job, is about to clear its mark, or is lost. -/
lemma stance_of_marked (h : worker.Orderly due) (marked : worker.marked = true) :
    worker.stance ≠ .free := by
  cases h with
  | idle => simp at marked
  | @filled phase job resting => cases phase <;> simp_all [stance, WorkerPhase.isResting]
  | @called phase job resting => cases phase <;> simp_all [stance, WorkerPhase.isResting]
  | fetching => simp [stance]
  | @engaged phase engaged => cases phase <;> simp_all [stance, WorkerPhase.isEngaged]

/-- A worker whose empty slot is filled is bound to the job. -/
lemma stance_of_filled (h : worker.Orderly due) (unmarked : worker.marked = false) {job : J} :
    Worker.stance { worker with marked := true, job := some job } = .bound job := by
  cases h with
  | @idle phase resting => cases phase <;> simp_all [stance, WorkerPhase.isResting]
  | filled => simp at unmarked
  | called => simp at unmarked
  | fetching => simp at unmarked
  | engaged => simp at unmarked

end Worker.Orderly

namespace Pool

/-- The pool seen from afar. -/
def view (pool : Pool J) : View J where
  stances := pool.workers.map Worker.stance
  pending := pool.controller.job?.toList ++ pool.stack.items
  log := pool.log
  scanned := pool.controller.scanned?

/-- One pool comes from another by a move that a thread makes by itself; `ending` says which jobs
are to end, and how. -/
inductive Stirs (ending : J → Option Ending) (pool next : Pool J) : Prop where
  | raise (moved : pool.move? .raise = some next)
  | controller (moved : pool.move? .controller = some next)
  | worker (index : Nat) (moved : pool.move? (.worker index) = some next)
  | finish {index : Nat} {job : J} {e : Ending} (running : pool.running? index = some job)
      (due : ending job = some e) (moved : pool.move? (.finish index e) = some next)

/-- No thread makes a move by itself. -/
def Quiet (ending : J → Option Ending) (pool : Pool J) : Prop :=
  ∀ next, ¬ Stirs ending pool next

/-- What holds of a pool that nobody shuts down. -/
structure Steady (pool : Pool J) : Prop where
  serving : pool.Serving
  disciplined : pool.Disciplined
  tallied : pool.Tallied
  shutdown : pool.shutdown = .idle

section Moves

variable {pool next : Pool J} {index : Nat} {worker : Worker J} {m : PoolMove J}
  {ending : J → Option Ending}

lemma steady_start (size : Nat) : (start size : Pool J).Steady :=
  ⟨serving_start size, disciplined_start size, tallied_start size, rfl⟩

lemma Steady.step (h : pool.Steady) (moved : Moved pool m next) (hm : m ≠ .shutdown) :
    next.Steady where
  serving := h.serving.step moved hm
  disciplined := moved.disciplined h.disciplined
  tallied := moved.tallied h.tallied
  shutdown := by
    cases moved with
    | controller moved => cases moved <;> exact h.shutdown
    | worker _ moved => cases moved <;> exact h.shutdown
    | shutdown => exact absurd rfl hm
    | _ => exact h.shutdown

/-- A thread that moves by itself neither submits a job nor shuts the pool down. -/
lemma Stirs.exists_moved (h : Stirs ending pool next) :
    ∃ m, Moved pool m next ∧ m ≠ .shutdown ∧ m.submitted? = none := by
  cases h with
  | raise moved => exact ⟨_, moved_of_move? moved, by simp, rfl⟩
  | controller moved => exact ⟨_, moved_of_move? moved, by simp, rfl⟩
  | worker index moved => exact ⟨_, moved_of_move? moved, by simp, rfl⟩
  | finish running due moved => exact ⟨_, moved_of_move? moved, by simp, rfl⟩

lemma Stirs.steady (h : Stirs ending pool next) (steady : pool.Steady) : next.Steady := by
  obtain ⟨m, moved, hm, -⟩ := h.exists_moved
  exact steady.step moved hm

/-! ### Moves seen from afar -/

/-- A move of one worker that leaves the stack, the log and the controller alone. -/
lemma view_put (pool : Pool J) (index : Nat) (new : Worker J) :
    (pool.put index new).view
      = { pool.view with stances := pool.view.stances.set index new.stance } := by
  simp [view, List.map_set]

lemma stances_view (found : pool.workers[index]? = some worker) :
    pool.view.stances[index]? = some worker.stance := by
  simp [view, found]

/-- Nothing can be seen of a move after which the worker is as far with its jobs as before. -/
lemma map_stance_set (found : pool.workers[index]? = some worker) {new : Worker J}
    (h : new.stance = worker.stance) :
    (pool.workers.set index new).map Worker.stance = pool.workers.map Worker.stance := by
  obtain ⟨hlt, hget⟩ := List.getElem?_eq_some_iff.1 (stances_view found)
  rw [List.map_set, h, ← hget]
  exact List.set_getElem_self hlt

lemma WorkerMoved.shift (moved : WorkerMoved pool index worker next)
    (found : pool.workers[index]? = some worker) (active : pool.active = true) {due : Bool}
    (orderly : worker.Orderly due) : View.Shift ending pool.view next.view := by
  have still : ∀ (before : Pool J) (new : Worker J), before.workers = pool.workers →
      before.view = pool.view → new.stance = worker.stance →
      View.Shift ending pool.view (before.put index new).view := by
    intro before new workers hview h
    have hput : (before.put index new).view = before.view :=
      congrArg (fun stances => { before.view with stances }) (map_stance_set (workers ▸ found) h)
    rw [hput, hview]
    exact .still
  have seen := stances_view found
  cases moved with
  | start phase => exact still _ _ rfl rfl (by simp [Worker.stance, phase])
  | goOn phase => exact still _ _ rfl rfl (by simp [Worker.stance, phase])
  | giveUp phase inactive => simp [active] at inactive
  | wake phase => exact still _ _ rfl rfl (by simp [Worker.stance, phase])
  | fetch phase slot => exact still _ _ rfl rfl (by simp [Worker.stance, phase, slot])
  | miss phase slot => exact absurd slot (orderly.slot_ne_none phase)
  | @enter job phase =>
    rw [show worker.stance = .bound job by simp [Worker.stance, phase]] at seen
    rw [view_put]
    exact .starts seen
  | leave phase => exact still _ _ rfl rfl (by simp [Worker.stance, phase])
  | clear phase =>
    rw [show worker.stance = .done by simp [Worker.stance, phase]] at seen
    have empty : worker.job = none :=
      congrArg Worker.job (orderly.eq_of_isEngaged (by rw [phase]; rfl)).2
    rw [view_put, show Worker.stance { worker with phase := .reporting, marked := false } = .free by
      simp [Worker.stance, empty]]
    exact .frees seen
  | report phase => exact still _ _ rfl rfl (by simp [Worker.stance, phase])
  | stop phase => exact absurd phase orderly.phase_ne_stopping
  | unwind phase => exact still _ _ rfl rfl (by simp [Worker.stance, phase])
  | die phase => exact still _ _ rfl rfl (by simp [Worker.stance, phase])

lemma ControllerMoved.shift (moved : ControllerMoved pool next) (disciplined : pool.Disciplined)
    (active : pool.active = true) : View.Shift ending pool.view next.view := by
  -- the controller takes a job in its hand or puts it back, and looks at no slot but the first
  have looks : next.view.stances = pool.view.stances → next.log = pool.log →
      next.view.pending = pool.view.pending →
      (next.controller.scanned? = none ∨ next.controller.scanned? = some 0) →
      View.Shift ending pool.view next.view := by
    intro stances log pending begins
    have hview : next.view = { pool.view with scanned := next.controller.scanned? } := by
      calc next.view
        _ = ⟨next.view.stances, next.view.pending, next.log, next.controller.scanned?⟩ := rfl
        _ = ⟨pool.view.stances, pool.view.pending, pool.log, next.controller.scanned?⟩ := by
          rw [stances, pending, log]
    exact hview ▸ .looks begins
  cases moved with
  | goOn phase => exact looks rfl rfl (by rw [view, view, phase]; rfl) (.inl rfl)
  | stop phase inactive => simp [active] at inactive
  | wake phase => exact looks rfl rfl (by rw [view, view, phase]; rfl) (.inl rfl)
  | pop phase stack => exact looks rfl rfl (by rw [view, view, phase, stack]; rfl) (.inl rfl)
  | rest phase => exact looks rfl rfl (by rw [view, view, phase]; rfl) (.inl rfl)
  | hold phase =>
    exact looks rfl rfl (by rw [view, view, phase]; rfl) (.inr rfl)
  | drop phase inactive => simp [active] at inactive
  | @skip job i worker phase found marked =>
    have hview : ({ pool with controller := .scanning job (i + 1) } : Pool J).view
        = { pool.view with scanned := some (i + 1) } := by
      simp [view, phase, ControllerPhase.job?, ControllerPhase.scanned?]
    rw [hview]
    exact .passes (by simp [view, phase, ControllerPhase.scanned?]) (stances_view found)
      ((disciplined.orderly active i worker found).stance_of_marked marked)
  | @assign job i worker phase found unmarked =>
    have orderly := disciplined.orderly active i worker found
    have free := stances_view found
    rw [orderly.stance_of_unmarked unmarked] at free
    rw [view_put, orderly.stance_of_filled unmarked]
    exact .assigns (by simp [view, phase, ControllerPhase.scanned?]) free
      (by simp [view, phase, ControllerPhase.job?])
  | scanned phase => exact looks rfl rfl (by rw [view, view, phase]; rfl) (.inl rfl)
  | raise phase found =>
    exact looks (map_stance_set found rfl) rfl (by rw [view, view, phase]; rfl) (.inl rfl)
  | raiseNone phase => exact looks rfl rfl (by rw [view, view, phase]; rfl) (.inl rfl)
  | putBack phase => exact looks rfl rfl (by rw [view, view, phase]; rfl) (.inl rfl)

/-- **Seen from afar, every move of a thread is a shift.** -/
theorem Stirs.shift (h : Stirs ending pool next) (steady : pool.Steady) :
    View.Shift ending pool.view next.view := by
  have active := steady.serving.active
  cases h with
  | raise moved =>
    cases moved_of_move? moved with
    | raise => exact .still
  | controller moved =>
    cases moved_of_move? moved with
    | controller moved => exact moved.shift steady.disciplined active
  | worker index moved =>
    cases moved_of_move? moved with
    | worker found moved =>
      exact moved.shift found active (steady.disciplined.orderly active _ _ found)
  | @finish index job e running due moved =>
    cases moved_of_move? moved with
    | @finish _ worker job' _ found phase =>
      obtain rfl : job' = job := by
        have hrunning : pool.running? index = some job' := by
          rw [running?_eq]
          simp [Pool.running, found, phase, WorkerPhase.running?]
        exact Option.some.inj (hrunning.symm.trans running)
      have seen := stances_view found
      rw [show worker.stance = .running job' by simp [Worker.stance, phase]] at seen
      have ended : Worker.stance { worker with phase := phaseAfter e } = .after e := by
        cases e <;> rfl
      rw [view_put, ended]
      exact .ends seen due

/-! ### Quiet pools -/

/-- In a quiet pool everybody rests, and no job is to end. -/
lemma Quiet.resting (h : Quiet ending pool) (steady : pool.Steady) :
    pool.Resting ∧ ∀ index job, pool.running? index = some job → ending job = none := by
  have blocked : ∀ m, (∀ next, pool.move? m = some next → Stirs ending pool next) →
      pool.move? m = none :=
    fun m stirs => Option.eq_none_iff_forall_ne_some.2 fun next hm => h next (stirs next hm)
  refine ⟨(resting_iff steady.serving steady.disciplined).2
    ⟨blocked _ fun _ => .raise, blocked _ fun _ => .controller,
      fun index => blocked _ fun _ => .worker index⟩, fun index job running => ?_⟩
  by_contra hdue
  obtain ⟨e, due⟩ := Option.ne_none_iff_exists'.1 hdue
  have hfinish : pool.move? (.finish index e) = none := blocked _ fun _ => .finish running due
  simp [move?, finish?, running] at hfinish

/-- How far a worker of a pool at rest is: what it is seen to do it goes on doing. -/
lemma Resting.stance (rests : pool.Resting) (steady : pool.Steady)
    (hmem : worker ∈ pool.workers) :
    (worker.phase = .waiting ∧ worker.stance = .free) ∨
      (∃ job, worker.phase = .running job ∧ worker.stance = .running job) ∨
      (worker.phase = .dead ∧ worker.stance = .lost) := by
  obtain ⟨index, found⟩ := List.mem_iff_getElem?.1 hmem
  have orderly := steady.disciplined.orderly steady.serving.active index worker found
  rw [rests.controller] at orderly
  rcases rests.workers worker hmem with ⟨phase, lowered⟩ | ⟨phase⟩ | ⟨phase⟩
  · exact .inl ⟨phase, orderly.stance_of_unmarked (orderly.of_lowered phase lowered).1⟩
  · exact .inr (.inl ⟨_, phase, by simp [Worker.stance, phase]⟩)
  · exact .inr (.inr ⟨phase, by simp [Worker.stance, phase]⟩)

/-- In a quiet pool nobody has anything to do, and no job waits while a worker is free. -/
lemma Quiet.settled (h : Quiet ending pool) (steady : pool.Steady) :
    pool.view.Calm ending ∧ (pool.view.pending = [] ∨ .free ∉ pool.view.stances) := by
  obtain ⟨rests, held⟩ := h.resting steady
  have hstance : ∀ (i : Nat) (s : Stance J), pool.view.stances[i]? = some s →
      ∃ worker, pool.workers[i]? = some worker ∧ worker.stance = s := by
    intro i s hs
    simpa [view] using hs
  constructor
  · intro i s hs
    obtain ⟨worker, found, rfl⟩ := hstance i s hs
    rcases rests.stance steady (List.mem_of_getElem? found) with
      ⟨-, hfree⟩ | ⟨job, phase, hruns⟩ | ⟨-, hlost⟩
    · simp [hfree, Stance.isDue]
    · have running : pool.running? i = some job := by
        simp [running?_eq, running, found, phase, WorkerPhase.running?]
      simp [hruns, Stance.isDue, held i job running]
    · simp [hlost, Stance.isDue]
  · rw [or_iff_not_imp_left]
    intro waits hmem
    have hstack : pool.stack.items ≠ [] := by
      simpa [view, rests.controller, ControllerPhase.job?] using waits
    obtain ⟨i, hi⟩ := List.mem_iff_getElem?.1 hmem
    obtain ⟨worker, found, hfree⟩ := hstance i _ hi
    -- the controller has passed every slot in vain
    have marked := rests.marked_of_stack_ne_nil steady.serving.attended hstack
      (List.mem_of_getElem? found)
    exact (steady.disciplined.orderly steady.serving.active i worker found).stance_of_marked
      marked hfree

/-- What comes of a quiet pool is what it is. -/
theorem Quiet.eq_roster (h : Quiet ending pool) (steady : pool.Steady) {result : Roster J}
    (course : pool.view.Course ending result) : result = pool.view.roster := by
  obtain ⟨calm, served⟩ := h.settled steady
  exact course.eq_roster calm served

/-- The roster of a pool at rest tells everything that can be seen of it. -/
theorem Resting.seen (rests : pool.Resting) (steady : pool.Steady) :
    pool.log = pool.view.roster.log ∧ pool.stack.items = pool.view.roster.stack ∧
      (∀ index, pool.running? index = pool.view.roster.running? index) ∧
      pool.busy = pool.view.roster.busy ∧ pool.total = pool.view.roster.total := by
  refine ⟨rfl, ?_, fun index => ?_, ?_, ?_⟩
  · simp [View.roster, view, rests.controller, ControllerPhase.job?]
  · rcases found : pool.workers[index]? with _ | worker
    · simp [running?_eq, running, Roster.running?, View.roster, View.duties, view, found]
    · rcases rests.stance steady (List.mem_of_getElem? found) with
        ⟨phase, hs⟩ | ⟨job, phase, hs⟩ | ⟨phase, hs⟩ <;>
        simp [running?_eq, running, Roster.running?, View.roster, View.duties, view, found, phase,
          hs, Stance.duty, WorkerPhase.running?]
  · rw [steady.tallied.busy, Roster.busy, View.roster, View.duties, view, List.map_map,
      List.countP_map]
    refine List.countP_congr fun worker hmem => ?_
    rcases rests.stance steady hmem with ⟨phase, hs⟩ | ⟨job, phase, hs⟩ | ⟨phase, hs⟩ <;>
      simp [phase, hs, Stance.duty, WorkerPhase.isBusy]
  · rw [steady.tallied.total, Roster.total, View.roster, View.duties, view, List.map_map,
      List.countP_map]
    refine List.countP_congr fun worker hmem => ?_
    rcases rests.stance steady hmem with ⟨phase, hs⟩ | ⟨job, phase, hs⟩ | ⟨phase, hs⟩ <;>
      simp [phase, hs, Stance.duty, WorkerPhase.isLiving]

end Moves

end Pool

end SiteServer
