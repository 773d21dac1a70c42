import SiteServer.Proofs.Pool.History

/-!
# Winding down

A pool that has been told to stop does not go on again.  Its threads look at the flag before they
wait, so that only those still wait that have looked before, each for the last time.  `Winding` says
what a move of such a pool is to a thread: when it is the thread's own move, it leaves the thread
less to do, and not waiting; when it is not, the thread stays where it is and keeps its signal.
What a whole run is to a thread follows from that, move by move (`Wound`).
-/

namespace SiteServer

variable {J : Type}

/-- A thread of a pool that has a signal. -/
inductive PoolThread where
  | controller
  | worker (index : Nat)
  deriving DecidableEq, Repr

/-- The move that a thread makes by itself. -/
def PoolThread.move : PoolThread → PoolMove J
  | .controller => .controller
  | .worker index => .worker index

/-- The thread whose move it is; the end of a job is one of the worker that runs it. -/
def PoolMove.thread? : PoolMove J → Option PoolThread
  | .controller => some .controller
  | .worker index | .finish index _ => some (.worker index)
  | .push _ | .raise | .shutdown => none

namespace WorkerPhase

def isWaiting : WorkerPhase J → Bool
  | .waiting => true
  | _ => false

/-- The worker may start a job before it looks at the flag again. -/
def mayStart : WorkerPhase J → Bool
  | .waiting | .fetching | .entering _ => true
  | _ => false

/-- How many moves a worker has left when the pool does not go on, with the end of its job. -/
def remaining : WorkerPhase J → Nat
  | .waiting => 9
  | .fetching => 8
  | .entering _ => 7
  | .running _ => 6
  | .leaving => 5
  | .clearing => 4
  | .reporting | .starting => 3
  | .checking | .unwinding => 2
  | .stopping | .dying => 1
  | .stopped | .dead => 0

end WorkerPhase

namespace ControllerPhase

def isWaiting : ControllerPhase J → Bool
  | .waiting => true
  | _ => false

/-- How many moves the controller of a pool of that size has left when the pool does not go on. -/
def remaining (size : Nat) : ControllerPhase J → Nat
  | .scanning _ index => size - index + 5
  | .waiting | .raising _ => 4
  | .popping => 3
  | .holding _ | .returning _ => 2
  | .checking => 1
  | .stopped => 0

end ControllerPhase

namespace Pool

/-- The thread waits for its signal. -/
def waits (pool : Pool J) : PoolThread → Bool
  | .controller => pool.controller.isWaiting
  | .worker index => pool.workers[index]?.any (·.phase.isWaiting)

/-- The signal of the thread is raised. -/
def signalled (pool : Pool J) : PoolThread → Bool
  | .controller => pool.raised
  | .worker index => pool.workers[index]?.any Worker.raised

/-- How many moves a thread has left when the pool does not go on. -/
def remaining (pool : Pool J) : PoolThread → Nat
  | .controller => pool.controller.remaining pool.workers.length
  | .worker index => pool.workers[index]?.elim 0 (·.phase.remaining)

/-- The jobs that a worker has started, the last one first. -/
def startedBy (pool : Pool J) (index : Nat) : List J :=
  pool.log.filterMap (PoolEvent.startedBy? index)

/-- How many jobs a thread has started and may start before it looks at the flag again. -/
def starts (pool : Pool J) : PoolThread → Nat
  | .controller => 0
  | .worker index =>
    (pool.startedBy index).length + (pool.workers[index]?.any (·.phase.mayStart)).toNat

/-- The threads whose waits are over with a list of moves, in their order. -/
def waitsEnded (pool : Pool J) : List (PoolMove J) → List PoolThread
  | [] => []
  | m :: rest =>
    (pool.move? m).elim [] fun next =>
      (m.thread?.filter pool.waits).toList ++ next.waitsEnded rest

/-- What a move of a pool that does not go on is to a thread. -/
inductive Winding (pool : Pool J) (m : PoolMove J) (next : Pool J) (thread : PoolThread) :
    Prop where
  | own (moves : m.thread? = some thread)
      (remaining : next.remaining thread < pool.remaining thread)
      (waits : next.waits thread = false) (starts : next.starts thread ≤ pool.starts thread)
  /-- It is the move of another thread, or of none. -/
  | other (moves : m.thread? ≠ some thread)
      (remaining : next.remaining thread = pool.remaining thread)
      (waits : next.waits thread = pool.waits thread)
      (signalled : pool.signalled thread = true → next.signalled thread = true)
      (starts : next.starts thread = pool.starts thread)

section Moves

variable {pool next : Pool J} {index i : Nat} {worker new : Worker J} {m : PoolMove J}

/-- A pool that has been told to stop does not go on again. -/
lemma Moved.inactive (moved : Moved pool m next) (inactive : pool.active = false) :
    next.active = false := by
  by_contra active
  simp [moved.active_of_active (Bool.of_not_eq_false active)] at inactive

namespace Winding

/-- The controller stays where it is. -/
lemma of_controller_eq (moves : m.thread? ≠ some .controller)
    (controller : next.controller = pool.controller)
    (length : next.workers.length = pool.workers.length)
    (raised : pool.raised = true → next.raised = true) : Winding pool m next .controller :=
  .other moves (by simp [Pool.remaining, controller, length]) (by simp [Pool.waits, controller])
    raised rfl

/-- A worker moves on. -/
lemma of_worker_moves (moves : m.thread? = some (.worker index))
    (found : pool.workers[index]? = some worker)
    (workers : next.workers = pool.workers.set index new)
    (remaining : new.phase.remaining < worker.phase.remaining)
    (waits : new.phase.isWaiting = false)
    (starts : (next.startedBy index).length + new.phase.mayStart.toNat
      ≤ (pool.startedBy index).length + worker.phase.mayStart.toNat) :
    Winding pool m next (.worker index) := by
  have after : next.workers[index]? = some new := by
    rw [workers, List.getElem?_set_self (List.getElem?_eq_some_iff.1 found).1]
  refine .own moves ?_ ?_ ?_
  · simpa [Pool.remaining, found, after] using remaining
  · simpa [Pool.waits, after] using waits
  · simpa [Pool.starts, found, after] using starts

/-- A worker stays where it is. -/
lemma of_phase_eq (moves : m.thread? ≠ some (.worker i)) (found : pool.workers[i]? = some worker)
    (after : next.workers[i]? = some new) (phase : new.phase = worker.phase)
    (raised : worker.raised = true → new.raised = true)
    (log : next.startedBy i = pool.startedBy i) : Winding pool m next (.worker i) :=
  .other moves (by simp [Pool.remaining, found, after, phase])
    (by simp [Pool.waits, found, after, phase])
    (by simpa [Pool.signalled, found, after] using raised)
    (by simp [Pool.starts, found, after, phase, log])

/-- A worker does not change at all. -/
lemma of_worker_eq (moves : m.thread? ≠ some (.worker i))
    (workers : next.workers[i]? = pool.workers[i]?) (log : next.startedBy i = pool.startedBy i) :
    Winding pool m next (.worker i) :=
  .other moves (by simp [Pool.remaining, workers]) (by simp [Pool.waits, workers])
    (by simp [Pool.signalled, workers]) (by simp [Pool.starts, workers, log])

/-- Another thread does something to a worker's slot or signal. -/
lemma of_put (moves : ∀ i, m.thread? ≠ some (.worker i))
    (found : pool.workers[index]? = some worker)
    (workers : next.workers = pool.workers.set index new) (phase : new.phase = worker.phase)
    (raised : worker.raised = true → new.raised = true)
    (log : next.startedBy i = pool.startedBy i) : Winding pool m next (.worker i) := by
  by_cases hi : index = i
  · subst hi
    have hlt : index < pool.workers.length := (List.getElem?_eq_some_iff.1 found).1
    exact of_phase_eq (moves index) found (by simp [workers, hlt]) phase raised log
  · exact of_worker_eq (moves i) (by rw [workers, List.getElem?_set_ne hi]) log

end Winding

/-- A worker that moves has less left to do, and does not wait afterwards. -/
lemma WorkerMoved.winding (moved : WorkerMoved pool index worker next)
    (found : pool.workers[index]? = some worker) (inactive : pool.active = false) :
    Winding pool (.worker index) next (.worker index) := by
  have step : ∀ (before : Pool J) (new : Worker J), before.workers = pool.workers →
      before.log = pool.log → new.phase.remaining < worker.phase.remaining →
      new.phase.isWaiting = false →
      (new.phase.mayStart = true → worker.phase.mayStart = true) →
      Winding pool (.worker index) (before.put index new) (.worker index) := by
    intro before new workers log remaining waits starts
    refine .of_worker_moves rfl found (by rw [put_workers, workers]) remaining waits ?_
    rw [startedBy, put_log, log]
    refine Nat.add_le_add_left ?_ _
    cases hnew : new.phase.mayStart with
    | false => exact Nat.zero_le _
    | true => exact Nat.le_of_eq (by rw [starts hnew])
  cases moved with
  | start phase =>
    exact step _ _ rfl rfl (by simp [phase, WorkerPhase.remaining]) rfl
      (by simp [WorkerPhase.mayStart])
  | goOn phase active => simp [inactive] at active
  | giveUp phase =>
    exact step _ _ rfl rfl (by simp [phase, WorkerPhase.remaining]) rfl
      (by simp [WorkerPhase.mayStart])
  | wake phase =>
    exact step _ _ rfl rfl (by simp [phase, WorkerPhase.remaining]) rfl
      (by simp [phase, WorkerPhase.mayStart])
  | fetch phase =>
    exact step _ _ rfl rfl (by simp [phase, WorkerPhase.remaining]) rfl
      (by simp [phase, WorkerPhase.mayStart])
  | miss phase =>
    exact step _ _ rfl rfl (by simp [phase, WorkerPhase.remaining]) rfl
      (by simp [WorkerPhase.mayStart])
  | @enter job phase =>
    -- the job that it starts is the one that it might start
    refine .of_worker_moves rfl found rfl (by simp [phase, WorkerPhase.remaining]) rfl ?_
    simp [startedBy, phase, WorkerPhase.mayStart, PoolEvent.startedBy?]
  | leave phase =>
    exact step _ _ rfl rfl (by simp [phase, WorkerPhase.remaining]) rfl
      (by simp [WorkerPhase.mayStart])
  | clear phase =>
    exact step _ _ rfl rfl (by simp [phase, WorkerPhase.remaining]) rfl
      (by simp [WorkerPhase.mayStart])
  | report phase =>
    exact step _ _ rfl rfl (by simp [phase, WorkerPhase.remaining]) rfl
      (by simp [WorkerPhase.mayStart])
  | stop phase =>
    exact step _ _ rfl rfl (by simp [phase, WorkerPhase.remaining]) rfl
      (by simp [WorkerPhase.mayStart])
  | unwind phase =>
    exact step _ _ rfl rfl (by simp [phase, WorkerPhase.remaining]) rfl
      (by simp [WorkerPhase.mayStart])
  | die phase =>
    exact step _ _ rfl rfl (by simp [phase, WorkerPhase.remaining]) rfl
      (by simp [WorkerPhase.mayStart])

/-- A worker leaves the other threads alone. -/
lemma WorkerMoved.winding_other (moved : WorkerMoved pool index worker next) {thread : PoolThread}
    (hthread : thread ≠ .worker index) : Winding pool (.worker index) next thread := by
  have moves : (PoolMove.worker index : PoolMove J).thread? ≠ some thread := by
    simpa [PoolMove.thread?] using hthread.symm
  cases thread with
  | controller => cases moved <;> exact .of_controller_eq moves rfl (by simp) (by simp)
  | worker i =>
    have hi : index ≠ i := by
      rintro rfl
      exact hthread rfl
    cases moved <;>
      exact .of_worker_eq moves (by simp [hi]) (by simp [startedBy, PoolEvent.startedBy?, hi])

lemma ControllerMoved.winding (moved : ControllerMoved pool next) (inactive : pool.active = false) :
    Winding pool .controller next .controller := by
  have step : next.controller.remaining next.workers.length
      < pool.controller.remaining pool.workers.length → next.controller.isWaiting = false →
      Winding pool .controller next .controller :=
    fun remaining waits => .own rfl remaining waits (Nat.le_refl _)
  cases moved with
  | goOn phase active => simp [inactive] at active
  | hold phase active => simp [inactive] at active
  | skip phase found =>
    -- there is one slot less to be looked at
    have hlt := (List.getElem?_eq_some_iff.1 found).1
    refine step ?_ rfl
    simp only [phase, ControllerPhase.remaining]
    omega
  | stop phase => exact step (by simp [phase, ControllerPhase.remaining]) rfl
  | wake phase =>
    exact step (by simp [phase, ControllerPhase.remaining]) rfl
  | pop phase => exact step (by simp [phase, ControllerPhase.remaining]) rfl
  | rest phase => exact step (by simp [phase, ControllerPhase.remaining]) rfl
  | drop phase => exact step (by simp [phase, ControllerPhase.remaining]) rfl
  | assign phase => exact step (by simp [phase, ControllerPhase.remaining]) rfl
  | scanned phase => exact step (by simp [phase, ControllerPhase.remaining]) rfl
  | raise phase => exact step (by simp [phase, ControllerPhase.remaining]) rfl
  | raiseNone phase => exact step (by simp [phase, ControllerPhase.remaining]) rfl
  | putBack phase => exact step (by simp [phase, ControllerPhase.remaining]) rfl

lemma ControllerMoved.winding_worker (moved : ControllerMoved pool next) (i : Nat) :
    Winding pool .controller next (.worker i) := by
  cases moved with
  | assign phase found => exact .of_put nofun found rfl rfl id rfl
  | raise phase found => exact .of_put nofun found rfl rfl (fun _ => rfl) rfl
  | drop => exact .of_worker_eq nofun rfl rfl
  | _ => exact .of_worker_eq nofun rfl rfl

lemma ShutdownMoved.winding (moved : ShutdownMoved pool next) (thread : PoolThread) :
    Winding pool .shutdown next thread := by
  cases thread with
  | controller => cases moved <;> exact .of_controller_eq nofun rfl (by simp) (by simp)
  | worker i =>
    cases moved with
    | raiseWorker phase found => exact .of_put nofun found rfl rfl (fun _ => rfl) rfl
    | drain phase =>
      exact .of_worker_eq nofun rfl
        (by simp [startedBy, List.filterMap_map, Function.comp_def, PoolEvent.startedBy?])
    | _ => exact .of_worker_eq nofun rfl rfl

/-- What every move of a pool that does not go on is to every thread. -/
theorem Moved.winding (moved : Moved pool m next) (inactive : pool.active = false)
    (thread : PoolThread) : Winding pool m next thread := by
  cases moved with
  | push job =>
    cases thread with
    | controller => exact .of_controller_eq nofun rfl rfl id
    | worker i => exact .of_worker_eq nofun rfl rfl
  | raise due =>
    cases thread with
    | controller => exact .of_controller_eq nofun rfl rfl fun _ => rfl
    | worker i => exact .of_worker_eq nofun rfl rfl
  | controller moved =>
    cases thread with
    | controller => exact moved.winding inactive
    | worker i => exact moved.winding_worker i
  | @worker index worker next found moved =>
    by_cases hthread : thread = .worker index
    · subst hthread
      exact moved.winding found inactive
    · exact moved.winding_other hthread
  | @finish index worker job ending found phase =>
    by_cases hthread : thread = .worker index
    · subst hthread
      have hlog : ∀ log : List (PoolEvent J), (PoolEvent.ended job index ending :: log).filterMap
          (PoolEvent.startedBy? index) = log.filterMap (PoolEvent.startedBy? index) := fun _ => rfl
      refine .of_worker_moves rfl found rfl ?_ ?_ ?_
      · cases ending <;> (rw [phase]; simp [phaseAfter, WorkerPhase.remaining])
      · cases ending <;> rfl
      · cases ending <;> simp [startedBy, hlog, phaseAfter, WorkerPhase.mayStart]
    · have moves : (PoolMove.finish index ending : PoolMove J).thread? ≠ some thread := by
        simpa [PoolMove.thread?] using Ne.symm hthread
      cases thread with
      | controller => exact .of_controller_eq moves rfl (by simp) id
      | worker i =>
        have hi : index ≠ i := by
          rintro rfl
          exact hthread rfl
        exact .of_worker_eq moves (by simp [hi]) rfl
  | shutdown moved => exact moved.winding thread

end Moves

/-! ### Runs -/

/-- What a run of a pool that does not go on is to a thread: it waits at most once more, it has a
bounded number of moves, a worker starts at most what it was about to start, and who still waits has
kept his signal. -/
structure Wound (pool : Pool J) (moves : List (PoolMove J)) (last : Pool J) (thread : PoolThread) :
    Prop where
  waits : (pool.waitsEnded moves).count thread + (last.waits thread).toNat
    ≤ (pool.waits thread).toNat
  remaining : moves.countP (·.thread? = some thread) + last.remaining thread
    ≤ pool.remaining thread
  starts : last.starts thread ≤ pool.starts thread
  signalled : last.waits thread = true → pool.signalled thread = true →
    last.signalled thread = true

lemma after?_cons {pool last : Pool J} {m : PoolMove J} {rest : List (PoolMove J)} :
    pool.after? (m :: rest) = some last ↔
      ∃ next, pool.move? m = some next ∧ next.after? rest = some last := by
  simp [after?, List.foldlM_cons, Option.bind_eq_some_iff]

lemma after?_append {pool last : Pool J} {moves more : List (PoolMove J)} :
    pool.after? (moves ++ more) = some last ↔
      ∃ middle, pool.after? moves = some middle ∧ middle.after? more = some last := by
  simp [after?, List.foldlM_append, Option.bind_eq_some_iff]

lemma waitsEnded_cons {pool next : Pool J} {m : PoolMove J} (hm : pool.move? m = some next)
    (rest : List (PoolMove J)) :
    pool.waitsEnded (m :: rest) = (m.thread?.filter pool.waits).toList ++ next.waitsEnded rest := by
  rw [waitsEnded, hm, Option.elim_some]

section Wound

variable {pool next last : Pool J} {m : PoolMove J} {rest : List (PoolMove J)}
  {thread : PoolThread}

lemma Wound.waits_of_waits (h : Wound pool rest last thread) (waits : last.waits thread = true) :
    pool.waits thread = true := by
  have hle := h.waits
  rw [waits, Bool.toNat_true] at hle
  exact Bool.toNat_eq_one.1 (Nat.le_antisymm (Bool.toNat_le _) (by omega))

/-- A move before a run. -/
lemma Winding.wound (winding : Winding pool m next thread) (hm : pool.move? m = some next)
    (h : Wound next rest last thread) : Wound pool (m :: rest) last thread := by
  have hwaits := h.waits
  have hremaining := h.remaining
  cases winding with
  | own moves remaining waits starts =>
    refine ⟨?_, ?_, Nat.le_trans h.starts starts, fun hlast => ?_⟩
    · -- the thread does not wait after this one
      have hfirst : ((m.thread?.filter pool.waits).toList).count thread
          = (pool.waits thread).toNat := by
        rw [moves]
        cases hwait : pool.waits thread <;> simp [Option.filter, hwait]
      rw [waits, Bool.toNat_false] at hwaits
      rw [waitsEnded_cons hm, List.count_append, hfirst]
      omega
    · rw [List.countP_cons, if_pos (by simp [moves])]
      omega
    · simp [h.waits_of_waits hlast] at waits
  | other moves remaining waits signalled starts =>
    refine ⟨?_, ?_, starts ▸ h.starts, fun hlast hpool => h.signalled hlast (signalled hpool)⟩
    · have hfirst : ((m.thread?.filter pool.waits).toList).count thread = 0 := by
        rw [List.count_eq_zero, Option.mem_toList]
        exact fun hmem => moves (Option.filter_eq_some_iff.1 hmem).1
      rw [waitsEnded_cons hm, List.count_append, hfirst, ← waits]
      omega
    · rw [List.countP_cons, if_neg (by simpa using moves)]
      omega

/-- What a run of a pool that does not go on is to each thread. -/
theorem wound_of_after? {moves : List (PoolMove J)} (inactive : pool.active = false)
    (h : pool.after? moves = some last) (thread : PoolThread) : Wound pool moves last thread := by
  induction moves generalizing pool with
  | nil =>
    obtain rfl : pool = last := Option.some.inj h
    exact ⟨by simp [waitsEnded], by simp, Nat.le_refl _, fun _ => id⟩
  | cons m rest ih =>
    obtain ⟨next, hm, hrest⟩ := after?_cons.1 h
    have moved := moved_of_move? hm
    exact (moved.winding inactive thread).wound hm (ih (moved.inactive inactive) hrest)

end Wound

end Pool

end SiteServer
