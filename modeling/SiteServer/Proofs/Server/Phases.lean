import SiteServer.Proofs.Pool.History
import SiteServer.Proofs.Pool.Shutdown
import SiteServer.Proofs.Server.Custody
import SiteServer.Proofs.Server.Moves
import SiteServer.Proofs.Slot.Contents
import SiteServer.Proofs.Slot.Reuse

/-!
# Where a server stands

The loop goes about its events as long as its pool runs, shuts the pool down, and closes what is
left when all threads of the pool have ended (`InStep`).  The slot table changes by requests only,
whatever the loop does (`exists_requests`), and the published number of connections is the size of
the table except while the loop goes through its reports.  `Staged` has what is known of a server in
this way at any moment of a run (`Run.staged`).
-/

namespace SiteServer

/-- The loop goes about its events. -/
def LoopPhase.isRunning : LoopPhase → Bool
  | .checking | .polling | .handling _ | .draining | .publishing => true
  | .stopping | .closing | .stopped => false

namespace Server

variable {H : Type} {around : Surroundings H} {server next : Server} {registers : Bool}

/-! ### The loop and its pool -/

/-- How far the pool is when the loop stands there. -/
structure InStep (phase : LoopPhase) (pool : Pool Work) : Prop where
  disciplined : pool.Disciplined
  closing : pool.Closing
  active_of_running : phase.isRunning = true → pool.active = true
  ended : phase = .closing ∨ phase = .stopped → pool.Ended ∧ pool.stack.items = []
  /-- Nothing is thrown away while the pool runs. -/
  discarded_eq : pool.active = true → pool.discarded = []

namespace InStep

variable {phase phase' : LoopPhase} {pool pool' : Pool Work} {m : PoolMove Work}

/-- A move of the pool, unless the loop makes it. -/
lemma moved (h : InStep phase pool) (moved : pool.Moved m pool') (submitted : m.submitted? = none)
    (hm : m ≠ .shutdown) : InStep phase pool' where
  disciplined := moved.disciplined h.disciplined
  closing := moved.closing h.closing h.disciplined
  active_of_running := by
    intro hphase
    rw [moved.active_eq.resolve_right hm]
    exact h.active_of_running hphase
  ended := by
    intro hphase
    obtain ⟨hended, hstack⟩ := h.ended hphase
    obtain ⟨hended', dropped, -, hitems, -⟩ := hended.step moved
    rw [submitted, hstack] at hitems
    exact ⟨hended', (List.append_eq_nil_iff.1 hitems.symm).1⟩
  discarded_eq := by
    intro active
    have hactive := moved.active_of_active active
    rw [moved.discarded_eq h.disciplined hactive, h.discarded_eq hactive]

/-- The loop submits a job. -/
lemma push (h : InStep phase pool) (hphase : phase.isRunning = true)
    (moved : pool.Moved m pool') (hm : m ≠ .shutdown) : InStep phase pool' where
  disciplined := moved.disciplined h.disciplined
  closing := moved.closing h.closing h.disciplined
  active_of_running := by
    intro _
    rw [moved.active_eq.resolve_right hm]
    exact h.active_of_running hphase
  ended := by
    rintro (rfl | rfl) <;> simp [LoopPhase.isRunning] at hphase
  discarded_eq := by
    intro active
    have hactive := moved.active_of_active active
    rw [moved.discarded_eq h.disciplined hactive, h.discarded_eq hactive]

/-- The loop goes on, and may begin to shut the pool down. -/
lemma goOn (h : InStep phase pool) (hphase : phase.isRunning = true)
    (hphase' : phase'.isRunning = true ∨ phase' = .stopping) : InStep phase' pool where
  disciplined := h.disciplined
  closing := h.closing
  active_of_running := fun _ => h.active_of_running hphase
  ended := by
    rintro (rfl | rfl) <;> simp [LoopPhase.isRunning] at hphase'
  discarded_eq := h.discarded_eq

/-- The loop shuts the pool down, which has ended when this is done. -/
lemma shutdown (h : InStep phase pool) (moved : pool.Moved .shutdown pool') :
    InStep (if pool'.shutdown = .idle then .closing else .stopping) pool' where
  disciplined := moved.disciplined h.disciplined
  closing := moved.closing h.closing h.disciplined
  active_of_running := by split <;> simp [LoopPhase.isRunning]
  ended := by
    intro hphase
    have hidle : pool'.shutdown = .idle := by
      by_contra hne
      simp [hne] at hphase
    cases moved with
    | shutdown moved' =>
      cases moved' with
      | drain phase =>
        exact ⟨((h.closing.ended phase).step (.shutdown (.drain phase))).1, rfl⟩
      | _ => simp at hidle
  discarded_eq := fun active => (moved.live_perm h.disciplined active).elim

/-- The loop has closed what was left. -/
lemma stop (h : InStep .closing pool) : InStep .stopped pool where
  disciplined := h.disciplined
  closing := h.closing
  active_of_running := by simp [LoopPhase.isRunning]
  ended := fun _ => h.ended (.inl rfl)
  discarded_eq := h.discarded_eq

end InStep

lemma inStep_start (listeners workers connectionLimit : Nat) :
    InStep (start listeners workers connectionLimit).phase
      (start listeners workers connectionLimit).pool where
  disciplined := Pool.disciplined_start workers
  closing := Pool.closing_start workers
  active_of_running := by simp [start, Pool.start]
  ended := by simp [start]
  discarded_eq := by simp [start, Pool.start, Pool.discarded]

lemma phase_handle (server : Server) (token : Nat) :
    (server.handle token).phase = server.phase := by
  unfold Server.handle dispatch
  split
  · rfl
  · split
    · rfl
    · split
      · split <;> rfl
      · rfl

/-- An event makes the loop submit one job at most. -/
lemma pool_handle (server : Server) (token : Nat) :
    (server.handle token).pool = server.pool ∨
      ∃ work, server.pool.Moved (.push work) (server.handle token).pool := by
  unfold Server.handle dispatch
  split
  · exact .inl rfl
  · split
    · exact .inr ⟨_, moved_submit server _⟩
    · split
      · split
        · exact .inl rfl
        · exact .inr ⟨_, moved_submit { server with slots := _, watched := _ } _⟩
      · exact .inl rfl

/-- A report makes the loop submit one job at most. -/
lemma pool_process (server : Server) (registers : Bool) (completion : Completion) :
    (server.process registers completion).phase = server.phase ∧
      ((server.process registers completion).pool = server.pool ∨
        ∃ work, server.pool.Moved (.push work) (server.process registers completion).pool) := by
  cases completion with
  | accepted peer =>
    obtain ⟨hpool, hphase⟩ := pool_welcome server registers peer
    exact ⟨hphase, .inl hpool⟩
  | acceptAgain listener => exact ⟨rfl, .inr ⟨_, moved_submit server _⟩⟩
  | stepped c interest =>
    obtain ⟨hpool, -, hphase⟩ := pool_watch server registers c.id c interest
    exact ⟨hphase, .inl hpool⟩
  | closed id => exact ⟨rfl, .inl rfl⟩

lemma InStep.loop (h : InStep server.phase server.pool) (moved : LoopMoved server registers next) :
    InStep next.phase next.pool := by
  have hpush {after : Server} (hphase : server.phase.isRunning = true)
      (hafter : after.phase.isRunning = true)
      (hpool : after.pool = server.pool ∨ ∃ work, server.pool.Moved (.push work) after.pool) :
      InStep after.phase after.pool := by
    have hgo := h.goOn hphase (.inl hafter)
    rcases hpool with heq | ⟨work, hmoved⟩
    · rw [heq]
      exact hgo
    · exact hgo.push hafter hmoved (by simp)
  cases moved with
  | check phase =>
    rw [phase] at h
    refine h.goOn rfl ?_
    simp only
    split
    · exact .inr rfl
    · exact .inl rfl
  | @handle token rest phase =>
    have hpool := pool_handle { server with phase := .handling rest } token
    refine hpush (by rw [phase]; rfl) ?_ hpool
    rw [phase_handle]
    rfl
  | @process completion rest phase _ =>
    obtain ⟨hprocess, hpool⟩ :=
      pool_process { server with completions := rest } registers completion
    refine hpush (by rw [phase]; rfl) ?_ hpool
    rw [hprocess]
    simp only [phase]
    rfl
  | handled phase | processed phase _ | publish phase =>
    rw [phase] at h
    exact h.goOn rfl (.inl rfl)
  | shutdown _ hmoved => exact h.shutdown hmoved
  | @discard completion rest phase _ => cases completion with
    | _ => simpa only [discard, bury, phase] using h
  | closeAll phase _ =>
    rw [phase] at h
    exact h.stop

/-- The moves that the threads of a pool make by themselves submit nothing. -/
lemma submitted?_of_isInternal {move : PoolMove Work} (h : isInternal move = true) :
    move.submitted? = none := by
  cases move with
  | push job => simp [isInternal] at h
  | _ => rfl

lemma InStep.move (h : InStep server.phase server.pool) {move : ServerMove}
    (moved : Moved around server move next) : InStep next.phase next.pool := by
  cases moved with
  | pool internal hmoved =>
    refine h.moved hmoved (submitted?_of_isInternal internal) ?_
    rintro rfl
    simp [isInternal] at internal
  | acceptEnd _ _ finish | acceptRetry _ finish | wait _ _ finish | close _ _ _ finish =>
    exact h.moved (Pool.moved_of_move? finish) rfl (by simp)
  | poll tokens phase =>
    rw [phase] at h
    exact h.goOn rfl (.inl rfl)
  | loop hmoved => exact h.loop hmoved
  | arrive | accept | requestStop => exact h

/-! ### The slot table -/

/-- The loop asks the table to take a connection back, or to free its slot. -/
lemma slots_watch (server : Server) (registers : Bool) (id : SlotId) (c : Connection)
    (interest : Interest) :
    ∃ requests, (server.watch registers id c interest).slots = server.slots.after requests := by
  unfold watch
  split
  · split
    · next slots hpark => exact ⟨[.park id c], by simp [SlotTable.after, SlotTable.serve, hpark]⟩
    · exact ⟨[], rfl⟩
  · exact ⟨[.release id], rfl⟩

lemma slots_welcome (server : Server) (registers : Bool) (peer : Nat) :
    ∃ requests, (server.welcome registers peer).slots = server.slots.after requests := by
  unfold welcome
  split
  · exact ⟨[], rfl⟩
  · next id slots hinsert =>
    have hfirst : server.slots.after [.insert fun id => { id, peer }] = slots := by
      simp [SlotTable.after, SlotTable.serve, hinsert]
    split
    · exact ⟨_, hfirst.symm⟩
    · next c lent htake =>
      have hsecond : slots.after [.take id] = lent := by
        simp [SlotTable.after, SlotTable.serve, htake]
      obtain ⟨requests, hrequests⟩ :=
        slots_watch { server with slots := lent } registers id c .readable
      refine ⟨[.insert fun id => { id, peer }] ++ ([.take id] ++ requests), ?_⟩
      rw [SlotTable.after_append, hfirst, SlotTable.after_append, hsecond, hrequests]

lemma slots_handle (server : Server) (token : Nat) :
    (server.handle token).slots = server.slots ∨
      ∃ id c, server.slots.take id = some (c, (server.handle token).slots) := by
  unfold Server.handle dispatch
  split
  · exact .inl rfl
  · split
    · exact .inl rfl
    · split
      · split
        · exact .inl rfl
        · next c slots htake => exact .inr ⟨_, c, htake⟩
      · exact .inl rfl

/-- An event neither allocates a slot nor frees one. -/
lemma size_handle (server : Server) (token : Nat) :
    (server.handle token).slots.size = server.slots.size ∧
      (server.handle token).connectionCount = server.connectionCount := by
  constructor
  · rcases slots_handle server token with heq | ⟨id, c, htake⟩
    · rw [heq]
    · rw [(SlotTable.take_eq_some_iff.1 htake).2, SlotTable.size_setState]
  · unfold Server.handle dispatch
    repeat' split
    all_goals rfl

/-- Whatever the loop does, the slot table changes by requests. -/
lemma exists_requests (moved : LoopMoved server registers next) :
    ∃ requests, next.slots = server.slots.after requests := by
  cases moved with
  | @handle token rest _ =>
    rcases slots_handle { server with phase := .handling rest } token with heq | ⟨id, c, htake⟩
    · exact ⟨[], heq⟩
    · exact ⟨[.take id], by simp [SlotTable.after, SlotTable.serve, htake]⟩
  | @process completion rest _ _ => cases completion with
    | accepted peer => exact slots_welcome { server with completions := rest } registers peer
    | acceptAgain listener => exact ⟨[], rfl⟩
    | stepped c interest => exact slots_watch { server with completions := rest } _ _ _ _
    | closed id => exact ⟨[.release id], rfl⟩
  | @discard completion rest _ _ => cases completion with
    | _ => exact ⟨[], rfl⟩
  | closeAll => exact ⟨[.drain], rfl⟩
  | check | handled | processed | publish | shutdown => exact ⟨[], rfl⟩

/-! ### All that is known -/

/-- A move that is not the loop's leaves its books alone, and takes the loop at most from its poll
to the events. -/
structure Aside (server next : Server) : Prop where
  slots_eq : next.slots = server.slots
  connectionCount_eq : next.connectionCount = server.connectionCount
  refused_eq : next.refused = server.refused
  phase_eq : next.phase = server.phase ∨
    server.phase = .polling ∧ ∃ tokens, next.phase = .handling tokens

lemma loop_or_aside {move : ServerMove} (moved : Moved around server move next) :
    (∃ registers, LoopMoved server registers next) ∨ Aside server next := by
  cases moved with
  | loop hmoved => exact .inl ⟨_, hmoved⟩
  | poll tokens phase => exact .inr ⟨rfl, rfl, rfl, .inr ⟨phase, tokens, rfl⟩⟩
  | _ => exact .inr ⟨rfl, rfl, rfl, .inl rfl⟩

/-- The published number of connections is right, unless the loop is about to publish it. -/
def Counted (server : Server) : Prop :=
  server.phase ≠ .draining → server.phase ≠ .publishing →
    server.connectionCount = server.slots.size

lemma Counted.aside (h : Counted server) (haside : Aside server next) : Counted next := by
  intro hdraining hpublishing
  rw [haside.connectionCount_eq, haside.slots_eq]
  rcases haside.phase_eq with heq | ⟨hpolling, -⟩
  · exact h (heq ▸ hdraining) (heq ▸ hpublishing)
  · exact h (by simp [hpolling]) (by simp [hpolling])

lemma Counted.loop (h : Counted server) (hw : server.slots.WellFormed)
    (moved : LoopMoved server registers next) : Counted next := by
  cases moved with
  | check phase | shutdown phase _ => exact fun _ _ => h (by simp [phase]) (by simp [phase])
  | @handle token rest phase =>
    intro _ _
    obtain ⟨hsize, hcount⟩ := size_handle { server with phase := .handling rest } token
    rw [hsize, hcount]
    exact h (by simp [phase]) (by simp [phase])
  | handled => exact fun hdraining _ => absurd rfl hdraining
  | @process completion rest phase _ =>
    intro hdraining
    rw [(pool_process _ registers completion).1] at hdraining
    exact absurd phase hdraining
  | processed => exact fun _ hpublishing => absurd rfl hpublishing
  | publish => exact fun _ _ => rfl
  | @discard completion rest phase _ =>
    have hbefore := h (by simp [phase]) (by simp [phase])
    cases completion with
    | _ => exact fun _ _ => hbefore
  | closeAll => exact fun _ _ => (SlotTable.size_drain hw).symm

/-- What is known of a server that has been started with a limit, wherever it stands. -/
structure Staged (limit : Nat) (server : Server) : Prop where
  kept : Kept server
  inStep : InStep server.phase server.pool
  wellFormed : server.slots.WellFormed
  within : server.slots.Within limit
  generationAt_lt : ∀ index, server.slots.generationAt index < SlotId.generationCount
  counted : Counted server
  emptied : server.phase = .stopped → server.completions = [] ∧ server.slots.identities = []

lemma Staged.active {limit : Nat} (h : Staged limit server)
    (hphase : server.phase.isRunning = true) : server.pool.active = true :=
  h.inStep.active_of_running hphase

/-- Workers of a pool that has ended run nothing. -/
lemma running?_of_ended {pool : Pool Work} (h : pool.Ended) (worker : Nat) :
    pool.running? worker = none := by
  by_contra hne
  obtain ⟨job, hjob⟩ := Option.ne_none_iff_exists'.1 hne
  unfold Pool.running? at hjob
  split at hjob
  · next found =>
    have hended := h.workers _ (List.mem_of_getElem? found)
    simp [Pool.hasEnded] at hended
  · simp at hjob

/-- The loop ends when the channel is empty, and with an empty slot table. -/
lemma emptied_loop (moved : LoopMoved server registers next) (hphase : next.phase = .stopped) :
    next.completions = [] ∧ next.slots.identities = [] := by
  cases moved with
  | closeAll _ completions => exact ⟨completions, SlotTable.identities_drain server.slots⟩
  | @handle token rest _ =>
    rw [phase_handle] at hphase
    simp at hphase
  | @process completion rest phase _ =>
    rw [(pool_process _ registers completion).1] at hphase
    simp [phase] at hphase
  | @discard completion rest phase _ => cases completion with
    | _ => simp [discard, bury, phase] at hphase
  | check | shutdown =>
    simp only at hphase
    split at hphase <;> simp at hphase
  | handled | processed | publish => simp at hphase

/-- When the loop has closed everything, nothing comes in any more. -/
lemma Staged.emptied_move {limit : Nat} (h : Staged limit server) {move : ServerMove}
    (moved : Moved around server move next) (hphase : next.phase = .stopped) :
    next.completions = [] ∧ next.slots.identities = [] := by
  have hrunning (hstopped : server.phase = .stopped) (worker : Nat) :
      server.pool.running? worker = none :=
    running?_of_ended (h.inStep.ended (.inr hstopped)).1 worker
  cases moved with
  | arrive | pool | requestStop => exact h.emptied hphase
  | accept accepting | acceptEnd accepting | acceptRetry accepting =>
    simp [accepting?, hrunning hphase] at accepting
  | wait stepping | close stepping => simp [stepping?, hrunning hphase] at stepping
  | poll => simp at hphase
  | loop hmoved => exact emptied_loop hmoved hphase

lemma Staged.move {limit : Nat} (h : Staged limit server) {move : ServerMove}
    (hmove : server.move? around move = some next) : Staged limit next := by
  have moved := moved_of_move? hmove
  obtain ⟨⟨requests, hrequests⟩, hcounted⟩ :
      (∃ requests, next.slots = server.slots.after requests) ∧ Counted next := by
    rcases loop_or_aside moved with ⟨registers, hmoved⟩ | haside
    · exact ⟨exists_requests hmoved, h.counted.loop h.wellFormed hmoved⟩
    · exact ⟨⟨[], haside.slots_eq⟩, h.counted.aside haside⟩
  refine ⟨h.kept.move hmove, h.inStep.move moved, hrequests ▸ h.wellFormed.after requests,
    hrequests ▸ h.within.after requests, fun index => ?_, hcounted, h.emptied_move moved⟩
  rw [hrequests]
  exact SlotTable.generationAt_after_lt h.wellFormed (h.generationAt_lt index) requests

lemma staged_start (listeners workers connectionLimit : Nat) :
    Staged (min connectionLimit SlotId.indexCount) (start listeners workers connectionLimit) where
  kept := kept_start listeners workers connectionLimit
  inStep := inStep_start listeners workers connectionLimit
  wellFormed := SlotTable.wellFormed_withCapacity connectionLimit
  within := SlotTable.within_withCapacity connectionLimit
  generationAt_lt index := by
    rw [start, SlotTable.generationAt_withCapacity]
    decide
  counted := fun _ _ => rfl
  emptied := by simp [start]

/-- A server stays staged, however it goes on. -/
lemma Run.staged {σ : Type} {journal : Journal H σ} {first : Server} {kept : σ} {limit : Nat}
    (h : Run journal first kept server) (hs : Staged limit first) : Staged limit server :=
  h.invariant (fun hs hmove => hs.move hmove) hs

/-- What a new server comes to is staged. -/
lemma Run.staged_of_start {σ : Type} {journal : Journal H σ} {kept : σ}
    {listeners workers connectionLimit : Nat}
    (h : Run journal (.start listeners workers connectionLimit) kept server) :
    Staged (min connectionLimit SlotId.indexCount) server :=
  h.staged (staged_start listeners workers connectionLimit)

end Server

end SiteServer
