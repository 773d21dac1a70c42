import SiteServer.Proofs.Pool.Recovery
import SiteServer.Proofs.Server.Accounts

/-!
# How a server goes on

From any moment on a server can go on in many ways, and what it answers from may change on the way.
`Onward` has all of them, each with the moves that have been made and the servers that made them.
Along the way the slot table is asked what `slotRequests` says, so its slots are freed as often as
these requests free them (`Onward.slots_eq`).  What is on its way keeps its slot lent, and is on one
way only, until everything is closed (`Run.afloat`): also when the pool does not run any more.
No job of a server breaks down for its pool, so no worker is lost (`Run.intact`).
-/

open scoped List

namespace SiteServer.Server

variable {H : Type} {around : Surroundings H} {server next first later : Server}
  {registers : Bool} {id : SlotId} {c : Connection} {limit : Nat}

/-- The journal of the moves in their order, each beside the server that has made it. -/
def traceJournal (H : Type) : Journal H (List (Server × ServerMove)) where
  blank := []
  enter _ server _ move trace := trace ++ [(server, move)]

/-- The ways in which a server can go on, with the moves that are made. -/
def Onward (H : Type) (first : Server) (trace : List (Server × ServerMove)) (later : Server) :
    Prop :=
  Run (traceJournal H) first trace later

/-- Induction on the moves that have been made. -/
@[elab_as_elim]
lemma Onward.induct {motive : ∀ trace later, Onward H first trace later → Prop}
    (start : motive [] first .start)
    (step : ∀ {trace : List (Server × ServerMove)} {server next : Server} (around : Surroundings H)
      {move : ServerMove} (h : Onward H first trace server)
      (hmove : server.move? around move = some next), motive trace server h →
      motive (trace ++ [(server, move)]) next (Run.step around h hmove))
    {trace : List (Server × ServerMove)} {last : Server} (h : Onward H first trace last) :
    motive trace last h := by
  induction h with
  | start => exact start
  | step around hbefore hmove ih => exact step around hbefore hmove ih

/-! ### What the slot table is asked -/

/-- What the loop asks of the slot table when it sees a report. -/
def reportRequests (server : Server) (registers : Bool) :
    Completion → List (SlotRequest Connection)
  | .accepted peer =>
    .insert (fun id => { id, peer }) ::
      match server.slots.insert fun id => ({ id, peer } : Connection) with
      | none => []
      | some (id, _) => [.take id, if registers then .park id { id, peer } else .release id]
  | .acceptAgain _ => []
  | .stepped connection _ =>
    [if connection.hasSocket && registers then .park connection.id connection
      else .release connection.id]
  | .closed id => [.release id]

/-- What the loop asks of the slot table when an event comes. -/
def eventRequests (server : Server) (token : Nat) : List (SlotRequest Connection) :=
  if token = Token.waker ∨ (Token.listenerIndex? token server.listeners).isSome then []
  else (SlotId.ofToken? token).toList.map .take

/-- What a move asks of the slot table, in this order. -/
def slotRequests (server : Server) : ServerMove → List (SlotRequest Connection)
  | .loop registers =>
    match server.phase, server.completions with
    | .handling (token :: _), _ => server.eventRequests token
    | .draining, completion :: _ => server.reportRequests registers completion
    | .closing, [] => [.drain]
    | _, _ => []
  | _ => []

/-- What is asked of the slot table along the way. -/
def requestsAlong (trace : List (Server × ServerMove)) : List (SlotRequest Connection) :=
  trace.flatMap fun (server, move) => server.slotRequests move

lemma after_singleton (slots : SlotTable Connection) (request : SlotRequest Connection) :
    slots.after [request] = (slots.serve request).2 := rfl

lemma slots_watch_eq (server : Server) (registers : Bool) (id : SlotId) (c : Connection)
    (interest : Interest) :
    (server.watch registers id c interest).slots
      = server.slots.after [if c.hasSocket && registers then .park id c else .release id] := by
  unfold watch
  split
  · rcases hpark : server.slots.park id c with _ | slots <;>
      simp [after_singleton, SlotTable.serve, hpark, bury]
  · rfl

lemma slots_welcome_eq (hw : server.slots.WellFormed) (registers : Bool) (peer : Nat) :
    (server.welcome registers peer).slots
      = server.slots.after (server.reportRequests registers (.accepted peer)) := by
  rcases hinsert : server.slots.insert fun id => ({ id, peer } : Connection) with _ | ⟨id, slots⟩
  · simp [welcome, reportRequests, hinsert, SlotTable.after, SlotTable.serve]
  · have hparked : slots.state? id = some (.parked { id, peer }) := by
      rw [(SlotTable.insert_spec hw hinsert).2.1, Function.update_self]
    have htake : slots.take id = some ({ id, peer }, slots.setState id.index .lent) :=
      SlotTable.take_eq_some_iff.2 ⟨hparked, rfl⟩
    simp only [welcome, reportRequests, hinsert, htake, slots_watch_eq, Bool.true_and]
    simp only [SlotTable.after, SlotTable.serve, hinsert, htake]

lemma slots_handle_eq (server : Server) (token : Nat) :
    (server.handle token).slots = server.slots.after (server.eventRequests token) := by
  unfold handle eventRequests
  split
  · next hwaker => simp [hwaker, SlotTable.after]
  · next hwaker =>
    split
    · next index hindex => simp [hindex, SlotTable.after, submit]
    · next hindex =>
      simp only [hwaker, hindex, Option.isSome_none, Bool.false_eq_true, or_self, if_false]
      cases hid : SlotId.ofToken? token with
      | none => rfl
      | some id =>
        simp only [Option.toList_some, List.map_cons, List.map_nil, after_singleton,
          SlotTable.serve, dispatch]
        split <;> simp_all [submit]

lemma slots_loop_eq (hw : server.slots.WellFormed) (moved : LoopMoved server registers next) :
    next.slots = server.slots.after (server.slotRequests (.loop registers)) := by
  cases moved with
  | @handle token rest phase =>
    rw [slots_handle_eq { server with phase := .handling rest } token]
    simp only [slotRequests, phase]
    rfl
  | @process completion rest phase completions =>
    have hrequests : server.slotRequests (.loop registers)
        = server.reportRequests registers completion := by
      simp only [slotRequests, phase, completions]
    rw [hrequests]
    cases completion with
    | accepted peer => exact slots_welcome_eq (by exact hw) registers peer
    | acceptAgain => rfl
    | stepped c interest =>
      exact slots_watch_eq { server with completions := rest } registers c.id c interest
    | closed => rfl
  | @discard completion rest phase completions =>
    simp only [slotRequests, phase, completions]
    cases completion <;> rfl
  | closeAll phase completions => simp only [slotRequests, phase, completions]; rfl
  | check phase | handled phase | publish phase | shutdown phase =>
    simp only [slotRequests, phase]; rfl
  | processed phase completions => simp only [slotRequests, phase, completions]; rfl

/-- A move changes the slot table by the requests that it makes. -/
lemma slots_move_eq (hw : server.slots.WellFormed) {move : ServerMove}
    (hmove : server.move? around move = some next) :
    next.slots = server.slots.after (server.slotRequests move) := by
  cases moved_of_move? hmove with
  | loop moved => exact slots_loop_eq hw moved
  | _ => rfl

/-! ### What ends stays so -/

lemma ended_watch (server : Server) (registers : Bool) (id : SlotId) (c : Connection)
    (interest : Interest) : server.ended <+: (server.watch registers id c interest).ended := by
  unfold watch
  split
  · split
    · exact List.prefix_rfl
    · exact List.prefix_append _ _
  · exact List.prefix_append _ _

lemma ended_handle (server : Server) (token : Nat) :
    (server.handle token).ended = server.ended := by
  unfold handle dispatch
  repeat' split
  all_goals rfl

lemma ended_loop (moved : LoopMoved server registers next) : server.ended <+: next.ended := by
  cases moved with
  | @handle token rest _ =>
    exact (ended_handle { server with phase := .handling rest } token).symm ▸ List.prefix_rfl
  | @process completion rest _ _ => cases completion with
    | accepted peer =>
      simp only [process, welcome]
      split
      · exact List.prefix_rfl
      · split
        · exact List.prefix_rfl
        · exact ended_watch { server with completions := rest, slots := _ } _ _ _ _
    | acceptAgain | closed => exact List.prefix_rfl
    | stepped c interest => exact ended_watch { server with completions := rest } _ _ _ _
  | @discard completion rest _ _ => cases completion with
    | stepped => exact List.prefix_append _ _
    | _ => exact List.prefix_rfl
  | closeAll => exact List.prefix_append _ _
  | check | handled | processed | publish | shutdown => exact List.prefix_rfl

/-- A connection that has ended is not touched any more. -/
lemma ended_move {move : ServerMove} (hmove : server.move? around move = some next) :
    server.ended <+: next.ended := by
  cases moved_of_move? hmove with
  | close => exact List.prefix_append _ _
  | loop moved => exact ended_loop moved
  | _ => exact List.prefix_rfl

/-! ### What is on its way -/

/-- What is on its way has its slot lent, and is on one way only. -/
structure Afloat (server : Server) : Prop where
  lent : ∀ id ∈ server.travelling, server.slots.state? id = some .lent
  nodup : server.travelling.Nodup

lemma afloat_of_books (h : Books server.slots server.watched server.travelling) : Afloat server :=
  ⟨fun _ hmem => h.state?_eq_lent hmem, nodup_travelling h⟩

/-- Nothing sets out. -/
lemma Afloat.of_subperm (h : Afloat server) (hslots : next.slots = server.slots)
    (hsub : next.travelling <+~ server.travelling) : Afloat next := by
  refine ⟨fun id hmem => ?_, ?_⟩
  · rw [hslots]
    exact h.lent id (hsub.subset hmem)
  · obtain ⟨list, hperm, hsublist⟩ := hsub
    exact hperm.nodup_iff.1 (h.nodup.sublist hsublist)

/-- Jobs leave the pool, and the channel gets at most what they report. -/
lemma travelling_subperm {gone : List Work} (hlive : server.pool.live.Perm (gone ++ next.pool.live))
    {more : List SlotId} (hmore : more <+~ gone.filterMap Work.id?)
    (hreports : next.completions.filterMap Completion.id?
      = server.completions.filterMap Completion.id? ++ more) :
    next.travelling <+~ server.travelling := by
  have hids := (hlive.filterMap Work.id?).append_right
    (server.completions.filterMap Completion.id?)
  rw [List.filterMap_append, List.append_assoc] at hids
  rw [travelling, hreports, ← List.append_assoc]
  exact (List.perm_append_comm.subperm.trans ((List.subperm_append_right _).2 hmore)).trans
    hids.symm.subperm

/-- The job of a worker ends, and reports at most the connection that it has moved on. -/
lemma travelling_subperm_of_finish {pool : Pool Work} {worker : Nat} {job : Work}
    (hjob : server.pool.running? worker = some job)
    (hfinish : server.pool.move? (.finish worker .normal) = some pool) {completion : Completion}
    (hid : completion.id?.toList <+~ job.id?.toList) {next : Server} (hpool : next.pool = pool)
    (hreports : next.completions = server.completions ++ [completion]) :
    next.travelling <+~ server.travelling := by
  have hlive : server.pool.live.Perm ([job] ++ next.pool.live) :=
    hpool ▸ live_perm_of_running hfinish hjob
  have hmore : completion.id?.toList <+~ [job].filterMap Work.id? := by cases job <;> exact hid
  refine travelling_subperm hlive hmore ?_
  rw [hreports, List.filterMap_append]
  cases completion <;> rfl

lemma active_of_process {completion : Completion} (hactive : server.pool.active = true) :
    (server.process registers completion).pool.active = true := by
  rcases (pool_process server registers completion).2 with heq | ⟨work, moved⟩
  · rw [heq, hactive]
  · rw [moved.active_eq.resolve_right (by simp), hactive]

lemma Afloat.loop (h : server.phase ≠ .stopped → Afloat server) (hs : Staged limit server)
    (moved : LoopMoved server registers next) (hphase : next.phase ≠ .stopped)
    (hactive : next.pool.active = false) : Afloat next := by
  cases moved with
  | check phase | handled phase | processed phase | publish phase =>
    exact (h (by simp [phase])).of_subperm rfl (List.Subperm.refl _)
  | @handle token rest phase =>
    have hrunning : server.pool.active = true := hs.active (by rw [phase]; rfl)
    rw [active_handle] at hactive
    exact absurd (hactive.symm.trans hrunning) (by simp)
  | @process completion rest phase =>
    have hrunning : ({ server with completions := rest } : Server).pool.active = true :=
      hs.active (by rw [phase]; rfl)
    exact absurd (hactive.symm.trans (active_of_process hrunning)) (by simp)
  | shutdown phase moved =>
    obtain ⟨gone, hlive⟩ := moved.exists_live_perm hs.kept.disciplined rfl
    exact (h (by simp [phase])).of_subperm rfl
      (travelling_subperm hlive List.nil_subperm (by simp))
  | @discard completion rest phase completions =>
    have hsub : travelling { server with completions := rest } <+~ server.travelling := by
      rw [travelling, travelling, completions]
      exact (((List.sublist_cons_self _ _).filterMap _).append_left _).subperm
    cases completion <;> exact (h (by simp [phase])).of_subperm rfl hsub
  | closeAll => exact absurd rfl hphase

/-- While the pool runs the books say so, and when it does not run any more nothing sets out. -/
lemma Afloat.move (h : server.phase ≠ .stopped → Afloat server) (hs : Staged limit server)
    {move : ServerMove} (hmove : server.move? around move = some next)
    (hphase : next.phase ≠ .stopped) : Afloat next := by
  by_cases hactive : next.pool.active = true
  · exact afloat_of_books ((hs.move hmove).kept.books hactive)
  cases moved_of_move? hmove with
  | arrive | requestStop => exact (h hphase).of_subperm rfl (List.Subperm.refl _)
  | poll tokens phase => exact (h (by simp [phase])).of_subperm rfl (List.Subperm.refl _)
  | pool internal moved =>
    obtain ⟨gone, hlive⟩ :=
      moved.exists_live_perm hs.kept.disciplined (submitted?_of_isInternal internal)
    exact (h hphase).of_subperm rfl (travelling_subperm hlive List.nil_subperm (by simp))
  | accept =>
    have hlive : server.pool.live.Perm ([] ++ server.pool.live) := .refl _
    refine (h hphase).of_subperm rfl (travelling_subperm hlive List.nil_subperm ?_)
    simp [complete, Completion.id?]
  | acceptEnd _ _ finish =>
    obtain ⟨gone, hlive⟩ :=
      (Pool.moved_of_move? finish).exists_live_perm hs.kept.disciplined rfl
    exact (h hphase).of_subperm rfl (travelling_subperm hlive List.nil_subperm (by simp))
  | acceptRetry accepting finish =>
    have hjob := running?_of_accepting? accepting
    refine (h hphase).of_subperm rfl (travelling_subperm_of_finish hjob finish ?_ rfl rfl)
    exact List.nil_subperm
  | @wait _ turn c after _ _ stepping step finish =>
    refine (h hphase).of_subperm rfl (travelling_subperm_of_finish (running?_of_stepping? stepping)
      finish ?_ rfl rfl)
    have hid : after.id = c.id := by rw [← Connection.id_step around turn c, step]
    simp [Completion.id?, Work.id?, hid]
  | @close _ turn c after _ _ stepping step _ finish =>
    refine (h hphase).of_subperm rfl (travelling_subperm_of_finish (running?_of_stepping? stepping)
      finish ?_ rfl rfl)
    have hid : after.id = c.id := by rw [← Connection.id_step around turn c, step]
    simp [Completion.id?, Work.id?, Connection.close, hid]
  | loop moved => exact .loop h hs moved hphase (Bool.eq_false_iff.2 hactive)

/-! ### What the pool does -/

/-- What a move of a server is for its pool. -/
inductive Drives (server : Server) (move : ServerMove) (next : Server) : Prop where
  | rests (pool : next.pool = server.pool) (move_ne : ∀ m, move ≠ .pool m)
  /-- One of the pool's threads makes the move. -/
  | inside {m : PoolMove Work} (move_eq : move = .pool m) (internal : isInternal m = true)
      (moved : server.pool.Moved m next.pool)
  /-- The loop submits a job or shuts the pool down, or a job ends, and it never breaks down. -/
  | outside {m : PoolMove Work} (move_ne : ∀ m', move ≠ .pool m') (internal : isInternal m = false)
      (intact : ∀ worker, m ≠ .finish worker .panic) (moved : server.pool.Moved m next.pool)

lemma drives_loop (moved : LoopMoved server registers next) :
    server.Drives (.loop registers) next := by
  have hsubmits {seen : Server} (hpool : seen.pool = server.pool)
      (h : next.pool = seen.pool ∨ ∃ work, seen.pool.Moved (.push work) next.pool) :
      server.Drives (.loop registers) next := by
    rw [hpool] at h
    rcases h with heq | ⟨work, moved⟩
    · exact .rests heq (by simp)
    · exact .outside (by simp) rfl (by simp) moved
  cases moved with
  | check | handled | processed | publish | closeAll => exact .rests rfl (by simp)
  | @handle token rest _ =>
    exact hsubmits rfl (pool_handle { server with phase := .handling rest } token)
  | @process completion rest _ _ =>
    exact hsubmits rfl (pool_process { server with completions := rest } registers completion).2
  | shutdown _ moved => exact .outside (by simp) rfl (by simp) moved
  | @discard completion _ _ _ => cases completion <;> exact .rests rfl (by simp)

lemma drives_of_move? {move : ServerMove} (hmove : server.move? around move = some next) :
    server.Drives move next := by
  cases moved_of_move? hmove with
  | arrive | accept | poll | requestStop => exact .rests rfl (by simp)
  | pool internal moved => exact .inside rfl internal moved
  | acceptEnd _ _ finish | acceptRetry _ finish | wait _ _ finish | close _ _ _ finish =>
    exact .outside (by simp) rfl (by simp) (Pool.moved_of_move? finish)
  | loop moved => exact drives_loop moved

/-- The server loses no worker. -/
lemma Drives.intact {move : ServerMove} (h : server.Drives move next) (hs : server.pool.Intact) :
    next.pool.Intact := by
  cases h with
  | rests pool => exact pool ▸ hs
  | @inside m _ internal moved =>
    exact moved.intact (fun worker hm => by simp [hm, isInternal] at internal) hs
  | outside _ _ intact moved => exact moved.intact intact hs

/-! ### All the way -/

lemma requestsAlong_append (trace : List (Server × ServerMove)) (server : Server)
    (move : ServerMove) :
    requestsAlong (trace ++ [(server, move)])
      = requestsAlong trace ++ server.slotRequests move := by
  simp [requestsAlong]

section Run

variable {σ : Type} {journal : Journal H σ} {kept : σ} (h : Run journal first kept later)
include h

lemma Run.ended : first.ended <+: later.ended :=
  h.invariant (P := fun server => first.ended <+: server.ended)
    (fun hbefore hmove => hbefore.trans (ended_move hmove)) List.prefix_rfl

lemma Run.afloat (hs : Staged limit first) (ha : first.phase ≠ .stopped → Afloat first)
    (hphase : later.phase ≠ .stopped) : Afloat later := by
  induction h with
  | start => exact ha hphase
  | step _ hbefore hmove ih => exact .move ih (hbefore.staged hs) hmove hphase

lemma Run.intact (hi : first.pool.Intact) : later.pool.Intact :=
  h.invariant (P := fun server => server.pool.Intact)
    (fun hi hmove => (drives_of_move? hmove).intact hi) hi

end Run

lemma Onward.slots_eq {trace : List (Server × ServerMove)} (h : Onward H first trace later)
    (hs : Staged limit first) : later.slots = first.slots.after (requestsAlong trace) := by
  induction h using Onward.induct with
  | start => rfl
  | step _ hbefore hmove ih =>
    rw [requestsAlong_append, SlotTable.after_append, ← ih]
    exact slots_move_eq (Run.staged hbefore hs).wellFormed hmove

section Audited

variable {ledger : Ledger} {listeners workers connectionLimit : Nat}
  (h : Audited H listeners workers connectionLimit ledger server)
include h

lemma Audited.afloat (hphase : server.phase ≠ .stopped) : Afloat server := by
  have hstart := staged_start listeners workers connectionLimit
  exact Run.afloat h hstart (fun _ => afloat_of_books (hstart.kept.books rfl)) hphase

lemma Audited.intact : server.pool.Intact :=
  Run.intact h (Pool.intact_start workers)

/-- However a server goes on, its books are kept. -/
lemma Audited.onward {trace : List (Server × ServerMove)} (honward : Onward H server trace later) :
    ∃ ledger, Audited H listeners workers connectionLimit ledger later :=
  Run.exists_append h honward

end Audited

end SiteServer.Server
