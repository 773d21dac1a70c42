import SiteServer.Proofs.Server.Accounts
import SiteServer.Proofs.Server.Isolation

/-!
# Whence connections come

A connection in the hands of a server has been there before the last move, or it is new, or a job
has just moved it on and it waits (`Acquired`).  So what is true of new connections, and stays true
when a step makes them wait, is true of all connections that a server ever has in its hands,
whatever it answers from (`Audited.forall_holds`).
-/

namespace SiteServer.Server

variable {H : Type} {around : Surroundings H} {server next : Server} {limit : Nat}
  {registers : Bool} {d : Connection}

/-- How a connection has come into the hands of a server. -/
inductive Acquired (around : Surroundings H) (server : Server) (d : Connection) : Prop where
  | held (holds : server.Holds d)
  | fresh {id : SlotId} {peer : Nat} (eq : d = { id, peer })
  | waits {turn : Turn} {c : Connection} {interest : Interest} (holds : server.Holds c)
      (step : c.step around turn = (d, .wait interest))

/-- Neither the pool nor the slots have changed. -/
lemma holds_of_eq (server : Server) (h : next.Holds d) (hpool : next.pool = server.pool)
    (hslots : next.slots = server.slots)
    (hreports : ∀ c interest, .stepped c interest ∈ next.completions →
      .stepped c interest ∈ server.completions) : server.Holds d :=
  holds_of_pool server h (fun hactive => hpool ▸ hactive) (fun _ hmem => hpool ▸ hmem) hslots
    hreports

/-- A pool that has been left by jobs, and reports that are the same about waiting connections. -/
lemma holds_of_moved (server : Server) (h : next.Holds d) {m : PoolMove Work}
    (moved : server.pool.Moved m next.pool) (hd : server.pool.Disciplined)
    (submitted : m.submitted? = none) (hslots : next.slots = server.slots)
    (hreports : ∀ c interest, .stepped c interest ∈ next.completions →
      .stepped c interest ∈ server.completions) : server.Holds d := by
  obtain ⟨gone, hlive⟩ := moved.exists_live_perm hd submitted
  exact holds_of_pool server h moved.active_of_active
    (fun _ hmem => hlive.mem_iff.2 (List.mem_append_right _ hmem)) hslots hreports

/-- When everything is being closed, only jobs are left. -/
lemma holds_of_inactive (server : Server) (h : next.Holds d)
    (hactive : server.pool.active = false) (hpool : next.pool = server.pool) : server.Holds d := by
  cases h with
  | job live => exact .job (hpool ▸ live)
  | parked active => simp [hpool, hactive] at active
  | reported active => simp [hpool, hactive] at active

/-- The loop sees a report. -/
lemma acquired_process (hs : Staged limit server) {completion : Completion}
    {rest : List Completion} (phase : server.phase = .draining)
    (completions : server.completions = completion :: rest)
    (h : ({ server with completions := rest }.process registers completion).Holds d) :
    Acquired around server d := by
  have hactive := hs.active (by rw [phase]; rfl)
  have hbooks := hs.kept.books hactive
  set seen : Server := { server with completions := rest }
  have hrest (d : Connection) (h : seen.Holds d) : server.Holds d :=
    holds_of_eq server h rfl rfl fun _ _ hmem => completions ▸ List.mem_cons_of_mem _ hmem
  cases completion with
  | accepted peer =>
    rcases hinsert : seen.slots.insert fun id => ({ id, peer } : Connection) with _ | ⟨id, slots⟩
    · simp only [process, welcome, hinsert] at h
      exact .held (hrest d (holds_of_eq seen h rfl rfl fun _ _ hmem => hmem))
    · have hw : seen.slots.WellFormed := hs.wellFormed
      rcases holds_welcome hw hinsert h with hbefore | heq
      · exact .held (hrest d hbefore)
      · exact .fresh heq
  | acceptAgain listener => exact .held (hrest d ((holds_submit h).resolve_right (by simp)))
  | stepped c interest =>
    have hlent : seen.slots.state? c.id = some .lent :=
      hbooks.state?_eq_lent (mem_travelling completions rfl)
    rcases holds_watch hlent h with hbefore | rfl
    · exact .held (hrest d hbefore)
    · exact .held (.reported hactive (completions ▸ List.mem_cons_self))
  | closed id =>
    have hlent : seen.slots.state? id = some .lent :=
      hbooks.state?_eq_lent (mem_travelling completions rfl)
    exact .held (hrest d ((holds_of_update seen h rfl (SlotTable.state?_release hlent)
      fun _ _ hmem => hmem).resolve_right (by simp)))

lemma acquired_loop (hs : Staged limit server) (moved : LoopMoved server registers next)
    (h : next.Holds d) : Acquired around server d := by
  cases moved with
  | check | handled | processed | publish =>
    exact .held (holds_of_eq server h rfl rfl fun _ _ hmem => hmem)
  | @handle token rest phase =>
    have hactive := hs.active (by rw [phase]; rfl)
    exact .held (holds_of_eq server (holds_handle (by exact hactive) h) rfl rfl
      fun _ _ hmem => hmem)
  | process phase completions => exact acquired_process hs phase completions h
  | shutdown _ moved =>
    exact .held (holds_of_moved server h moved hs.kept.disciplined rfl rfl fun _ _ hmem => hmem)
  | @discard completion rest phase _ =>
    have hactive := hs.kept.inactive_of_phase (.inl phase)
    cases completion <;> exact .held (holds_of_inactive server h hactive rfl)
  | closeAll phase _ =>
    exact .held (holds_of_inactive server h (hs.kept.inactive_of_phase (.inl phase)) rfl)

/-- Connections come into the hands of a server in no other way. -/
theorem acquired_move (hs : Staged limit server) {move : ServerMove}
    (hmove : server.move? around move = some next) (h : next.Holds d) :
    Acquired around server d := by
  have hd := hs.kept.disciplined
  cases moved_of_move? hmove with
  | arrive | poll | requestStop =>
    exact .held (holds_of_eq server h rfl rfl fun _ _ hmem => hmem)
  | accept =>
    exact .held (holds_of_eq server h rfl rfl (by simp [complete]))
  | pool internal moved =>
    exact .held (holds_of_moved server h moved hd (submitted?_of_isInternal internal) rfl
      fun _ _ hmem => hmem)
  | acceptEnd _ _ finish =>
    exact .held (holds_of_moved server h (Pool.moved_of_move? finish) hd rfl rfl
      fun _ _ hmem => hmem)
  | acceptRetry _ finish =>
    exact .held (holds_of_moved server h (Pool.moved_of_move? finish) hd rfl rfl
      (by simp [complete]))
  | @wait worker turn c after interest pool stepping step finish =>
    have hlive := live_perm_of_running finish (running?_of_stepping? stepping)
    have hmoved := Pool.moved_of_move? finish
    cases h with
    | job live => exact .held (.job (hlive.mem_iff.2 (List.mem_cons_of_mem _ live)))
    | parked active state => exact .held (.parked (hmoved.active_of_active active) state)
    | reported active report =>
      rcases List.mem_append.1 report with hbefore | hnew
      · exact .held (.reported (hmoved.active_of_active active) hbefore)
      · obtain ⟨rfl, -⟩ := Completion.stepped.inj (List.mem_singleton.1 hnew)
        exact .waits (.job (hlive.mem_iff.2 List.mem_cons_self)) step
  | close _ _ _ finish =>
    exact .held (holds_of_moved server h (Pool.moved_of_move? finish) hd rfl rfl
      (by simp [complete, bury]))
  | loop moved => exact acquired_loop hs moved h

/-- What is true of new connections, and of those that have to wait after a step when it was true of
them before, is true of every connection that a server has in its hands. -/
theorem Audited.forall_holds {P : Connection → Prop} {ledger : Ledger}
    {listeners workers connectionLimit : Nat} (fresh : ∀ id peer, P { id, peer })
    (waits : ∀ (around : Surroundings H) turn c after interest, P c →
      c.step around turn = (after, .wait interest) → P after)
    (h : Audited H listeners workers connectionLimit ledger server) :
    ∀ c, server.Holds c → P c := by
  induction h with
  | start =>
    intro c hc
    exact absurd (SlotTable.state?_withCapacity connectionLimit c.id)
      ((kept_start listeners workers connectionLimit).state?_ne_none rfl hc)
  | step around hbefore hmove ih =>
    intro c hc
    cases acquired_move hbefore.staged_of_start hmove hc with
    | held holds => exact ih c holds
    | fresh eq => exact eq ▸ fresh _ _
    | waits holds step => exact waits around _ _ c _ (ih _ holds) step

end SiteServer.Server
