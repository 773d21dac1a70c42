import Mathlib.Data.List.Basic
import SiteServer.Proofs.Pool.Moves
import SiteServer.Server.EventLoop

/-!
# What the moves of a server are

The loop and the jobs are functions that look where their thread stands.  Seen from outside, a move
is one of a few kinds: for each there is what must hold before, and the server afterwards.
`LoopMoved` has the moves of the loop, `Moved` all of them, and `moved_of_move?` says that there are
no others.  What is preserved by every move is shown case by case from these.
-/

namespace SiteServer.Server

variable {H : Type} {around : Surroundings H} {server next : Server} {registers : Bool}

/-- The moves of the loop's thread. -/
inductive LoopMoved (server : Server) (registers : Bool) : Server → Prop where
  | check (phase : server.phase = .checking) :
      LoopMoved server registers
        { server with phase := if server.stopRequested then .stopping else .polling }
  | handle {token : Nat} {rest : List Nat} (phase : server.phase = .handling (token :: rest)) :
      LoopMoved server registers ({ server with phase := .handling rest }.handle token)
  /-- All events have been handled. -/
  | handled (phase : server.phase = .handling []) :
      LoopMoved server registers { server with phase := .draining }
  | process {completion : Completion} {rest : List Completion} (phase : server.phase = .draining)
      (completions : server.completions = completion :: rest) :
      LoopMoved server registers ({ server with completions := rest }.process registers completion)
  /-- All reports have been seen. -/
  | processed (phase : server.phase = .draining) (completions : server.completions = []) :
      LoopMoved server registers { server with phase := .publishing }
  | publish (phase : server.phase = .publishing) :
      LoopMoved server registers
        { server with phase := .checking, connectionCount := server.slots.size }
  | shutdown {pool : Pool Work} (phase : server.phase = .stopping)
      (moved : server.pool.Moved .shutdown pool) :
      LoopMoved server registers
        { server with pool, phase := if pool.shutdown = .idle then .closing else .stopping }
  | discard {completion : Completion} {rest : List Completion} (phase : server.phase = .closing)
      (completions : server.completions = completion :: rest) :
      LoopMoved server registers ({ server with completions := rest }.discard completion)
  | closeAll (phase : server.phase = .closing) (completions : server.completions = []) :
      LoopMoved server registers server.closeAll

lemma loopMoved_of_loop? (h : server.loop? registers = some next) :
    LoopMoved server registers next := by
  unfold loop? at h
  split at h
  case h_1 phase =>
    obtain rfl := Option.some.inj h
    exact .check phase
  case h_2 => simp at h
  case h_3 phase =>
    obtain rfl := Option.some.inj h
    exact .handled phase
  case h_4 token rest phase =>
    obtain rfl := Option.some.inj h
    exact .handle phase
  case h_5 phase =>
    split at h
    · next completions =>
      obtain rfl := Option.some.inj h
      exact .processed phase completions
    · next completion rest completions =>
      obtain rfl := Option.some.inj h
      exact .process phase completions
  case h_6 phase =>
    obtain rfl := Option.some.inj h
    exact .publish phase
  case h_7 phase =>
    obtain ⟨pool, hpool, rfl⟩ := Option.map_eq_some_iff.1 h
    exact .shutdown phase (Pool.moved_of_move? hpool)
  case h_8 phase =>
    split at h
    · next completions =>
      obtain rfl := Option.some.inj h
      exact .closeAll phase completions
    · next completion rest completions =>
      obtain rfl := Option.some.inj h
      exact .discard phase completions
  case h_9 => simp at h

/-- All moves of a server. -/
inductive Moved (around : Surroundings H) (server : Server) : ServerMove → Server → Prop where
  | arrive {listener : Nat} (peer : Nat) (bound : listener < server.listeners)
      (phase : server.phase ≠ .stopped) :
      Moved around server (.arrive listener peer)
        { server with waiting := server.waiting ++ [(listener, peer)] }
  | pool {move : PoolMove Work} {pool : Pool Work} (internal : isInternal move = true)
      (moved : server.pool.Moved move pool) :
      Moved around server (.pool move) { server with pool }
  | accept {worker listener peer : Nat} (accepting : server.accepting? worker = some listener)
      (waiting : server.nextWaiting? listener = some peer) :
      Moved around server (.accept worker)
        ({ server with waiting := server.waiting.erase (listener, peer) }.complete
          (.accepted peer))
  | acceptEnd {worker listener : Nat} {pool : Pool Work}
      (accepting : server.accepting? worker = some listener)
      (waiting : server.nextWaiting? listener = none)
      (finish : server.pool.move? (.finish worker .normal) = some pool) :
      Moved around server (.acceptEnd worker) { server with pool }
  | acceptRetry {worker listener : Nat} {pool : Pool Work}
      (accepting : server.accepting? worker = some listener)
      (finish : server.pool.move? (.finish worker .normal) = some pool) :
      Moved around server (.acceptRetry worker)
        ({ server with pool }.complete (.acceptAgain listener))
  /-- The connection has to wait. -/
  | wait {worker : Nat} {turn : Turn} {c after : Connection} {interest : Interest}
      {pool : Pool Work} (stepping : server.stepping? worker = some c)
      (step : c.step around turn = (after, .wait interest))
      (finish : server.pool.move? (.finish worker .normal) = some pool) :
      Moved around server (.step worker turn)
        ({ server with pool }.complete (.stepped after interest))
  /-- The connection has come to its end. -/
  | close {worker : Nat} {turn : Turn} {c after : Connection} {result : StepResult}
      {pool : Pool Work} (stepping : server.stepping? worker = some c)
      (step : c.step around turn = (after, result))
      (result_ne : ∀ interest, result ≠ .wait interest)
      (finish : server.pool.move? (.finish worker .normal) = some pool) :
      Moved around server (.step worker turn)
        (({ server with pool }.bury after).complete (.closed after.close.id))
  | poll (tokens : List Nat) (phase : server.phase = .polling) :
      Moved around server (.poll tokens) { server with phase := .handling tokens }
  | loop {registers : Bool} {next : Server} (moved : LoopMoved server registers next) :
      Moved around server (.loop registers) next
  | requestStop : Moved around server .requestStop { server with stopRequested := true }

/-- Nothing else happens to a server. -/
theorem moved_of_move? {move : ServerMove} (h : server.move? around move = some next) :
    Moved around server move next := by
  cases move with
  | arrive listener peer =>
    simp only [move?, Option.ite_none_right_eq_some, Option.some.injEq] at h
    obtain ⟨⟨bound, phase⟩, rfl⟩ := h
    exact .arrive peer bound phase
  | pool move =>
    simp only [move?, Option.ite_none_right_eq_some, Option.map_eq_some_iff] at h
    obtain ⟨internal, pool, hpool, rfl⟩ := h
    exact .pool internal (Pool.moved_of_move? hpool)
  | accept worker =>
    simp only [move?, accept?] at h
    split at h
    · simp at h
    · next listener accepting =>
      obtain ⟨peer, waiting, rfl⟩ := Option.map_eq_some_iff.1 h
      exact .accept accepting waiting
  | acceptEnd worker =>
    simp only [move?] at h
    split at h
    · simp at h
    · next listener accepting =>
      obtain ⟨waiting, hfinish⟩ := Option.ite_none_right_eq_some.1 h
      obtain ⟨pool, hpool, rfl⟩ := Option.map_eq_some_iff.1 hfinish
      exact .acceptEnd accepting (Option.isNone_iff_eq_none.1 waiting) hpool
  | acceptRetry worker =>
    simp only [move?] at h
    split at h
    · simp at h
    · next listener accepting =>
      obtain ⟨pool, hpool, rfl⟩ := Option.map_eq_some_iff.1 h
      exact .acceptRetry accepting hpool
  | step worker turn =>
    simp only [move?, step?] at h
    split at h
    · simp at h
    · next c stepping =>
      split at h
      · next after interest step =>
        obtain ⟨pool, hpool, rfl⟩ := Option.map_eq_some_iff.1 h
        exact .wait stepping step hpool
      · next after result result_ne step =>
        obtain ⟨pool, hpool, rfl⟩ := Option.map_eq_some_iff.1 h
        exact .close stepping step result_ne hpool
  | poll tokens =>
    simp only [move?, Option.ite_none_right_eq_some, Option.some.injEq] at h
    obtain ⟨phase, rfl⟩ := h
    exact .poll tokens phase
  | loop registers => exact .loop (loopMoved_of_loop? h)
  | requestStop =>
    simp only [move?, Option.some.injEq] at h
    rw [← h]
    exact .requestStop

end SiteServer.Server
